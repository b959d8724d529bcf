/-
Trees under another annotation: the tree stays, every annotation changes by the
same function.
-/
import Ecma.Syntax.Tree

namespace Ecma.Syntax

variable {σ τ : Type}

mutual

/-- An expression with its annotations changed. -/
def Expr.map (f : σ → τ) : Expr σ → Expr τ
  | .identifier name => .identifier name
  | .literal value => .literal value
  | .template quasis expressions => .template quasis (mapExprs f expressions)
  | .this => .this
  | .array elements => .array (mapElements f elements)
  | .object properties => .object (mapProperties f properties)
  | .function function => .function (function.map f)
  | .arrow function => .arrow (function.map f)
  | .unary operator argument => .unary operator (argument.map f)
  | .update operator leading argument => .update operator leading (argument.map f)
  | .binary operator left right => .binary operator (left.map f) (right.map f)
  | .logical operator left right => .logical operator (left.map f) (right.map f)
  | .assign operator target value => .assign operator (target.map f) (value.map f)
  | .conditional test consequent alternate =>
    .conditional (test.map f) (consequent.map f) (alternate.map f)
  | .call callee arguments => .call (callee.map f) (mapExprs f arguments)
  | .new callee arguments => .new (callee.map f) (mapExprs f arguments)
  | .member object property computed => .member (object.map f) (property.map f) computed
  | .sequence expressions => .sequence (mapExprs f expressions)
  | .yield argument delegate => .yield (mapExpr? f argument) delegate
  | .await argument => .await (argument.map f)

def mapExpr? (f : σ → τ) : Option (Expr σ) → Option (Expr τ)
  | none => none
  | some value => some (value.map f)

def mapExprs (f : σ → τ) : List (Expr σ) → List (Expr τ)
  | [] => []
  | value :: rest => value.map f :: mapExprs f rest

def mapElements (f : σ → τ) : List (Option (Expr σ)) → List (Option (Expr τ))
  | [] => []
  | element :: rest => mapExpr? f element :: mapElements f rest

def mapProperties (f : σ → τ) : List (Property σ) → List (Property τ)
  | [] => []
  | ⟨key, value, computed⟩ :: rest =>
    ⟨key.map f, value.map f, computed⟩ :: mapProperties f rest

def Func.map (f : σ → τ) : Func σ → Func τ
  | ⟨scope, name, params, body, isAsync, isGenerator⟩ =>
    ⟨f scope, name, params, body.map f, isAsync, isGenerator⟩

def Body.map (f : σ → τ) : Body σ → Body τ
  | .block body => .block (mapStmts f body)
  | .expression value => .expression (value.map f)

def mapDeclarators (f : σ → τ) : List (Declarator σ) → List (Declarator τ)
  | [] => []
  | ⟨name, init⟩ :: rest => ⟨name, mapExpr? f init⟩ :: mapDeclarators f rest

def Declaration.map (f : σ → τ) : Declaration σ → Declaration τ
  | ⟨kind, declarators⟩ => ⟨kind, mapDeclarators f declarators⟩

def Block.map (f : σ → τ) : Block σ → Block τ
  | ⟨scope, body⟩ => ⟨f scope, mapStmts f body⟩

def mapBlock? (f : σ → τ) : Option (Block σ) → Option (Block τ)
  | none => none
  | some block => some (block.map f)

def mapCases (f : σ → τ) : List (Case σ) → List (Case τ)
  | [] => []
  | ⟨test, consequent⟩ :: rest => ⟨mapExpr? f test, mapStmts f consequent⟩ :: mapCases f rest

def mapCatch? (f : σ → τ) : Option (Catch σ) → Option (Catch τ)
  | none => none
  | some ⟨scope, param, body⟩ => some ⟨f scope, param, body.map f⟩

def Head.map (f : σ → τ) : Head σ → Head τ
  | .declaration declaration => .declaration (declaration.map f)
  | .expression value => .expression (value.map f)

def mapHead? (f : σ → τ) : Option (Head σ) → Option (Head τ)
  | none => none
  | some head => some (head.map f)

def Stmt.map (f : σ → τ) : Stmt σ → Stmt τ
  | .declare declaration => .declare (declaration.map f)
  | .function function => .function (function.map f)
  | .expression value => .expression (value.map f)
  | .block block => .block (block.map f)
  | .ifElse test consequent alternate =>
    .ifElse (test.map f) (consequent.map f) (mapStmt? f alternate)
  | .switchOn scope discriminant cases =>
    .switchOn (f scope) (discriminant.map f) (mapCases f cases)
  | .whileDo test body => .whileDo (test.map f) (body.map f)
  | .doWhile body test => .doWhile (body.map f) (test.map f)
  | .forLoop scope init test update body =>
    .forLoop (f scope) (mapHead? f init) (mapExpr? f test) (mapExpr? f update) (body.map f)
  | .forIn scope left right body => .forIn (f scope) (left.map f) (right.map f) (body.map f)
  | .forOf scope left right body => .forOf (f scope) (left.map f) (right.map f) (body.map f)
  | .returnValue argument => .returnValue (mapExpr? f argument)
  | .breakTo label => .breakTo label
  | .continueTo label => .continueTo label
  | .throwValue argument => .throwValue (argument.map f)
  | .tryBlock block handler finalizer =>
    .tryBlock (block.map f) (mapCatch? f handler) (mapBlock? f finalizer)
  | .withObject scope object body => .withObject (f scope) (object.map f) (body.map f)
  | .labelled label body => .labelled label (body.map f)
  | .debugger => .debugger
  | .empty => .empty

def mapStmt? (f : σ → τ) : Option (Stmt σ) → Option (Stmt τ)
  | none => none
  | some statement => some (statement.map f)

def mapStmts (f : σ → τ) : List (Stmt σ) → List (Stmt τ)
  | [] => []
  | statement :: rest => statement.map f :: mapStmts f rest

end

end Ecma.Syntax
