/-
Demands on the nodes of a tree: on its literals, and on its functions, blocks, loop heads and `with`
statements, which may depend on whether they stand in strict code.
-/
import Ecma.Syntax.Tree

namespace Ecma.Syntax

/-- What is demanded of nodes, in strict code or not. -/
structure Demand (σ : Type) where
  literal : Literal → Prop := fun _ => True
  /-- Whether the fixed names of properties are nodes. -/
  names : Prop := True
  function : Bool → Func σ → Prop := fun _ _ => True
  /-- A block, or the clauses of a switch. -/
  block : Bool → List (Stmt σ) → Prop := fun _ _ => True
  /-- The first part of a loop head, with the body of the loop. -/
  head : Bool → Head σ → Stmt σ → Prop := fun _ _ _ => True
  withObject : Bool → Prop := fun _ => True

variable {σ : Type}

mutual

/-- All nodes of an expression are as demanded. -/
def Expr.Meets (demand : Demand σ) (strict : Bool) : Expr σ → Prop
  | .identifier _ | .this => True
  | .literal v => demand.literal v
  | .template _ expressions => MeetExprs demand strict expressions
  | .array elements => MeetElements demand strict elements
  | .object properties => MeetProperties demand strict properties
  | .function fn => fn.Meets demand strict
  | .arrow fn => fn.Meets demand strict
  | .unary _ arg => arg.Meets demand strict
  | .update _ _ arg => arg.Meets demand strict
  | .binary _ left right => left.Meets demand strict ∧ right.Meets demand strict
  | .logical _ left right => left.Meets demand strict ∧ right.Meets demand strict
  | .assign _ target v => target.Meets demand strict ∧ v.Meets demand strict
  | .conditional test consequent alternate =>
    test.Meets demand strict ∧ consequent.Meets demand strict ∧
      alternate.Meets demand strict
  | .call callee args => callee.Meets demand strict ∧ MeetExprs demand strict args
  | .new callee args => callee.Meets demand strict ∧ MeetExprs demand strict args
  | .member obj prop computed =>
    obj.Meets demand strict ∧
      (computed = true ∨ demand.names → prop.Meets demand strict)
  | .sequence expressions => MeetExprs demand strict expressions
  | .yield arg _ => MeetExpr? demand strict arg
  | .await arg => arg.Meets demand strict

def MeetExpr? (demand : Demand σ) (strict : Bool) : Option (Expr σ) → Prop
  | none => True
  | some v => v.Meets demand strict

def MeetExprs (demand : Demand σ) (strict : Bool) : List (Expr σ) → Prop
  | [] => True
  | v :: rest => v.Meets demand strict ∧ MeetExprs demand strict rest

def MeetElements (demand : Demand σ) (strict : Bool) : List (Option (Expr σ)) → Prop
  | [] => True
  | element :: rest => MeetExpr? demand strict element ∧ MeetElements demand strict rest

def MeetProperties (demand : Demand σ) (strict : Bool) : List (Property σ) → Prop
  | [] => True
  | ⟨key, v, computed⟩ :: rest =>
    (computed = true ∨ demand.names → key.Meets demand strict) ∧
      v.Meets demand strict ∧ MeetProperties demand strict rest

def Func.Meets (demand : Demand σ) (strict : Bool) : Func σ → Prop
  | ⟨scope, name, params, body, isAsync, isGenerator⟩ =>
    let fn : Func σ := ⟨scope, name, params, body, isAsync, isGenerator⟩
    demand.function (strict || fn.usesStrict) fn ∧
      body.Meets demand (strict || fn.usesStrict)

def Body.Meets (demand : Demand σ) (strict : Bool) : Body σ → Prop
  | .block body => MeetStmts demand strict body
  | .expression v => v.Meets demand strict

def MeetDeclarators (demand : Demand σ) (strict : Bool) : List (Declarator σ) → Prop
  | [] => True
  | ⟨_, init⟩ :: rest => MeetExpr? demand strict init ∧ MeetDeclarators demand strict rest

def Declaration.Meets (demand : Demand σ) (strict : Bool) : Declaration σ → Prop
  | ⟨_, declarators⟩ => MeetDeclarators demand strict declarators

def Block.Meets (demand : Demand σ) (strict : Bool) : Block σ → Prop
  | ⟨_, body⟩ => demand.block strict body ∧ MeetStmts demand strict body

def MeetBlock? (demand : Demand σ) (strict : Bool) : Option (Block σ) → Prop
  | none => True
  | some block => block.Meets demand strict

def MeetCases (demand : Demand σ) (strict : Bool) : List (Case σ) → Prop
  | [] => True
  | ⟨test, consequent⟩ :: rest =>
    MeetExpr? demand strict test ∧ MeetStmts demand strict consequent ∧
      MeetCases demand strict rest

def MeetCatch? (demand : Demand σ) (strict : Bool) : Option (Catch σ) → Prop
  | none => True
  | some ⟨_, _, body⟩ => body.Meets demand strict

def Head.Meets (demand : Demand σ) (strict : Bool) : Head σ → Prop
  | .declaration decl => decl.Meets demand strict
  | .expression v => v.Meets demand strict

def MeetHead? (demand : Demand σ) (strict : Bool) : Option (Head σ) → Prop
  | none => True
  | some head => head.Meets demand strict

/-- All nodes of a statement are as demanded. -/
def Stmt.Meets (demand : Demand σ) (strict : Bool) : Stmt σ → Prop
  | .declare decl => decl.Meets demand strict
  | .function fn => fn.Meets demand strict
  | .expression v => v.Meets demand strict
  | .block block => block.Meets demand strict
  | .ifElse test consequent alternate =>
    test.Meets demand strict ∧ consequent.Meets demand strict ∧
      MeetStmt? demand strict alternate
  | .switchOn _ discriminant cases =>
    discriminant.Meets demand strict ∧ demand.block strict (caseStatements cases) ∧
      MeetCases demand strict cases
  | .whileDo test body => test.Meets demand strict ∧ body.Meets demand strict
  | .doWhile body test => body.Meets demand strict ∧ test.Meets demand strict
  | .forLoop _ init test update body =>
    (∀ head ∈ init, demand.head strict head body) ∧ MeetHead? demand strict init ∧
      MeetExpr? demand strict test ∧ MeetExpr? demand strict update ∧
      body.Meets demand strict
  | .forIn _ left right body | .forOf _ left right body =>
    right.Meets demand strict ∧ demand.head strict left body ∧
      left.Meets demand strict ∧ body.Meets demand strict
  | .returnValue arg => MeetExpr? demand strict arg
  | .throwValue arg => arg.Meets demand strict
  | .tryBlock block handler finalizer =>
    block.Meets demand strict ∧ MeetCatch? demand strict handler ∧
      MeetBlock? demand strict finalizer
  | .withObject _ obj body =>
    demand.withObject strict ∧ obj.Meets demand strict ∧ body.Meets demand strict
  | .labelled _ body => body.Meets demand strict
  | .breakTo _ | .continueTo _ | .debugger | .empty => True

def MeetStmt? (demand : Demand σ) (strict : Bool) : Option (Stmt σ) → Prop
  | none => True
  | some stmt => stmt.Meets demand strict

def MeetStmts (demand : Demand σ) (strict : Bool) : List (Stmt σ) → Prop
  | [] => True
  | stmt :: rest => stmt.Meets demand strict ∧ MeetStmts demand strict rest

end

def Program.Meets (demand : Demand σ) (program : Program σ) : Prop :=
  MeetStmts demand program.isStrict program.body

end Ecma.Syntax
