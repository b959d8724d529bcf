/-
Forms for which no code is made although the analysis of names accepts them. A parser of the
language hands on none of them; a tree built by hand may hold any. They are found by one walk
through the tree, which knows what stands around a node within its function.
-/
import Mathlib.Logic.Basic
import Ecma.Syntax.Relabel

namespace Ecma.Syntax

variable {σ τ : Type}

/-- Why no code is made for a tree. -/
inductive Defect where
  | breakWithoutTarget
  | continueWithoutTarget
  | returnOutsideFunction
  | yieldOutsideGenerator
  | delegationWithoutOperand
  | awaitOutsideAsync
  | asyncGenerator
  | tryWithoutHandler
  /-- What is assigned, stepped or set by a loop is neither a variable nor a property. -/
  | target
  /-- A fixed name of a property is no identifier, string or number. -/
  | propertyKey
  /-- A loop over values declares no variable for them. -/
  | emptyLoopHead
  /-- A property is named after a dot, but not by an identifier. -/
  | memberName
  /-- A `let` or `const` stands neither in a list of statements nor in the head of a loop. -/
  | strayLexical
  deriving DecidableEq, Repr

/-- A defect, unless a condition holds. -/
def Defect.demand (condition : Bool) (defect : Defect) : List Defect :=
  if condition then [] else [defect]

/-- What stands around a node within its function. -/
structure Nesting where
  inFunction : Bool := false
  inGenerator : Bool := false
  inAsync : Bool := false
  /-- Whether a loop or a switch stands around. -/
  inBreakable : Bool := false
  inLoop : Bool := false
  labels : List String := []
  loopLabels : List String := []

namespace Nesting

/-- What the body of a function stands in; an arrow function is no generator. -/
def ofFunction (arrow isAsync isGenerator : Bool) : Nesting where
  inFunction := true
  inGenerator := isGenerator && !arrow
  inAsync := isAsync

/-- The inside of a loop with these labels. -/
def loop (around : Nesting) (labels : List String) : Nesting :=
  { around with
    inBreakable := true, inLoop := true, loopLabels := labels ++ around.loopLabels }

/-- The inside of a switch. -/
def switch (around : Nesting) : Nesting := { around with inBreakable := true }

/-- The inside of a statement with a label. -/
def labelled (around : Nesting) (label : String) : Nesting :=
  { around with labels := label :: around.labels }

/-- Whether a break has a target. -/
def takesBreak (around : Nesting) : Option String → Bool
  | none => around.inBreakable
  | some label => around.labels.contains label

/-- Whether a continue has a target. -/
def takesContinue (around : Nesting) : Option String → Bool
  | none => around.inLoop
  | some label => around.loopLabels.contains label

end Nesting

/-- Whether an expression stands for a variable or a property. -/
def Expr.isTarget : Expr σ → Bool
  | .identifier _ | .member _ _ _ => true
  | _ => false

/-- Whether an expression is the fixed name of a property in an object literal. -/
def Expr.isFixedKey : Expr σ → Bool
  | .identifier _ | .literal (.string _) | .literal (.number _) => true
  | _ => false

open Defect (demand)

mutual

/-- The defects of an expression. -/
def exprDefects (around : Nesting) : Expr σ → List Defect
  | .identifier _ | .literal _ | .this => []
  | .template _ expressions => exprsDefects around expressions
  | .array elements => elementDefects around elements
  | .object properties => propertyDefects around properties
  | .function fn => funcDefects false fn
  | .arrow fn => funcDefects true fn
  | .unary _ arg => exprDefects around arg
  | .update _ _ arg => demand arg.isTarget .target ++ exprDefects around arg
  | .binary _ left right => exprDefects around left ++ exprDefects around right
  | .logical _ left right => exprDefects around left ++ exprDefects around right
  | .assign _ target v =>
    demand target.isTarget .target ++ exprDefects around target ++ exprDefects around v
  | .conditional test consequent alternate =>
    exprDefects around test ++ exprDefects around consequent ++ exprDefects around alternate
  | .call callee args => exprDefects around callee ++ exprsDefects around args
  | .new callee args => exprDefects around callee ++ exprsDefects around args
  | .member obj prop computed =>
    demand (computed || prop.identifier?.isSome) .memberName ++ exprDefects around obj ++
      exprDefects around prop
  | .sequence expressions => exprsDefects around expressions
  | .yield arg delegate =>
    demand around.inGenerator .yieldOutsideGenerator ++
      demand (arg.isSome || !delegate) .delegationWithoutOperand ++
      exprDefects? around arg
  | .await arg => demand around.inAsync .awaitOutsideAsync ++ exprDefects around arg

/-- The defects of an expression that may be absent. -/
def exprDefects? (around : Nesting) : Option (Expr σ) → List Defect
  | none => []
  | some v => exprDefects around v

/-- The defects of expressions in a row. -/
def exprsDefects (around : Nesting) : List (Expr σ) → List Defect
  | [] => []
  | v :: rest => exprDefects around v ++ exprsDefects around rest

/-- The defects of the elements of an array literal. -/
def elementDefects (around : Nesting) : List (Option (Expr σ)) → List Defect
  | [] => []
  | element :: rest => exprDefects? around element ++ elementDefects around rest

/-- The defects of the properties of an object literal. -/
def propertyDefects (around : Nesting) : List (Property σ) → List Defect
  | [] => []
  | ⟨key, v, computed⟩ :: rest =>
    demand (computed || key.isFixedKey) .propertyKey ++ exprDefects around key ++
      exprDefects around v ++ propertyDefects around rest

/-- The defects of a function. -/
def funcDefects (arrow : Bool) : Func σ → List Defect
  | ⟨_, _, _, body, isAsync, isGenerator⟩ =>
    demand (!(isAsync && isGenerator)) .asyncGenerator ++
      bodyDefects (.ofFunction arrow isAsync isGenerator) body

def bodyDefects (around : Nesting) : Body σ → List Defect
  | .block body => stmtsDefects around body
  | .expression v => exprDefects around v

def declaratorDefects (around : Nesting) : List (Declarator σ) → List Defect
  | [] => []
  | ⟨_, init⟩ :: rest => exprDefects? around init ++ declaratorDefects around rest

def declarationDefects (around : Nesting) : Declaration σ → List Defect
  | ⟨_, declarators⟩ => declaratorDefects around declarators

def blockDefects (around : Nesting) : Block σ → List Defect
  | ⟨_, body⟩ => stmtsDefects around body

def blockDefects? (around : Nesting) : Option (Block σ) → List Defect
  | none => []
  | some block => blockDefects around block

/-- The defects of the clauses of a switch. -/
def caseDefects (around : Nesting) : List (Case σ) → List Defect
  | [] => []
  | ⟨test, consequent⟩ :: rest =>
    exprDefects? around test ++ stmtsDefects around consequent ++ caseDefects around rest

/-- The defects of a catch clause that may be absent. -/
def catchDefects? (around : Nesting) : Option (Catch σ) → List Defect
  | none => []
  | some ⟨_, _, body⟩ => blockDefects around body

/-- The defects of the first part of a loop head that may be absent. -/
def headDefects? (around : Nesting) : Option (Head σ) → List Defect
  | none => []
  | some (.declaration decl) => declarationDefects around decl
  | some (.expression v) => exprDefects around v

/-- The defects of the head of a loop over values. -/
def eachDefects (around : Nesting) : Head σ → List Defect
  | .declaration decl =>
    demand (!decl.declarators.isEmpty) .emptyLoopHead ++
      declarationDefects around decl
  | .expression v => demand v.isTarget .target ++ exprDefects around v

/-- The defects of a statement with labels in front of it; `listed` if it stands in a list of
statements. -/
def stmtDefects (around : Nesting) (labels : List String) (listed : Bool) :
    Stmt σ → List Defect
  | .declare decl =>
    demand (listed || !decl.kind.isLexical) .strayLexical ++
      declarationDefects around decl
  | .function fn => funcDefects false fn
  | .expression v => exprDefects around v
  | .block block => blockDefects around block
  | .ifElse test consequent alternate =>
    exprDefects around test ++ stmtDefects around [] false consequent ++
      stmtDefects? around alternate
  | .switchOn _ discriminant cases =>
    exprDefects around discriminant ++ caseDefects around.switch cases
  | .whileDo test body =>
    exprDefects around test ++ stmtDefects (around.loop labels) [] false body
  | .doWhile body test =>
    stmtDefects (around.loop labels) [] false body ++ exprDefects around test
  | .forLoop _ init test update body =>
    headDefects? around init ++ exprDefects? around test ++ exprDefects? around update ++
      stmtDefects (around.loop labels) [] false body
  | .forIn _ left right body =>
    eachDefects around left ++ exprDefects around right ++
      stmtDefects (around.loop labels) [] false body
  | .forOf _ left right body =>
    eachDefects around left ++ exprDefects around right ++
      stmtDefects (around.loop labels) [] false body
  | .returnValue arg =>
    demand around.inFunction .returnOutsideFunction ++ exprDefects? around arg
  | .breakTo label => demand (around.takesBreak label) .breakWithoutTarget
  | .continueTo label => demand (around.takesContinue label) .continueWithoutTarget
  | .throwValue arg => exprDefects around arg
  | .tryBlock block handler finalizer =>
    demand (handler.isSome || finalizer.isSome) .tryWithoutHandler ++ blockDefects around block ++
      catchDefects? around handler ++ blockDefects? around finalizer
  | .withObject _ obj body => exprDefects around obj ++ stmtDefects around [] false body
  | .labelled label body => stmtDefects (around.labelled label) (labels ++ [label]) false body
  | .debugger | .empty => []

/-- The defects of a statement that may be absent. -/
def stmtDefects? (around : Nesting) : Option (Stmt σ) → List Defect
  | none => []
  | some stmt => stmtDefects around [] false stmt

/-- The defects of statements in a row. -/
def stmtsDefects (around : Nesting) : List (Stmt σ) → List Defect
  | [] => []
  | stmt :: rest => stmtDefects around [] true stmt ++ stmtsDefects around rest

end

def Program.defects (program : Program σ) : List Defect := stmtsDefects {} program.body

/-! ## Annotations -/

theorem isTarget_map (f : σ → τ) (v : Expr σ) : (v.map f).isTarget = v.isTarget := by
  cases v <;> rfl

theorem isFixedKey_map (f : σ → τ) (v : Expr σ) : (v.map f).isFixedKey = v.isFixedKey := by
  cases v with
  | literal v => cases v <;> rfl
  | _ => rfl

theorem identifier?_map (f : σ → τ) (v : Expr σ) : (v.map f).identifier? = v.identifier? := by
  cases v <;> rfl

theorem isSome_mapExpr? (f : σ → τ) (v : Option (Expr σ)) : (mapExpr? f v).isSome = v.isSome := by
  cases v <;> rfl

theorem isSome_mapBlock? (f : σ → τ) (block : Option (Block σ)) :
    (mapBlock? f block).isSome = block.isSome := by
  cases block <;> rfl

theorem isSome_mapCatch? (f : σ → τ) (clause : Option (Catch σ)) :
    (mapCatch? f clause).isSome = clause.isSome := by
  rcases clause with _ | ⟨_, _, _⟩ <;> rfl

theorem isEmpty_mapDeclarators (f : σ → τ) (declarators : List (Declarator σ)) :
    (mapDeclarators f declarators).isEmpty = declarators.isEmpty := by
  rcases declarators with _ | ⟨⟨_, _⟩, _⟩ <;> rfl

section

variable (f : σ → τ)

mutual

theorem exprDefects_map {around} : (v : Expr σ) →
    exprDefects around (v.map f) = exprDefects around v
  | .identifier _ | .literal _ | .this => rfl
  | .template _ expressions => exprsDefects_map expressions
  | .array elements => elementDefects_map elements
  | .object properties => propertyDefects_map properties
  | .function fn | .arrow fn => funcDefects_map fn
  | .unary _ arg => exprDefects_map arg
  | .update _ _ arg => by
    rw [Expr.map, exprDefects, isTarget_map, exprDefects_map arg, exprDefects]
  | .binary _ left right | .logical _ left right => by
    rw [Expr.map, exprDefects, exprDefects_map left, exprDefects_map right, exprDefects]
  | .assign _ target v => by
    rw [Expr.map, exprDefects, isTarget_map, exprDefects_map target, exprDefects_map v, exprDefects]
  | .conditional test consequent alternate => by
    rw [Expr.map, exprDefects, exprDefects_map test, exprDefects_map consequent,
      exprDefects_map alternate, exprDefects]
  | .call callee args | .new callee args => by
    rw [Expr.map, exprDefects, exprDefects_map callee, exprsDefects_map args, exprDefects]
  | .member obj prop _ => by
    rw [Expr.map, exprDefects, identifier?_map, exprDefects_map obj, exprDefects_map prop,
      exprDefects]
  | .sequence expressions => exprsDefects_map expressions
  | .yield arg _ => by
    rw [Expr.map, exprDefects, isSome_mapExpr?, exprDefects?_map arg, exprDefects]
  | .await arg => by rw [Expr.map, exprDefects, exprDefects_map arg, exprDefects]

theorem exprDefects?_map {around} : (v : Option (Expr σ)) →
    exprDefects? around (mapExpr? f v) = exprDefects? around v
  | none => rfl
  | some v => exprDefects_map v

theorem exprsDefects_map {around} : (vs : List (Expr σ)) →
    exprsDefects around (mapExprs f vs) = exprsDefects around vs
  | [] => rfl
  | v :: rest => congrArg₂ _ (exprDefects_map v) (exprsDefects_map rest)

theorem elementDefects_map {around} : (elements : List (Option (Expr σ))) →
    elementDefects around (mapElements f elements) = elementDefects around elements
  | [] => rfl
  | element :: rest => congrArg₂ _ (exprDefects?_map element) (elementDefects_map rest)

theorem propertyDefects_map {around} : (properties : List (Property σ)) →
    propertyDefects around (mapProperties f properties) = propertyDefects around properties
  | [] => rfl
  | ⟨key, v, _⟩ :: rest => by
    rw [mapProperties, propertyDefects, isFixedKey_map, exprDefects_map key, exprDefects_map v,
      propertyDefects_map rest, propertyDefects]

theorem funcDefects_map {arrow} : (fn : Func σ) →
    funcDefects arrow (fn.map f) = funcDefects arrow fn
  | ⟨_, _, _, body, _, _⟩ => congrArg _ (bodyDefects_map body)

theorem bodyDefects_map {around} : (body : Body σ) →
    bodyDefects around (body.map f) = bodyDefects around body
  | .block body => stmtsDefects_map body
  | .expression v => exprDefects_map v

theorem declaratorDefects_map {around} : (declarators : List (Declarator σ)) →
    declaratorDefects around (mapDeclarators f declarators) = declaratorDefects around declarators
  | [] => rfl
  | ⟨_, init⟩ :: rest => congrArg₂ _ (exprDefects?_map init) (declaratorDefects_map rest)

theorem declarationDefects_map {around} : (decl : Declaration σ) →
    declarationDefects around (decl.map f) = declarationDefects around decl
  | ⟨_, declarators⟩ => declaratorDefects_map declarators

theorem blockDefects_map {around} : (block : Block σ) →
    blockDefects around (block.map f) = blockDefects around block
  | ⟨_, body⟩ => stmtsDefects_map body

theorem blockDefects?_map {around} : (block : Option (Block σ)) →
    blockDefects? around (mapBlock? f block) = blockDefects? around block
  | none => rfl
  | some block => blockDefects_map block

theorem caseDefects_map {around} : (cases : List (Case σ)) →
    caseDefects around (mapCases f cases) = caseDefects around cases
  | [] => rfl
  | ⟨test, consequent⟩ :: rest => by
    rw [mapCases, caseDefects, exprDefects?_map test, stmtsDefects_map consequent,
      caseDefects_map rest, caseDefects]

theorem catchDefects?_map {around} : (clause : Option (Catch σ)) →
    catchDefects? around (mapCatch? f clause) = catchDefects? around clause
  | none => rfl
  | some ⟨_, _, body⟩ => blockDefects_map body

theorem headDefects?_map {around} : (head : Option (Head σ)) →
    headDefects? around (mapHead? f head) = headDefects? around head
  | none => rfl
  | some (.declaration decl) => declarationDefects_map decl
  | some (.expression v) => exprDefects_map v

theorem eachDefects_map {around} : (head : Head σ) →
    eachDefects around (head.map f) = eachDefects around head
  | .declaration ⟨_, declarators⟩ =>
    congrArg₂ _
      (congrArg (fun empty => Defect.demand (!empty) _) (isEmpty_mapDeclarators f declarators))
      (declaratorDefects_map declarators)
  | .expression v => by
    rw [Head.map, eachDefects, isTarget_map, exprDefects_map v, eachDefects]

theorem stmtDefects_map {around labels listed} :
    (stmt : Stmt σ) → stmtDefects around labels listed (stmt.map f) =
      stmtDefects around labels listed stmt
  | .declare ⟨_, declarators⟩ => congrArg _ (declaratorDefects_map declarators)
  | .function fn => funcDefects_map fn
  | .expression v => exprDefects_map v
  | .block block => blockDefects_map block
  | .ifElse test consequent alternate => by
    rw [Stmt.map, stmtDefects, exprDefects_map test, stmtDefects_map consequent,
      stmtDefects?_map alternate, stmtDefects]
  | .switchOn _ discriminant cases => by
    rw [Stmt.map, stmtDefects, exprDefects_map discriminant, caseDefects_map cases, stmtDefects]
  | .whileDo test body | .doWhile body test => by
    rw [Stmt.map, stmtDefects, exprDefects_map test, stmtDefects_map body, stmtDefects]
  | .forLoop _ init test update body => by
    rw [Stmt.map, stmtDefects, headDefects?_map init, exprDefects?_map test,
      exprDefects?_map update, stmtDefects_map body, stmtDefects]
  | .forIn _ left right body | .forOf _ left right body => by
    rw [Stmt.map, stmtDefects, eachDefects_map left, exprDefects_map right, stmtDefects_map body,
      stmtDefects]
  | .returnValue arg => congrArg _ (exprDefects?_map arg)
  | .breakTo _ | .continueTo _ | .debugger | .empty => rfl
  | .throwValue arg => exprDefects_map arg
  | .tryBlock block handler finalizer => by
    rw [Stmt.map, stmtDefects, isSome_mapCatch?, isSome_mapBlock?, blockDefects_map block,
      catchDefects?_map handler, blockDefects?_map finalizer, stmtDefects]
  | .withObject _ obj body => by
    rw [Stmt.map, stmtDefects, exprDefects_map obj, stmtDefects_map body, stmtDefects]
  | .labelled _ body => stmtDefects_map body

theorem stmtDefects?_map {around} : (stmt : Option (Stmt σ)) →
    stmtDefects? around (mapStmt? f stmt) = stmtDefects? around stmt
  | none => rfl
  | some stmt => stmtDefects_map stmt

theorem stmtsDefects_map {around} : (statements : List (Stmt σ)) →
    stmtsDefects around (mapStmts f statements) = stmtsDefects around statements
  | [] => rfl
  | stmt :: rest => congrArg₂ _ (stmtDefects_map stmt) (stmtsDefects_map rest)

end

end

end Ecma.Syntax
