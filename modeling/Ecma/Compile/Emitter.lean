/-
The state of code making for one function: a draft that grows, and the
constructs around the present statement that an exit has to leave.
-/
import Ecma.Code.Draft
import Ecma.Compile.Error
import Ecma.Scope.Basic

namespace Ecma.Compile

open Code

/-- Choices that change the code but not what it does. -/
structure Options where
  /-- Blocks with more bindings than this declare them in a unit apart. -/
  blockInlineLimit : Nat := 32
  /-- Whether strict functions call in tail position without growing the stack. -/
  tailCalls : Bool := true
  switchMinCases : Nat := 2
  deriving DecidableEq, Repr, Inhabited

/-! ## Constructs that an exit may leave -/

/-- Where an exit leads. A construct is named by the number of constructs around
it. -/
inductive Exit where
  | breakTo (index : Nat)
  | continueTo (index : Nat)
  | function
  deriving DecidableEq, Repr

/-- A loop, a switch or a labelled statement. -/
structure Jumps where
  labels : List String
  breakLabel : Label
  breakUsed : Bool := false
  continueLabel : Option Label
  continueUsed : Bool := false
  /-- Whether a break without a label ends it. -/
  takesPlainBreak : Bool
  /-- The number of records at its targets. -/
  envDepth : Nat

/-- A loop whose iterator is closed when it is left early. -/
structure Closing where
  register : Nat
  /-- Where the present protected range began. -/
  opened : Option Nat := none
  ranges : List (Nat × Nat) := []

/-- A construct around the present statement. -/
inductive Control where
  | jumps (jumps : Jumps)
  /-- A finalizer, with a label for each exit that has to run it. -/
  | finalizer (exits : List (Label × Exit))
  | closing (closing : Closing)

/-! ## Code making -/

/-- What stays the same for a statement and its parts. -/
structure Context where
  scopes : Scopes
  options : Options
  kind : FunctionKind
  strict : Bool
  scope : ScopeId
  /-- The number of records entered since the start of the function. -/
  envDepth : Nat := 0
  /-- The number of protected blocks around. -/
  tryDepth : Nat := 0
  /-- The register for the value of a script. -/
  completion : Option Nat := none

/-- What grows while code is made. -/
structure Emitter where
  draft : Draft := {}
  /-- The constructs around, innermost first. -/
  control : List Control := []
  /-- The register for a value that is returned through finalizers. -/
  returnRegister : Option Nat := none
  /-- Units that stand apart, to follow the body. -/
  apart : List (Label × List Instruction) := []

/-- A piece of code in the making. -/
abbrev Emit := ReaderT Context (StateT Emitter (Except CompileError))

/-- Changes the draft and returns what the change yields. -/
def onDraft {α : Type} (f : Draft → α × Draft) : Emit α :=
  modifyGet fun emitter =>
    let (a, draft) := f emitter.draft
    (a, { emitter with draft })

def changeDraft (f : Draft → Draft) : Emit Unit :=
  modify fun emitter => { emitter with draft := f emitter.draft }

def op (op : Op) : Emit Unit :=
  changeDraft fun draft => draft.emit { op }

def opWith (op : Op) (operand : Operand) : Emit Unit :=
  changeDraft fun draft => draft.emit { op, operand := some operand }

def position : Emit Nat := return (← get).draft.position

def newLabel : Emit Label := onDraft Draft.newLabel

def place (label : Label) : Emit Unit := changeDraft fun draft => draft.place label

def jump (op : Op) (label : Label) : Emit Unit := opWith op (.label label)

def newRegister : Emit Nat := onDraft Draft.addRegister

def returnRegister : Emit Nat := do
  match (← get).returnRegister with
  | some register => return register
  | none =>
    let register ← newRegister
    modify fun emitter => { emitter with returnRegister := some register }
    return register

def opRegister (op : Op) (register : Nat) : Emit Unit := opWith op (.register register)

def opName (op : Op) (name : String) : Emit Unit := do
  opWith op (.name (← onDraft fun draft => draft.addName name))

def opBinding (op : Op) (name : String) (flag : Bool) : Emit Unit := do
  opWith op (.binding (← onDraft fun draft => draft.addName name) flag)

def pushNumber (value : Float) : Emit Unit := do
  opWith .const (.constant (← onDraft fun draft => draft.addConstant (.number value)))

def pushString (value : String) : Emit Unit := do
  opWith .const (.constant (← onDraft fun draft => draft.addName value))

def initializeSlot (slot : Nat) : Emit Unit := opWith .initializeBinding (.slot 0 slot)

/-- Runs code making in a scope that has a record of its own if `entered`. -/
def inScope {α : Type} (scope : ScopeId) (entered : Bool) (body : Emit α) : Emit α :=
  fun context =>
    body { context with scope, envDepth := context.envDepth + if entered then 1 else 0 }

/-- Runs code making under one more protected block. -/
def guarded {α : Type} (body : Emit α) : Emit α :=
  fun context => body { context with tryDepth := context.tryDepth + 1 }

def scopeOf (opened : Option ScopeId) : Emit ScopeId :=
  match opened with
  | some scope => return scope
  | none => throw .noScope

def scopeAt (id : ScopeId) : Emit Scope := return (← read).scopes.scope id

def resolve (name : String) : Emit Resolved := do
  let context ← read
  return context.scopes.resolve context.scope name

end Ecma.Compile
