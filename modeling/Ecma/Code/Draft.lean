/-
Code in the making. Targets are labels, which get their position when the code
they stand for is reached; linking replaces every label by its position.
-/
import Ecma.Code.Template

namespace Ecma.Code

abbrev Label := Nat

/-- The value of a case in a switch table. -/
inductive SwitchKey where
  | number (value : Int)
  | string (value : String)
  deriving DecidableEq, Repr

structure DraftTable where
  cases : List (SwitchKey × Label)
  default : Label

/-- A protected range whose target is a label. -/
structure DraftHandler where
  start : Nat
  stop : Nat
  target : Label
  kind : HandlerKind

structure Draft where
  instructions : Array Instruction := #[]
  constants : Array Constant := #[]
  functions : Array Template := #[]
  /-- The position of each label, once it is placed. -/
  labels : Array (Option Nat) := #[]
  resume : Array Label := #[]
  units : Array Label := #[]
  tables : Array DraftTable := #[]
  handlers : Array DraftHandler := #[]
  registers : Nat := 0
  deriving Inhabited

namespace Draft

/-! ## Growth -/

def position (draft : Draft) : Nat := draft.instructions.size

def emit (draft : Draft) (instruction : Instruction) : Draft :=
  { draft with instructions := draft.instructions.push instruction }

def isString (value : String) : Constant → Bool
  | .string other => other == value
  | .number _ => false

def pushConstant (draft : Draft) (constant : Constant) : Nat × Draft :=
  (draft.constants.size, { draft with constants := draft.constants.push constant })

/-- The index of a string, added if it is new. -/
def addName (draft : Draft) (name : String) : Nat × Draft :=
  match draft.constants.findIdx? (isString name) with
  | some index => (index, draft)
  | none => draft.pushConstant (.string name)

/-- The index of a constant; equal strings share one, numbers do not. -/
def addConstant (draft : Draft) : Constant → Nat × Draft
  | .string value => draft.addName value
  | .number value => draft.pushConstant (.number value)

def addFunction (draft : Draft) (function : Template) : Nat × Draft :=
  (draft.functions.size, { draft with functions := draft.functions.push function })

def newLabel (draft : Draft) : Label × Draft :=
  (draft.labels.size, { draft with labels := draft.labels.push none })

/-- Gives a label the position of the next instruction. -/
def place (draft : Draft) (label : Label) : Draft :=
  { draft with labels := draft.labels.setIfInBounds label (some draft.position) }

/-- Adds a suspension that continues at a label, with its number. -/
def addResume (draft : Draft) (label : Label) : Nat × Draft :=
  (draft.resume.size, { draft with resume := draft.resume.push label })

def addUnit (draft : Draft) (label : Label) : Nat × Draft :=
  (draft.units.size, { draft with units := draft.units.push label })

def addTable (draft : Draft) (table : DraftTable) : Nat × Draft :=
  (draft.tables.size, { draft with tables := draft.tables.push table })

/-- Adds a protected range unless it is empty. -/
def addHandler (draft : Draft) (handler : DraftHandler) : Draft :=
  if handler.start < handler.stop then
    { draft with handlers := draft.handlers.push handler }
  else draft

def addRegister (draft : Draft) : Nat × Draft :=
  (draft.registers, { draft with registers := draft.registers + 1 })

/-! ## Linking -/

end Draft

inductive LinkError where
  | unplaced (label : Label)
  | mixedKeys
  deriving DecidableEq, Repr

def LinkError.message : LinkError → String
  | .unplaced label => "label L" ++ toString label ++ " never placed"
  | .mixedKeys => "mixed switch table keys"

namespace Draft

def positionOf (draft : Draft) (label : Label) : Except LinkError Nat :=
  match draft.labels[label]? with
  | some (some position) => .ok position
  | _ => .error (.unplaced label)

def linkInstruction (draft : Draft) (instruction : Instruction) :
    Except LinkError Instruction :=
  match instruction.operand with
  | some (.label label) => do
    return { instruction with operand := some (.jump (← draft.positionOf label)) }
  | _ => .ok instruction

def linkNumber (draft : Draft) : SwitchKey × Label → Except LinkError (Int × Nat)
  | (.number value, label) => do return (value, ← draft.positionOf label)
  | (.string _, _) => .error .mixedKeys

def linkString (draft : Draft) : SwitchKey × Label → Except LinkError (String × Nat)
  | (.string value, label) => do return (value, ← draft.positionOf label)
  | (.number _, _) => .error .mixedKeys

/-- Cases without those whose value occurred before. -/
def firstOfEach (cases : List (String × Nat)) : List (String × Nat) :=
  cases.foldl (fun kept case => if (kept.lookup case.1).isSome then kept else kept ++ [case]) []

/-- A switch table with its labels replaced; the first case tells its kind. -/
def linkTable (draft : Draft) (table : DraftTable) : Except LinkError SwitchTable := do
  let cases ←
    match table.cases with
    | (.string _, _) :: _ => do
      pure (.strings (firstOfEach (← table.cases.mapM draft.linkString)))
    | _ => do pure (.numbers (← table.cases.mapM draft.linkNumber))
  return ⟨cases, ← draft.positionOf table.default⟩

/-- A protected range with its label replaced; only a handler that takes control
has a target. -/
def linkHandler (draft : Draft) (handler : DraftHandler) : Except LinkError Handler := do
  let target ← if handler.kind.takesControl then draft.positionOf handler.target else .ok 0
  return ⟨handler.start, handler.stop, target, handler.kind⟩

/-- The template of a draft before its labels have positions. -/
def unlinked (draft : Draft) : Template :=
  { instructions := draft.instructions
    constants := draft.constants
    functions := draft.functions.toList
    registers := draft.registers }

def link (draft : Draft) : Except LinkError Template := do
  let instructions ← draft.instructions.toList.mapM draft.linkInstruction
  let resume ← draft.resume.toList.mapM draft.positionOf
  let units ← draft.units.toList.mapM draft.positionOf
  let tables ← draft.tables.toList.mapM draft.linkTable
  let handlers ← draft.handlers.toList.mapM draft.linkHandler
  return { draft.unlinked with
    instructions := instructions.toArray
    handlers
    resume := resume.toArray
    units := units.toArray
    tables := tables.toArray }

end Draft

end Ecma.Code
