/-
Environment records: the bindings of a block or function, those of an object,
and the global ones.
-/
import Ecma.Cause
import Ecma.Heap.Value

namespace Ecma

structure Cell where
  name : String
  /-- Absent until the binding is initialised. -/
  value : Option Value := none
  assignable : Bool := true
  /-- Whether assignments fail even in sloppy code. -/
  strict : Bool := false
  deletable : Bool := false
  deriving Repr, Inhabited

namespace Cell

def forVariable (name : String) (deletable : Bool) : Cell := { name, deletable }

def forConstant (name : String) (strict : Bool) : Cell := { name, strict, assignable := false }

def read (cell : Cell) : Except Cause Value :=
  match cell.value with
  | some value => .ok value
  | none => .error (.uninitialized cell.name)

/-- An initialised binding after an assignment; sloppy code cannot tell that a
constant stays as it is. -/
def write (cell : Cell) (value : Value) (strict : Bool) : Except Cause Cell :=
  if cell.value.isNone then .error (.uninitialized cell.name)
  else if cell.assignable then .ok { cell with value := some value }
  else if strict || cell.strict then .error .constantAssignment
  else .ok cell

def withValue (cell : Cell) (value : Value) : Cell := { cell with value := some value }

/-- What remains of a deleted binding: its slot. -/
def deleted (cell : Cell) : Cell := { cell with name := "", value := none }

end Cell

inductive Record where
  /-- Bindings in the order of their slots. -/
  | declarative (parent : Option RecordRef) (cells : Array Cell)
  | object (parent : Option RecordRef) (object : ObjectRef)
  /-- The properties of the global object, the lexical bindings beside it, and the
  names that were declared as variables. -/
  | global (object : ObjectRef) (lexical : List Cell) (varNames : List String)
  deriving Repr

namespace Record

instance : Inhabited Record := ⟨declarative none #[]⟩

def parent? : Record → Option RecordRef
  | declarative parent _ | object parent _ => parent
  | global .. => none

/-- The object whose properties are bindings. -/
def object? : Record → Option ObjectRef
  | object _ ref | global ref .. => some ref
  | declarative .. => none

def withObject? : Record → Option ObjectRef
  | object _ ref => some ref
  | declarative .. | global .. => none

def isGlobal : Record → Bool
  | global .. => true
  | declarative .. | object .. => false

/-! ## Cells -/

/-- The last of the first `count` cells that has a name. -/
def lastIndex? (cells : Array Cell) (name : String) : (count : Nat) → Option Nat
  | 0 => none
  | index + 1 =>
    if cells[index]?.any fun cell => cell.name == name then some index
    else lastIndex? cells name index

/-- The slot of a name; a name that is bound twice has the last one. -/
def slot? (cells : Array Cell) (name : String) : Option Nat := lastIndex? cells name cells.size

/-- The binding of a name that is kept in the record itself. -/
def cell? : Record → String → Option Cell
  | declarative _ cells, name => (slot? cells name).bind fun slot => cells[slot]?
  | object .., _ => none
  | global _ lexical _, name => lexical.find? fun cell => cell.name == name

def setSlot : Record → Nat → Cell → Record
  | declarative parent cells, slot, cell => declarative parent (cells.setIfInBounds slot cell)
  | record, _, _ => record

/-- A cell in the place of the one with its name, or at the end. -/
def insertCell (cell : Cell) : List Cell → List Cell
  | [] => [cell]
  | first :: rest =>
    if first.name = cell.name then cell :: rest else first :: insertCell cell rest

/-- Replaces the binding of a name that is kept in the record itself. -/
def setCell : Record → String → Cell → Record
  | declarative parent cells, name, cell =>
    match slot? cells name with
    | some slot => declarative parent (cells.setIfInBounds slot cell)
    | none => declarative parent cells
  | object parent ref, _, _ => object parent ref
  | global ref lexical varNames, _, cell => global ref (insertCell cell lexical) varNames

/-- Adds a binding; a global one replaces that of its name. -/
def addCell : Record → Cell → Record
  | declarative parent cells, cell => declarative parent (cells.push cell)
  | object parent ref, _ => object parent ref
  | global ref lexical varNames, cell => global ref (insertCell cell lexical) varNames

def addVarName : Record → String → Record
  | global ref lexical varNames, name =>
    global ref lexical (if varNames.contains name then varNames else varNames ++ [name])
  | record, _ => record

/-- Forgets that a name was declared as a variable. -/
def eraseVarName : Record → String → Record
  | global ref lexical varNames, name => global ref lexical (varNames.filter (· ≠ name))
  | record, _ => record

end Record

end Ecma
