/-
Activations of compiled functions. A frame holds all that a suspended function
needs to go on, so that it can be kept in the heap.
-/
import Ecma.Code.Template
import Ecma.Heap.Value

namespace Ecma

/-- A thrown value, and the values that it superseded. -/
structure Thrown where
  value : Value
  suppressed : List Value := []
  deriving Repr, Inhabited

inductive Register where
  | empty
  | value (value : Value)
  | record (ref : RecordRef)
  /-- An exception that waits for a finalizer. -/
  | thrown (thrown : Thrown)
  deriving Repr, Inhabited

def Register.toValue : Register → Value
  | value v => v
  | thrown t => t.value
  | empty | record _ => .undefined

/-- How a suspended function goes on. -/
inductive Resumption where
  | next (value : Value)
  | throw (value : Value)
  | finish (value : Value)
  deriving Repr, Inhabited

namespace Resumption

def value : Resumption → Value
  | next v | throw v | finish v => v

def isThrow : Resumption → Bool
  | throw _ => true
  | _ => false

/-- Whether the function is asked to return. -/
def isFinish : Resumption → Bool
  | finish _ => true
  | _ => false

end Resumption

/-! ## Operand stacks -/

/-- An operand stack, its top first, with its size at hand. -/
structure Stack where
  items : List Value := []
  size : Nat := 0
  size_eq : size = items.length := by rfl

namespace Stack

instance : Inhabited Stack := ⟨{}⟩

def push (stack : Stack) (value : Value) : Stack where
  items := value :: stack.items
  size := stack.size + 1
  size_eq := by simp [stack.size_eq]

/-- The top and what is below it. -/
def pop? : Stack → Option (Value × Stack)
  | ⟨[], _, _⟩ => none
  | ⟨value :: items, size, h⟩ => some (value, ⟨items, size - 1, by simp [h]⟩)

def top? (stack : Stack) : Option Value := stack.items.head?

/-- The `count` values on top, the topmost last, and what is below them. -/
def popMany? (stack : Stack) (count : Nat) : Option (List Value × Stack) :=
  if count ≤ stack.size then
    some ((stack.items.take count).reverse,
      ⟨stack.items.drop count, stack.size - count, by simp [stack.size_eq]⟩)
  else none

def pushMany (stack : Stack) (values : List Value) : Stack :=
  values.foldl push stack

end Stack

/-! ## Frames -/

/-- One activation of a compiled function. -/
structure Frame where
  code : Code.Template
  position : Nat := 0
  stack : Stack := {}
  registers : Array Register
  record : RecordRef
  receiver : Value
  /-- The running function; programs have none. -/
  callee : Option ObjectRef
  arguments : Array Value
  imports : Array Value := #[]
  /-- The suspension to go on from. -/
  state : Nat := 0
  resumption : Option Resumption := none
  /-- Where the units that were entered go back to, innermost first. -/
  returns : List Nat := []

namespace Frame

/-- A frame at the first instruction. -/
def start (code : Code.Template) (record : RecordRef) (receiver : Value)
    (callee : Option ObjectRef) (arguments : List Value) : Frame where
  code
  registers := Array.replicate code.registers .empty
  record
  receiver
  callee
  arguments := arguments.toArray

instance : Inhabited Frame := ⟨start default default .undefined none []⟩

/-- A frame resumed at its first instruction, which dispatches on the state. -/
def resume (frame : Frame) (resumption : Resumption) : Frame :=
  { frame with resumption := some resumption, position := 0 }

def push (frame : Frame) (value : Value) : Frame :=
  { frame with stack := frame.stack.push value }

def jump (frame : Frame) (position : Nat) : Frame := { frame with position }

def clear (frame : Frame) : Frame := { frame with stack := {} }

/-- A register read as a value; one that does not exist reads as undefined. -/
def registerValue (frame : Frame) (index : Nat) : Value :=
  (frame.registers.getD index .empty).toValue

def setRegister (frame : Frame) (index : Nat) (content : Register) : Frame :=
  { frame with registers := frame.registers.setIfInBounds index content }

end Frame

end Ecma
