/-
What one instruction does to a frame, and the ways in which it takes its
operands.
-/
import Ecma.Machine.Function

namespace Ecma

/-- What an instruction does to its frame. -/
inductive Effect where
  | next (frame : Frame)
  | exit (exit : Exit)
  | raise (exception : Exception) (frame : Frame)

namespace Code.Operand

def jump? : Operand → Option Nat
  | jump target => some target
  | _ => none

def register? : Operand → Option Nat
  | register index => some index
  | _ => none

def count? : Operand → Option Nat
  | count n | argCount n => some n
  | _ => none

def slot? : Operand → Option (Nat × Nat)
  | slot hops index => some (hops, index)
  | _ => none

/-- The index of a name, with or without a flag. -/
def name? : Operand → Option Nat
  | name index | binding index _ => some index
  | _ => none

/-- The index of a name and its flag. -/
def binding? : Operand → Option (Nat × Bool)
  | binding index deciding => some (index, deciding)
  | _ => none

end Code.Operand

namespace Action

open Code (Instruction Operand)

/-! ## Operands of the instruction -/

/-- The instruction does not say what it needs. -/
def badOperand (instruction : Instruction) : Action α :=
  fail (.badOperand instruction.op.name)

/-- What an instruction says, seen in a way. -/
def operand (instruction : Instruction) (view : Operand → Option α) : Action α :=
  match instruction.operand.bind view with
  | some a => pure a
  | none => badOperand instruction

def nameOf (frame : Frame) (instruction : Instruction) : Action String := do
  return frame.code.nameAt (← operand instruction Operand.name?)

def bindingOf (frame : Frame) (instruction : Instruction) : Action (String × Bool) := do
  let (name, flag) ← operand instruction Operand.binding?
  return (frame.code.nameAt name, flag)

/-- The register in an instruction, which must exist. -/
def registerOf (frame : Frame) (instruction : Instruction) : Action (Nat × Register) := do
  let index ← operand instruction Operand.register?
  match frame.registers[index]? with
  | some content => return (index, content)
  | none => fail .invalidRegister

/-! ## Operands on the stack -/

def pop (frame : Frame) : Action (Value × Frame) :=
  match frame.stack.pop? with
  | some (value, stack) => pure (value, { frame with stack })
  | none => fail .underflow

/-- Takes several values from the stack, the topmost last. -/
def popMany (frame : Frame) (count : Nat) : Action (List Value × Frame) :=
  match frame.stack.popMany? count with
  | some (values, stack) => pure (values, { frame with stack })
  | none => fail .underflow

/-- The top of the stack, which must be an object. -/
def topObject (frame : Frame) : Action ObjectRef := do
  match frame.stack.top? with
  | some (.object ref) => return ref
  | some _ => fail .definitionOnPrimitive
  | none => fail .underflow

def pushing (frame : Frame) (action : Action Value) : Action Effect := do
  return .next (frame.push (← action))

/-- Goes on with the same stack. -/
def going (frame : Frame) (action : Action Unit) : Action Effect := do
  action
  return .next frame

def unary (frame : Frame) (f : Value → Action Value) : Action Effect := do
  let (a, frame) ← pop frame
  pushing frame (f a)

/-- Replaces the two values on top of the stack, the lower one first. -/
def binary (frame : Frame) (f : Value → Value → Action Value) : Action Effect := do
  let (b, frame) ← pop frame
  let (a, frame) ← pop frame
  pushing frame (f a b)

/-- Takes several values and puts others in their place. -/
def rearrange (frame : Frame) (count : Nat) (f : List Value → List Value) : Action Effect := do
  let (values, frame) ← popMany frame count
  return .next { frame with stack := frame.stack.pushMany (f values) }

end Action

end Ecma
