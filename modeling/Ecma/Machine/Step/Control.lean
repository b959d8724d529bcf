/-
Instructions on the flow of control: jumps, exceptions and suspension.
-/
import Ecma.Machine.Step.Basic

namespace Ecma.Action

open Code (Instruction Operand)

variable (frame : Frame) (instruction : Instruction)

/-! ## Jumps -/

def jump : Action Effect := return .next (frame.jump (← operand instruction Operand.jump?))

/-- Jumps if the top of the stack is true, or if it is false. -/
def jumpIf (wanted : Bool) : Action Effect := do
  let target ← operand instruction Operand.jump?
  let (value, frame) ← pop frame
  return .next (if value.truth = wanted then frame.jump target else frame)

def switchTable : Action Effect := do
  match instruction.operand with
  | some (.table index) =>
    match frame.code.tables[index]? with
    | some table =>
      let (value, frame) ← pop frame
      return .next <| frame.jump <|
        match value with
        | .number value => table.numberTarget value
        | .string value => table.stringTarget value
        | _ => table.default
    | none => badOperand instruction
  | _ => badOperand instruction

def callUnit : Action Effect := do
  match instruction.operand with
  | some (.unit index) =>
    match frame.code.units[index]? with
    | some entry =>
      return .next { frame with position := entry, returns := frame.position :: frame.returns }
    | none => badOperand instruction
  | _ => badOperand instruction

def returnUnit : Action Effect := do
  match frame.returns with
  | position :: returns => return .next { frame with position, returns }
  | [] => fail .unitReturn

/-- Returns the top of the stack, undefined if it is empty. -/
def returnValue : Action Effect := return .exit (.returned (frame.stack.top?.getD .undefined))

/-! ## Exceptions -/

def throwValue : Action Effect := do
  let (value, _) ← pop frame
  raise (.ofValue value)

def throwNewError : Action Effect := do
  match instruction.operand with
  | some (.error kind message) => fail (.requested kind (frame.code.nameAt message))
  | _ => badOperand instruction

/-- Throws what a register holds, and empties it. -/
def rethrow : Action Effect := do
  let (index, content) ← registerOf frame instruction
  let frame := frame.setRegister index .empty
  match content with
  | .thrown thrown => return .raise (.thrown thrown) frame
  | .value value => return .raise (.ofValue value) frame
  | .empty | .record _ => return .raise (.failed (.badOperand instruction.op.name)) frame

/-! ## Suspension -/

/-- Goes on where the frame was suspended, if it is resumed. -/
def resumeDispatch : Action Effect := do
  if frame.resumption.isNone then return .next frame
  match frame.code.resume[frame.state]? with
  | some position => return .next (frame.jump position)
  | none => fail .unknownState

def suspend : Action Effect := do
  match instruction.operand with
  | some (.state state) =>
    let (value, frame) ← pop frame
    return .exit (.suspended value { frame with state })
  | _ => badOperand instruction

/-- Throws the value sent, if the frame is resumed so. -/
def throwAfterResume : Action Effect := do
  match frame.resumption with
  | some (.throw value) => return .raise (.ofValue value) { frame with resumption := none }
  | _ => return .next frame

/-- Jumps with the value sent, if the frame is resumed to return. -/
def returnAfterResume : Action Effect := do
  let target ← operand instruction Operand.jump?
  match frame.resumption with
  | some (.finish value) =>
    return .next ({ frame with resumption := none, position := target }.push value)
  | _ => return .next frame

def jumpIfResumed (test : Resumption → Bool) : Action Effect := do
  let target ← operand instruction Operand.jump?
  return .next (if frame.resumption.any test then frame.jump target else frame)

def resumeValue : Action Effect :=
  return .next ({ frame with resumption := none }.push
    ((frame.resumption.map Resumption.value).getD .undefined))

end Ecma.Action
