/-
Instructions on environment records, variables and the global names of scripts.
-/
import Ecma.Machine.Step.Basic

namespace Ecma.Action

open Code (Instruction Operand)

variable (frame : Frame) (instruction : Instruction)

/-! ## Records -/

def enterRecord (record : Record) : Action Effect := do
  return .next { frame with record := ← allocRecord record }

def leaveRecord : Action Effect := do
  match (← look fun heap => heap.record frame.record).parent? with
  | some record => return .next { frame with record }
  | none => fail .outermostRecord

def copyRecord : Action Effect := do
  return .next { frame with record := ← apply fun heap => heap.copyRecord frame.record }

def saveRecord : Action Effect := do
  let (index, _) ← registerOf frame instruction
  return .next (frame.setRegister index (.record frame.record))

def restoreRecord : Action Effect := do
  match ← registerOf frame instruction with
  | (_, .record record) => return .next { frame with record }
  | _ => badOperand instruction

def enterObject : Action Effect := do
  let (value, frame) ← pop frame
  let object ← toObject value
  enterRecord frame (.object (some frame.record) object)

def addVariable : Action Effect := do
  let (name, deletable) ← bindingOf frame instruction
  going frame (change fun heap => heap.createMutable frame.record name deletable)

def addConstant : Action Effect := do
  let (name, strict) ← bindingOf frame instruction
  going frame (change fun heap => heap.createImmutable frame.record name strict)

/-! ## Slots -/

def firstValue : Action Effect := do
  let (hops, slot) ← operand instruction Operand.slot?
  let (value, frame) ← pop frame
  going frame (update (Heap.initializeSlot frame.record hops slot value))

def getSlot : Action Effect := do
  let (hops, slot) ← operand instruction Operand.slot?
  pushing frame (query fun heap => heap.getSlotUnchecked frame.record hops slot)

def getSlotChecked : Action Effect := do
  let (hops, slot) ← operand instruction Operand.slot?
  pushing frame (query fun heap => heap.getSlot frame.record hops slot)

def setSlot : Action Effect := do
  let (hops, slot) ← operand instruction Operand.slot?
  let (value, frame) ← pop frame
  going frame (update (Heap.setSlot frame.record hops slot value frame.code.strict))

/-! ## Names -/

def resolve (name : String) : Action (Option RecordRef) :=
  look fun heap => heap.resolve? frame.record name

/-- The record that binds a name, which must be bound. -/
def resolveBound (name : String) : Action RecordRef := do
  match ← resolve frame name with
  | some record => return record
  | none => fail (.notDefined name)

def valueIn (record : RecordRef) (name : String) : Action Value :=
  query fun heap => heap.getBinding record name true

def getName : Action Effect := do
  let name ← nameOf frame instruction
  pushing frame do valueIn (← resolveBound frame name) name

/-- Reads a name that is called, and the object that it is called on. -/
def getNameWithThis : Action Effect := do
  let name ← nameOf frame instruction
  let record ← resolveBound frame name
  let function ← valueIn record name
  let base ← look fun heap => (heap.record record).withObject?
  return .next ((frame.push function).push ((base.map Value.object).getD .undefined))

/-- Assigns to a name; sloppy code makes a global of an unbound one. -/
def setName : Action Effect := do
  let (name, strict) ← bindingOf frame instruction
  let (value, frame) ← pop frame
  match ← resolve frame name with
  | some record => going frame (update (Heap.setBinding record name value strict))
  | none =>
    if strict then fail (.notDefined name)
    let record := (← realm).globalRecord
    going frame (update (Heap.setBinding record name value false))

/-- Deletes a name; an unbound one counts as deleted. -/
def deleteName : Action Effect := do
  let name ← nameOf frame instruction
  pushing frame do
    match ← resolve frame name with
    | some record => return .boolean (← apply fun heap => heap.deleteBinding record name)
    | none => return .boolean true

def typeofName : Action Effect := do
  let name ← nameOf frame instruction
  pushing frame do
    match ← resolve frame name with
    | some record => return .string (← typeName (← valueIn record name))
    | none => return .string "undefined"

/-! ## Globals -/

def globalRecord : Action RecordRef := return (← realm).globalRecord

def getGlobal : Action Effect := do
  let name ← nameOf frame instruction
  pushing frame do valueIn (← globalRecord) name

def setGlobal : Action Effect := do
  let (name, strict) ← bindingOf frame instruction
  let (value, frame) ← pop frame
  let record ← globalRecord
  going frame (update (Heap.setBinding record name value strict))

def initGlobal : Action Effect := do
  let name ← nameOf frame instruction
  let (value, frame) ← pop frame
  let record ← globalRecord
  going frame (update (Heap.initializeBinding record name value))

def typeofGlobal : Action Effect := do
  let name ← nameOf frame instruction
  pushing frame do
    let record ← globalRecord
    if ← look fun heap => heap.hasBinding record name then
      return .string (← typeName (← valueIn record name))
    else return .string "undefined"

/-! ## Declarations of a script -/

def checkLexical : Action Effect := do
  let name ← nameOf frame instruction
  let record ← globalRecord
  if ← query fun heap => heap.hasVar record name then fail (.alreadyDeclared name)
  if ← query fun heap => heap.hasLexical record name then fail (.alreadyDeclared name)
  if ← query fun heap => heap.hasRestricted record name then fail (.alreadyDeclared name)
  return .next frame

def checkVar : Action Effect := do
  let name ← nameOf frame instruction
  let record ← globalRecord
  if ← query fun heap => heap.hasLexical record name then fail (.alreadyDeclared name)
  return .next frame

def checkFunction : Action Effect := do
  let name ← nameOf frame instruction
  let record ← globalRecord
  unless ← query fun heap => heap.canDeclareFunction record name do
    fail (.undeclarableFunction name)
  return .next frame

def checkDeclarable : Action Effect := do
  let name ← nameOf frame instruction
  let record ← globalRecord
  unless ← query fun heap => heap.canDeclareVar record name do
    fail (.undeclarableVariable name)
  return .next frame

def declareFunction : Action Effect := do
  let (name, deletable) ← bindingOf frame instruction
  let (value, frame) ← pop frame
  let record ← globalRecord
  going frame (update (Heap.createGlobalFunction record name value deletable))

def declareVar : Action Effect := do
  let (name, deletable) ← bindingOf frame instruction
  let record ← globalRecord
  going frame (update (Heap.createGlobalVar record name deletable))

def declareLexical : Action Effect := do
  let (name, constant) ← bindingOf frame instruction
  let record ← globalRecord
  going frame <| change fun heap =>
    if constant then heap.createImmutable record name true
    else heap.createMutable record name false

end Ecma.Action
