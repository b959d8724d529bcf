/-
Instructions on constants, functions, properties and operators.
-/
import Ecma.Machine.Step.Basic

namespace Ecma.Action

open Code (Instruction Operand)

variable (call : Caller) (frame : Frame) (instruction : Instruction)

/-! ## Constants and registers -/

def pushConstant : Action Effect := do
  match instruction.operand with
  | some (.constant index) =>
    match frame.code.constants[index]? with
    | some (.number value) => return .next (frame.push (.number value))
    | some (.string value) => return .next (frame.push (.string value))
    | none => badOperand instruction
  | _ => badOperand instruction

def loadRegister : Action Effect := do
  let index ← operand instruction Operand.register?
  return .next (frame.push (frame.registerValue index))

def storeRegister : Action Effect := do
  let (value, frame) ← pop frame
  let (index, _) ← registerOf frame instruction
  return .next (frame.setRegister index (.value value))

/-! ## Functions -/

/-- Pushes one of the values that a frame was started with. -/
def loadFrom (values : Array Value) : Action Effect := do
  let index ← operand instruction Operand.count?
  return .next (frame.push (values.getD index .undefined))

def makeClosure : Action Effect := do
  match instruction.operand with
  | some (.function index) =>
    match frame.code.functions[index]? with
    | some code =>
      let receiver := if code.kind.isArrow then some frame.receiver else none
      pushing frame do return .object (← createClosure code frame.record receiver)
    | none => badOperand instruction
  | _ => badOperand instruction

def createArguments : Action Effect := pushing frame do
  let realm ← realm
  let ref ← allocWith realm.objectPrototype (.array frame.arguments)
  change fun heap =>
    heap.defineHidden ref (.symbol realm.iteratorSymbol) (.object realm.arrayValues)
  return .object ref

/-- The callee, receiver and arguments of a call. -/
def popCall : Action ((Value × Value × List Value) × Frame) := do
  let (arguments, frame) ← popMany frame (← operand instruction Operand.count?)
  let (receiver, frame) ← pop frame
  let (callee, frame) ← pop frame
  return ((callee, receiver, arguments), frame)

def callFunction : Action Effect := do
  let ((callee, receiver, arguments), frame) ← popCall frame instruction
  pushing frame (call callee receiver arguments)

def tailCall : Action Effect := do
  let ((callee, receiver, arguments), _) ← popCall frame instruction
  return .exit (.tailCall callee receiver arguments)

def constructObject : Action Effect := do
  let (arguments, frame) ← popMany frame (← operand instruction Operand.count?)
  let (callee, frame) ← pop frame
  pushing frame (construct call callee arguments)

/-! ## Properties -/

/-- The computed key of a property; the object is checked before the key is
converted. -/
def elementKey (base key : Value) (action : String) : Action PropertyKey := do
  if base.isNullish then
    fail (← look fun heap => .elementOfNullish action (heap.describe base) (heap.describe key))
  toPropertyKey call key

def getProp : Action Effect := do
  let key := PropertyKey.string (← nameOf frame instruction)
  unary frame fun base => getProperty base key

def getElem : Action Effect :=
  binary frame fun base key => do getProperty base (← elementKey call base key "read")

def setProp : Action Effect := do
  let key := PropertyKey.string (← nameOf frame instruction)
  binary frame fun base value => do
    putProperty base key value frame.code.strict
    return value

def setElem : Action Effect := do
  let (value, frame) ← pop frame
  binary frame fun base key => do
    putProperty base (← elementKey call base key "set") value frame.code.strict
    return value

def deleteProp : Action Effect := do
  let key := PropertyKey.string (← nameOf frame instruction)
  unary frame fun base => return .boolean (← deleteProperty base key frame.code.strict)

def deleteElem : Action Effect :=
  binary frame fun base key => do
    let key ← elementKey call base key "delete"
    return .boolean (← deleteProperty base key frame.code.strict)

def newObject : Action Effect :=
  pushing frame do return .object (← allocWith (← realm).objectPrototype .ordinary)

def defineField : Action Effect := do
  let key := PropertyKey.string (← nameOf frame instruction)
  let (value, frame) ← pop frame
  going frame do defineProperty (← topObject frame) key value

def defineComputed : Action Effect := do
  let (value, frame) ← pop frame
  let (key, frame) ← pop frame
  let key ← toPropertyKey call key
  going frame do defineProperty (← topObject frame) key value

def newArray : Action Effect := do
  let (elements, frame) ← popMany frame (← operand instruction Operand.count?)
  pushing frame do
    return .object (← allocWith (← realm).arrayPrototype (.array elements.toArray))

/-! ## Operators -/

def numeric (f : Float → Float) : Action Effect :=
  unary frame fun value => return .number (f (← toNumber call value))

end Ecma.Action
