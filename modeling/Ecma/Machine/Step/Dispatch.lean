/-
One instruction of a frame, and the way of an exception through the handlers of
a frame.
-/
import Ecma.Machine.Step.Control
import Ecma.Machine.Step.Name
import Ecma.Machine.Step.Object

namespace Ecma

namespace Action

open Code (Instruction Operand Handler)

variable (call : Caller)

/-- Runs an instruction of a frame that already points to the next one. -/
def step (frame : Frame) (instruction : Instruction) : Action Effect :=
  match instruction.op with
  | .pop => return .next (← pop frame).2
  | .dup => rearrange frame 1 fun values => values ++ values
  | .dup2 => rearrange frame 2 fun values => values ++ values
  | .swap => rearrange frame 2 List.reverse
  | .rot3 => rearrange frame 3 fun values => values.rotateRight 1
  | .rot4 => rearrange frame 4 fun values => values.rotateRight 1
  | .clearStack => return .next frame.clear
  | .const => pushConstant frame instruction
  | .pushUndefined => return .next (frame.push .undefined)
  | .pushNull => return .next (frame.push .null)
  | .pushTrue => return .next (frame.push (.boolean true))
  | .pushFalse => return .next (frame.push (.boolean false))
  | .loadReg => loadRegister frame instruction
  | .storeReg => storeRegister frame instruction
  | .pushBlockEnv => enterRecord frame (.declarative (some frame.record) #[])
  | .popEnv => leaveRecord frame
  | .copyEnv => copyRecord frame
  | .saveEnv => saveRecord frame instruction
  | .restoreEnv => restoreRecord frame instruction
  | .pushWithEnv => enterObject frame
  | .createMutableBinding => addVariable frame instruction
  | .createImmutableBinding => addConstant frame instruction
  | .initializeBinding => firstValue frame instruction
  | .getSlot => getSlot frame instruction
  | .getSlotChecked => getSlotChecked frame instruction
  | .setSlot => setSlot frame instruction
  | .getName => getName frame instruction
  | .getNameWithThis => getNameWithThis frame instruction
  | .setName => setName frame instruction
  | .deleteName => deleteName frame instruction
  | .typeofName => typeofName frame instruction
  | .getGlobal => getGlobal frame instruction
  | .setGlobal => setGlobal frame instruction
  | .initGlobal => initGlobal frame instruction
  | .typeofGlobal => typeofGlobal frame instruction
  | .checkGlobalLexical => checkLexical frame instruction
  | .checkGlobalVar => checkVar frame instruction
  | .checkGlobalFunction => checkFunction frame instruction
  | .checkGlobalVarDeclarable => checkDeclarable frame instruction
  | .createGlobalFunction => declareFunction frame instruction
  | .createGlobalVar => declareVar frame instruction
  | .createGlobalLexical => declareLexical frame instruction
  | .loadImport => loadFrom frame instruction frame.imports
  | .callUnit => callUnit frame instruction
  | .returnUnit => returnUnit frame
  | .closure => makeClosure frame instruction
  | .loadArg => loadFrom frame instruction frame.arguments
  | .loadCallee => return .next (frame.push ((frame.callee.map Value.object).getD .undefined))
  | .createArguments => createArguments frame
  | .this => return .next (frame.push frame.receiver)
  | .call => callFunction call frame instruction
  | .tailCall => tailCall frame instruction
  | .construct => constructObject call frame instruction
  | .returnValue => returnValue frame
  | .getProp => getProp frame instruction
  | .getElem => getElem call frame
  | .setProp => setProp frame instruction
  | .setElem => setElem call frame
  | .deleteProp => deleteProp frame instruction
  | .deleteElem => deleteElem call frame
  | .newObject => newObject frame
  | .defineField => defineField frame instruction
  | .defineComputed => defineComputed call frame
  | .newArray => newArray frame instruction
  | .add => binary frame (add call)
  | .concat => binary frame (concat call)
  | .arithmetic operator => binary frame (arithmetic call operator)
  | .neg => numeric call frame fun x => -x
  | .bitNot => numeric call frame Number.complement
  | .not => unary frame fun value => return .boolean !value.truth
  | .inc => numeric call frame (· + 1)
  | .dec => numeric call frame (· - 1)
  | .relation r => binary frame fun a b => return .boolean (← relation call r a b)
  | .typeof => unary frame fun value => return .string (← typeName value)
  | .isNullish => unary frame fun value => return .boolean value.isNullish
  | .toBoolean => unary frame fun value => return .boolean value.truth
  | .toNumber => numeric call frame id
  | .toInt32 => numeric call frame fun x => Float.ofInt (Number.toInt32 x)
  | .toUint32 => numeric call frame fun x => Float.ofNat (Number.toUint32 x)
  | .toText => unary frame fun value => return .string (← toText call value)
  | .toObject => unary frame fun value => return .object (← toObject value)
  | .toPropertyKey => unary frame fun value => return (← toPropertyKey call value).toValue
  | .toPrimitive => unary frame fun value => toPrimitive call value .number
  | .jump => jump frame instruction
  | .jumpIfTrue => jumpIf frame instruction true
  | .jumpIfFalse => jumpIf frame instruction false
  | .switchTable => switchTable frame instruction
  | .throwValue => throwValue frame
  | .throwNewError => throwNewError frame instruction
  | .rethrow => rethrow frame instruction
  | .resumeDispatch => resumeDispatch frame
  | .suspend => suspend frame instruction
  | .throwAfterResume => throwAfterResume frame
  | .returnAfterResume => returnAfterResume frame instruction
  | .jumpIfResumeThrow => jumpIfResumed frame instruction Resumption.isThrow
  | .jumpIfResumeReturn => jumpIfResumed frame instruction Resumption.isFinish
  | .resumeValue => resumeValue frame
  | .await => unary frame fun value => return .object (← promiseOf value)
  | .createIterResult =>
    unary frame fun value => iterResult value (instruction.operand == some (.flag true))
  | .getIterator => unary frame (getIterator call)
  | .iteratorNext => binary frame fun iterator value => iteratorNext call iterator (some value)
  | .iteratorComplete => unary frame fun result => return .boolean (← iteratorComplete result)
  | .iteratorValue => unary frame iteratorValue
  | .iteratorClose => do
    let (iterator, frame) ← pop frame
    going frame (iteratorClose call iterator)
  | .getMethod => do
    let key := PropertyKey.string (← nameOf frame instruction)
    unary frame fun base => getMethod base key
  | .requireObject => unary frame requireObject
  | .enumerateKeys => unary frame enumerate
  | .nop => return .next frame

/-! ## Exceptions -/

def superseding (thrown : Thrown) : Register → Thrown
  | .thrown pending =>
    if pending.value.strictEquals thrown.value then thrown
    else { thrown with suppressed := thrown.suppressed ++ pending.value :: pending.suppressed }
  | .empty | .value _ | .record _ => thrown

/-- The way of an exception through handlers: to the first that takes control, past
those that do not. -/
def unwind (frame : Frame) (thrown : Thrown) : List Handler → Action Frame
  | [] => raise (.thrown thrown)
  | handler :: rest => do
    match handler.kind with
    | .catches =>
      let value ← caughtValue thrown
      return (frame.clear.push value).jump handler.target
    | .finalizes register =>
      unless register < frame.registers.size do fail .invalidRegister
      return (frame.clear.setRegister register (.thrown thrown)).jump handler.target
    | .supersedes register =>
      match frame.registers[register]? with
      | some content =>
        unwind (frame.setRegister register .empty) (superseding thrown content) rest
      | none => fail .invalidRegister
    | .closes register =>
      -- Nothing that closing throws replaces the exception.
      let _ ← attempt (iteratorClose call (frame.registerValue register))
      unwind frame thrown rest

/-- Hands an exception to the handlers that cover an instruction. -/
def handle (frame : Frame) (position : Nat) (exception : Exception) : Action Frame := do
  match frame.code.handlers.filter fun handler => handler.covers position with
  | [] => raise exception
  | handlers => unwind call frame (← materialize exception) handlers

/-! ## One instruction -/

/-- What becomes of a frame after one instruction. -/
inductive Progress where
  | next (frame : Frame)
  | exit (exit : Exit)

/-- An instruction runs only if the stack is within its limit. -/
def guardedStep (frame : Frame) (instruction : Instruction) : Action Effect := do
  if (← get).limits.stackSize < frame.stack.size then fail .stackLimit
  step call frame instruction

/-- Runs the instruction that a frame points to; past the last one the frame
returns undefined. -/
def advance (frame : Frame) : Action Progress := do
  match frame.code.instructions[frame.position]? with
  | none => return .exit (.returned .undefined)
  | some instruction =>
    let following := frame.jump (frame.position + 1)
    match ← attempt (guardedStep call following instruction) with
    | .ok (.next frame) => return .next frame
    | .ok (.exit exit) => return .exit exit
    | .ok (.raise exception changed) =>
      return .next (← handle call changed frame.position exception)
    | .error exception => return .next (← handle call following frame.position exception)

end Action

end Ecma
