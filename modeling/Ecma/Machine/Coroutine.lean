/-
Functions that can be suspended. A generator keeps its frame in the generator
object, an asynchronous function in an activation that a promise resumes.
-/
import Ecma.Machine.Iteration
import Ecma.Machine.Promise

namespace Ecma

inductive Exit where
  | returned (value : Value)
  | suspended (value : Value) (frame : Frame)
  /-- Another function takes the place of the frame. -/
  | tailCall (callee receiver : Value) (arguments : List Value)

abbrev Runner : Type := Frame → Action Exit

namespace Action

/-- The receiver that a function sees: arrow functions have captured one, and sloppy
functions see the global object in place of none. -/
def receiverOf (closure : Closure) (globalObject : ObjectRef) (receiver : Value) : Value :=
  if closure.code.kind.isArrow then closure.receiver.getD .undefined
  else if !closure.code.strict && receiver.isNullish then .object globalObject
  else receiver

/-- A frame for a call, in a new record. -/
def newFrame (callee : ObjectRef) (closure : Closure) (receiver : Value)
    (arguments : List Value) : Action Frame := do
  let record ← allocRecord (.declarative (some closure.record) #[])
  let receiver := receiverOf closure (← realm).globalObject receiver
  return Frame.start closure.code record receiver (some callee) arguments

def prototypeOf (callee fallback : ObjectRef) : Action ObjectRef :=
  look fun heap => ((heap.get? callee (.string "prototype")).bind Value.object?).getD fallback

variable (call : Caller) (run : Runner)

/-! ## Generators -/

/-- Calls a generator function: a generator that waits before the body. -/
def startGenerator (callee : ObjectRef) (closure : Closure) (receiver : Value)
    (arguments : List Value) : Action Value := do
  match ← nested (newFrame callee closure receiver arguments >>= run) with
  | .suspended _ frame =>
    let prototype ← prototypeOf callee (← realm).generatorPrototype
    return .object (← allocWith prototype (.generator (.start frame)))
  | .returned _ | .tailCall .. => fail .prologueDidNotSuspend

def answerCompleted : Resumption → Action Value
  | .next _ => iterResult .undefined true
  | .finish value => iterResult value true
  | .throw value => raise (.ofValue value)

def setGenerator (generator : ObjectRef) (state : GeneratorState) : Action Unit :=
  change fun heap => heap.setPayload generator (.generator state)

def continueGenerator (generator : ObjectRef) (frame : Frame) (resumption : Resumption) :
    Action Value := do
  setGenerator generator .running
  match ← attempt (run (frame.resume resumption)) with
  | .ok (.suspended value frame) =>
    setGenerator generator (.yielded frame)
    return value
  | .ok (.returned value) =>
    let result ← iterResult value true
    setGenerator generator .completed
    return result
  | .ok (.tailCall ..) =>
    setGenerator generator .completed
    fail .tailCallFromGenerator
  | .error exception =>
    setGenerator generator .completed
    raise exception

def resumeState (generator : ObjectRef) (resumption : Resumption) :
    GeneratorState → Action Value
  | .running => fail .generatorRunning
  | .completed => answerCompleted resumption
  | .yielded frame => continueGenerator run generator frame resumption
  | .start frame =>
    match resumption with
    | .next _ => continueGenerator run generator frame resumption
    | .throw _ | .finish _ => do
      setGenerator generator .completed
      answerCompleted resumption

def resumeGenerator (receiver : Value) (resumption : Resumption) : Action Value := do
  match receiver with
  | .object ref =>
    match ← payload ref with
    | .generator state => nested (resumeState run ref resumption state)
    | _ => fail .notGenerator
  | _ => fail .notGenerator

/-! ## Asynchronous functions -/

def settleWith (promise : ObjectRef) : Except Exception Value → Action Unit
  | .ok value => resolvePromise promise value
  | .error exception => do rejectPromise promise (← materialize exception).value

def afterActivation (activation promise : ObjectRef) : Except Exception Exit → Action Unit
  | .ok (.suspended awaited frame) => do
    change fun heap => heap.setPayload activation (.activation (some frame) promise)
    match awaited with
    | .object ref => addReaction ref (.resume activation)
    | _ => fail .awaitWithoutPromise
  | .ok (.returned value) => settleWith promise (.ok value)
  | .ok (.tailCall callee receiver arguments) => do
    settleWith promise (← attempt (call callee receiver arguments))
  | .error exception => settleWith promise (.error exception)

/-- Runs an activation until it waits again or its promise is settled. -/
def resumeActivation (activation : ObjectRef) (resumption : Option Resumption) :
    Action Unit := do
  match ← payload activation with
  | .activation (some frame) promise =>
    change fun heap => heap.setPayload activation (.activation none promise)
    let frame := (resumption.map frame.resume).getD frame
    afterActivation call activation promise (← attempt (nested (run frame)))
  | .activation none _ => fail .activationRunning
  | _ => fail .notActivation

/-- Calls an asynchronous function: a promise of its result. -/
def startAsync (callee : ObjectRef) (closure : Closure) (receiver : Value)
    (arguments : List Value) : Action Value := do
  let promise ← newPromise
  let frame ← newFrame callee closure receiver arguments
  let activation ← alloc { payload := .activation (some frame) promise }
  resumeActivation call run activation none
  return .object promise

/-! ## Jobs -/

def runJob (job : Job) : Action Unit := do
  match job.reaction, job.settlement with
  | .resume activation, .fulfilled value =>
    resumeActivation call run activation (some (.next value))
  | .resume activation, .rejected reason =>
    resumeActivation call run activation (some (.throw reason))
  | .callback onFulfilled _ derived, .fulfilled value =>
    if ← isCallable onFulfilled then
      settleWith derived (← attempt (call onFulfilled .undefined [value]))
    else resolvePromise derived value
  | .callback _ onRejected derived, .rejected reason =>
    if ← isCallable onRejected then
      settleWith derived (← attempt (call onRejected .undefined [reason]))
    else rejectPromise derived reason
  | .forward target, settlement => settle target settlement

/-- The first job of the queue, which is taken out. -/
def nextJob : Action (Option Job) := modifyGet fun machine =>
  match machine.jobs with
  | [] => (none, machine)
  | job :: jobs => (some job, { machine with jobs })

/-- Runs jobs until none is left, and counts them. -/
def runJobs (count : Nat) : (fuel : Nat) → Action Nat
  | 0 => throw .exhausted
  | fuel + 1 => do
    match ← nextJob with
    | none => return count
    | some job =>
      runJob call run job
      runJobs (count + 1) fuel

end Action

end Ecma
