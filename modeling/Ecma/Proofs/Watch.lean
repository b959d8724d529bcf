/-
Machines under watch: an exception that is raised inside a unit apart is handed to an alarm in
place of the handlers. With the handlers themselves for an alarm nothing changes.
-/
import Ecma.Engine.Basic

namespace Ecma

/-- What is done with an exception in a unit apart. -/
abbrev Alarm : Type := Caller → Frame → Nat → Exception → Action Frame

/-- Whether a position is inside a unit apart; those follow the body. -/
def Code.Template.isApart (code : Template) (pos : Nat) : Bool :=
  code.units.any fun entry => entry ≤ pos

namespace Action

/-- Hands an exception to the alarm or to the handlers. -/
def handleUnder (alarm : Alarm) (call : Caller) (fr : Frame) (pos : Nat)
    (exception : Exception) : Action Frame :=
  if fr.code.isApart pos then alarm call fr pos exception
  else handle call fr pos exception

/-- Runs one instruction under watch. -/
def advanceUnder (alarm : Alarm) (call : Caller) (fr : Frame) : Action Progress := do
  match fr.code.instructions[fr.position]? with
  | none => return .exit (.returned .undefined)
  | some instr =>
    let following := fr.jump (fr.position + 1)
    match ← attempt (guardedStep call following instr) with
    | .ok (.next fr) => return .next fr
    | .ok (.exit exit) => return .exit exit
    | .ok (.raise exception changed) =>
      return .next (← handleUnder alarm call changed fr.position exception)
    | .error exception => return .next (← handleUnder alarm call following fr.position exception)

mutual

def runUnder (alarm : Alarm) : (n : Nat) → Frame → Action Exit
  | 0, _ => throw .exhausted
  | n + 1, fr => do
    match ← advanceUnder alarm (callUnder alarm n) fr with
    | .next fr => runUnder alarm n fr
    | .exit exit => return exit

/-- Runs a frame, and the functions that take its place, under watch. -/
def activateUnder (alarm : Alarm) : (n : Nat) → Frame → Action Value
  | 0, _ => throw .exhausted
  | n + 1, fr => do
    match ← runUnder alarm n fr with
    | .returned v => return v
    | .suspended .. => fail .suspendOutside
    | .tailCall callee recv args =>
      match ← look fun heap => tailTarget? heap callee with
      | some (ref, closure) =>
        let fr ← newFrame ref closure recv args
        activateUnder alarm n fr
      | none => callUnder alarm n callee recv args

def callUnder (alarm : Alarm) : (n : Nat) → Value → Value → List Value → Action Value
  | 0, _, _, _ => throw .exhausted
  | n + 1, callee, recv, args =>
    callValue (callUnder alarm n) (runUnder alarm n) (activateUnder alarm n) callee
      recv args

end

theorem advanceUnder_handle : advanceUnder handle = advance := by
  funext call fr
  simp only [advanceUnder, handleUnder, ite_self]
  rfl

mutual

theorem runUnder_handle : (n : Nat) → runUnder handle n = run n
  | 0 => rfl
  | n + 1 => by
    funext fr
    rw [runUnder, advanceUnder_handle, callUnder_handle n, runUnder_handle n]
    rfl

theorem activateUnder_handle : (n : Nat) → activateUnder handle n = activate n
  | 0 => rfl
  | n + 1 => by
    funext fr
    rw [activateUnder, runUnder_handle n, callUnder_handle n, activateUnder_handle n]
    rfl

theorem callUnder_handle : (n : Nat) → callUnder handle n = call n
  | 0 => rfl
  | n + 1 => by
    funext callee recv args
    rw [callUnder, call, runUnder_handle n, callUnder_handle n, activateUnder_handle n]

end

end Action

namespace Execution

open Ecma.Action (callUnder runUnder)

variable (alarm : Alarm) (n : Nat)

/-- The failure that an exception amounts to, under watch. -/
def uncaughtUnder : Exception → Action Failure
  | .tooDeep => return .tooDeep
  | exception => do
    let thrown ← Action.materialize exception
    let suppressed ← Action.look fun heap =>
      thrown.suppressed ++ Action.recorded heap thrown.value
    let v ← Action.display (callUnder alarm n) thrown.value
    return .uncaught v (← suppressed.mapM (Action.display (callUnder alarm n)))

/-- An action whose exceptions are failures, under watch. -/
def ofActionUnder {α : Type} (action : Action α) : Execution α := ExceptT.mk do
  match ← Action.attempt action with
  | .ok a => return .ok a
  | .error exception => return .error (← uncaughtUnder alarm n exception)

/-- Runs the frame of a program under watch. -/
def runFrameUnder (fr : Frame) : Execution Value := do
  match ← ofActionUnder alarm n (runUnder alarm n fr) with
  | .returned v => return v
  | .suspended .. | .tailCall .. => throw .stoppedEarly

/-- Runs a program under watch; a module gets no imports. -/
def runCompiledUnder (script : Compile.Script) : Execution Value := do
  match script.goal with
  | .script =>
    let realm ← Action.realm
    runFrameUnder alarm n
      (Frame.start script.template realm.globalRecord (.object realm.globalObject) none [])
  | .module =>
    let imports ← script.imports.mapM (importValue [])
    let realm ← Action.realm
    let record ← Action.allocRecord (.declarative (some realm.globalRecord) #[])
    runFrameUnder alarm n
      { Frame.start script.template record .undefined none [] with imports := imports.toArray }

/-- Compiles and runs a program, and the jobs that it leaves, under watch. -/
def evalUnder (options : Compile.Options) (program : Syntax.Program Unit) : Execution Value := do
  let v ← runCompiledUnder alarm n (← ofRefusal (Compile.compile options program))
  let _ ← ofActionUnder alarm n
    (Action.runJobs (callUnder alarm n) (runUnder alarm n) 0 n)
  return v

theorem uncaughtUnder_handle : uncaughtUnder Action.handle n = uncaught n := by
  funext exception
  simp only [uncaughtUnder, Action.callUnder_handle]
  rfl

theorem ofActionUnder_handle {α : Type} (action : Action α) :
    ofActionUnder Action.handle n action = ofAction n action := by
  simp only [ofActionUnder, uncaughtUnder_handle]
  rfl

theorem runFrameUnder_handle (fr : Frame) : runFrameUnder Action.handle n fr = runFrame n fr := by
  simp only [runFrameUnder, ofActionUnder_handle, Action.runUnder_handle]
  rfl

theorem runCompiledUnder_handle (script : Compile.Script) :
    runCompiledUnder Action.handle n script = runCompiled n script := by
  cases hg : script.goal with
  | script =>
    simp only [runCompiledUnder, runCompiled, runScriptCode, hg, runFrameUnder_handle]
  | module =>
    simp only [runCompiledUnder, runCompiled, runModule, runModuleCode, hg, runFrameUnder_handle]
    rfl

theorem evalUnder_handle (options : Compile.Options) (program : Syntax.Program Unit) :
    evalUnder Action.handle n options program = eval n options program := by
  simp only [evalUnder, eval, complete, runCompiledUnder_handle, runJobs, ofActionUnder_handle,
    Action.callUnder_handle, Action.runUnder_handle]

end Execution

end Ecma
