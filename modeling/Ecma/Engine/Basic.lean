/-
Programs on a machine. Programs that run one after the other share the global
names, and what they print is collected.
-/
import Ecma.Engine.Failure
import Ecma.Machine.Run
import Ecma.Syntax.Decode

namespace Ecma

structure Options where
  compile : Compile.Options := {}
  limits : Limits := {}
  deriving DecidableEq, Repr, Inhabited

/-- What a program does to a machine: it ends with a value or fails. -/
abbrev Execution (α : Type) : Type := ExceptT Failure Action α

namespace Execution

/-- Goes on if code was made. -/
def ofRefusal : Except Compile.Refusal α → Execution α
  | .ok a => pure a
  | .error refusal => throw (.refused refusal)

variable (fuel : Nat)

def display (value : Value) : Action String := Action.display (Action.call fuel) value

/-- The failure that an exception amounts to outside of all functions. -/
def uncaught : Exception → Action Failure
  | .tooDeep => return .tooDeep
  | exception => do
    let thrown ← Action.materialize exception
    let suppressed ← Action.look fun heap =>
      thrown.suppressed ++ Action.recorded heap thrown.value
    let value ← display fuel thrown.value
    return .uncaught value (← suppressed.mapM (display fuel))

def ofAction (action : Action α) : Execution α := ExceptT.mk do
  match ← Action.attempt action with
  | .ok a => return .ok a
  | .error exception => return .error (← uncaught fuel exception)

/-! ## Programs -/

def runFrame (frame : Frame) : Execution Value := do
  match ← ofAction fuel (Action.run fuel frame) with
  | .returned value => return value
  | .suspended .. | .tailCall .. => throw .stoppedEarly

def runScriptCode (code : Code.Template) : Execution Value := do
  let realm ← Action.realm
  runFrame fuel (Frame.start code realm.globalRecord (.object realm.globalObject) none [])

def runModuleCode (code : Code.Template) (imports : List Value) : Execution Value := do
  let realm ← Action.realm
  let record ← Action.allocRecord (.declarative (some realm.globalRecord) #[])
  runFrame fuel { Frame.start code record .undefined none [] with imports := imports.toArray }

def importValue (imports : List (String × Value)) (name : String) : Execution Value :=
  match imports.lookup name with
  | some value => pure value
  | none => throw (.unresolvedImport name)

def runModule (script : Compile.Script) (imports : List (String × Value)) : Execution Value := do
  unless script.goal = .module do throw .notModule
  runModuleCode fuel script.template (← script.imports.mapM (importValue imports))

/-- Runs a program; a module gets no imports. -/
def runCompiled (script : Compile.Script) : Execution Value :=
  match script.goal with
  | .script => runScriptCode fuel script.template
  | .module => runModule fuel script []

/-- Runs the jobs that wait, and counts them. -/
def runJobs : Execution Nat :=
  ofAction fuel (Action.runJobs (Action.call fuel) (Action.run fuel) 0 fuel)

/-- Runs a program and the jobs that it leaves. -/
def complete (script : Compile.Script) : Execution Value := do
  let value ← runCompiled fuel script
  let _ ← runJobs fuel
  return value

def eval (options : Compile.Options) (program : Syntax.Program Unit) : Execution Value := do
  complete fuel (← ofRefusal (Compile.compile options program))

def ofText (text : String) : Execution (Syntax.Program Unit) :=
  match Syntax.Program.ofText? text with
  | some program => pure program
  | none => throw .notProgram

def evalText (options : Compile.Options) (text : String) : Execution Value := do
  eval fuel options (← ofText text)

def call (callee : Value) (arguments : List Value) : Execution Value :=
  ofAction fuel (Action.call fuel callee .undefined arguments)

def global? (name : String) : Action (Option Value) := do
  let record := (← Action.realm).globalRecord
  Action.look fun heap => (heap.getBinding record name true).toOption

/-- Takes the lines printed so far. -/
def takeOutput : Action (List String) :=
  modifyGet fun machine => (machine.output.toList, { machine with output := #[] })

end Execution

end Ecma
