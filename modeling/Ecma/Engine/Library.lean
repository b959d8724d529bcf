/-
Programs in files. A file that was compiled once is not read again, even if it
has changed since.
-/
import Ecma.Engine.Basic
import Ecma.Engine.Files

namespace Ecma

namespace Files

def program (files : Files) (path : String) : Except Failure (Syntax.Program Unit) := do
  match Syntax.Program.ofText? (← files.text path) with
  | some program => .ok program
  | none => .error .notProgram

def script (files : Files) (options : Compile.Options) (path : String) :
    Except Failure Compile.Script := do
  (Compile.compile options (← files.program path)).mapError .refused

end Files

/-- The programs that were compiled, by their paths. -/
structure Library where
  scripts : List (String × Compile.Script) := []

namespace Library

def size (library : Library) : Nat := library.scripts.length

def find? (library : Library) (path : String) : Option Compile.Script :=
  library.scripts.lookup path

/-- The program in a file, which is kept if it compiles. -/
def compile (options : Compile.Options) (files : Files) (library : Library) (path : String) :
    Except Failure Compile.Script × Library :=
  match library.find? path with
  | some script => (.ok script, library)
  | none =>
    match files.script options path with
    | .ok script => (.ok script, ⟨(path, script) :: library.scripts⟩)
    | .error failure => (.error failure, library)

def compileAll (options : Compile.Options) (files : Files) :
    Library → List String → List (Except Failure Compile.Script) × Library
  | library, [] => ([], library)
  | library, path :: paths =>
    let (script, library) := library.compile options files path
    let (scripts, library) := compileAll options files library paths
    (script :: scripts, library)

end Library

namespace Execution

/-- Goes on if nothing has failed before. -/
def ofExcept : Except Failure α → Execution α
  | .ok a => pure a
  | .error failure => throw failure

/-- Runs a program, if there is one, and the jobs that it leaves. -/
def completeFile (fuel : Nat) (script : Except Failure Compile.Script) : Execution Value := do
  complete fuel (← ofExcept script)

/-- Runs programs one after the other; the first failure is the last. -/
def completeFiles (fuel : Nat) (scripts : List (Except Failure Compile.Script)) :
    Execution (List Value) :=
  scripts.mapM (completeFile fuel)

def evalFile (fuel : Nat) (options : Compile.Options) (files : Files) (path : String) :
    Execution Value := do
  eval fuel options (← ofExcept (files.program path))

/-- The result on a machine, none if the fuel does not suffice. -/
def onMachine (execution : Execution α) (machine : Machine) :
    Option (Except Failure α) × Machine :=
  match ExceptT.run execution machine with
  | .ok result machine => (some result, machine)
  | .error _ machine => (none, machine)

/-- The text of a value, empty if the fuel does not suffice. -/
def displayOn (fuel : Nat) (value : Value) (machine : Machine) : String × Machine :=
  match display fuel value machine with
  | .ok text machine => (text, machine)
  | .error _ machine => ("", machine)

end Execution

end Ecma
