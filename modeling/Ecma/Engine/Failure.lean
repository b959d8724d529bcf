/-
Why a program has no value.
-/
import Ecma.Compile.Program

namespace Ecma

inductive Failure where
  /-- No code is made for it. -/
  | refused (refusal : Compile.Refusal)
  | notModule
  | unresolvedImport (name : String)
  /-- Code outside of functions was suspended or ended with a tail call. -/
  | stoppedEarly
  /-- The text of the exception, and of the values that it superseded. -/
  | uncaught (value : String) (suppressed : List String)
  /-- The limit of nested calls was met. -/
  | tooDeep
  | notProgram
  | unreadable (reason : String)
  | configuration
  /-- A size is too large to be written down. -/
  | unwritable (size : Nat)

namespace Failure

def internalMessage (text : String) : String := "internal compiler error: " ++ text

/-- The text of a failure. Of what is wrong with the text of a program or of a
configuration nothing is said. -/
def message : Failure → String
  | refused refusal => refusal.message
  | notModule => internalMessage "not a module"
  | unresolvedImport name => internalMessage s!"unresolved import '{name}'"
  | stoppedEarly => internalMessage "top-level code suspended or made a tail call"
  | uncaught value _ => "Uncaught " ++ value
  | tooDeep => "InternalError: too much recursion"
  | notProgram => "JSON error"
  | unreadable reason => "IO error: " ++ reason
  | configuration => "Invalid configuration"
  | unwritable _ => internalMessage "configuration is not serializable"

/-- The text of a failure, and of what is behind it. -/
def fullMessage : Failure → String
  | unreadable reason => message (.unreadable reason) ++ ": " ++ reason
  | failure => failure.message

end Failure

end Ecma
