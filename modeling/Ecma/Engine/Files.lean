/-
Files as the engine sees them: a path has a text, or there is a reason why it
has none.
-/
import Ecma.Engine.Failure

namespace Ecma

/-- What is read at each path: a text, or the reason why there is none. -/
abbrev Files : Type := String → Except String String

namespace Files

def missing : String := "No such file or directory (os error 2)"

def ofList (texts : List (String × String)) : Files := fun path =>
  match texts.lookup path with
  | some text => .ok text
  | none => .error missing

def text (files : Files) (path : String) : Except Failure String :=
  (files path).mapError .unreadable

def has (files : Files) (path : String) : Bool :=
  (files path).isOk

end Files

end Ecma
