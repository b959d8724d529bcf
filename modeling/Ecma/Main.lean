/-
The program: it reads the files of a request and writes its answer.
-/
import Ecma.CommandLine

namespace Ecma.Main

def read (path : String) : IO (Except String String) := do
  try
    return .ok (← IO.FS.readFile path)
  catch
    | .noFileOrDirectory .. => return .error Files.missing
    | error => return .error (toString error)

/-- The number of steps after which a program is given up. -/
def fuel : Nat := 1 <<< 60

end Ecma.Main

open Ecma in
def main (arguments : List String) : IO UInt32 := do
  let paths := ((CommandLine.Request.ofArguments? arguments).map (·.files)).getD []
  let contents ← paths.mapM fun path => do return (path, ← Main.read path)
  let files : Files := fun path => (contents.lookup path).getD (.error Files.missing)
  let outcome := CommandLine.answer Main.fuel arguments files
  IO.print outcome.stdout
  IO.eprint outcome.stderr
  return outcome.code.toUInt32
