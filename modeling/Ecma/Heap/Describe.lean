/-
Values described without running any code, for messages.
-/
import Ecma.Heap.Basic

namespace Ecma.Heap

def symbolText (heap : Heap) (ref : SymbolRef) : String :=
  s!"Symbol({heap.description ref})"

def keyText (heap : Heap) : PropertyKey → String
  | .string name => name
  | .symbol ref => heap.symbolText ref

def objectText (heap : Heap) (ref : ObjectRef) : String :=
  match (heap.object ref).payload with
  | .function closure => s!"function {closure.code.name}"
  | .builtin builtin => s!"function {builtin.name}"
  | .errorConstructor kind => s!"function {kind.name}"
  | .array _ => "[object Array]"
  | _ => "[object Object]"

def describe (heap : Heap) : Value → String
  | .undefined => "undefined"
  | .null => "null"
  | .boolean value => if value then "true" else "false"
  | .number value => Number.text value
  | .string value => value
  | .symbol ref => heap.symbolText ref
  | .object ref => heap.objectText ref

/-- The type of a value, as `typeof` names it. -/
def typeName (heap : Heap) : Value → String
  | .undefined => "undefined"
  | .null => "object"
  | .boolean _ => "boolean"
  | .number _ => "number"
  | .string _ => "string"
  | .symbol _ => "symbol"
  | .object ref => if heap.isCallable ref then "function" else "object"

end Ecma.Heap
