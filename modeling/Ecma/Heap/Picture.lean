/-
Pictures of values: JSON that shows a value and the objects in it, down to a
fixed depth.
-/
import Ecma.Heap.Binding
import Ecma.Json.Access

namespace Ecma

def Property.flags (property : Property) : String :=
  (if property.writable then "w" else "") ++ (if property.enumerable then "e" else "") ++
    (if property.configurable then "c" else "")

def Property.ofFlags (value : Value) (letters : String) : Property :=
  let has (letter : Char) : Bool := letters.toList.contains letter
  { value, writable := has 'w', enumerable := has 'e', configurable := has 'c' }

namespace Heap

/-- A number as text; here negative zero keeps its sign. -/
def numberPicture (x : Float) : String :=
  if x == 0 && Number.signBit x then "-0" else Number.text x

/-- A key; symbols are marked. -/
def keyPicture (heap : Heap) : PropertyKey → String
  | .string name => name
  | .symbol ref => "@@" ++ heap.description ref

/-- A picture with its kind. -/
def tagged (tag : String) (members : List (String × Json)) : Json :=
  .object (("t", .string tag) :: members)

def plainPicture (heap : Heap) : Value → Json
  | .undefined | .object _ => tagged "undefined" []
  | .null => tagged "null" []
  | .boolean value => tagged "boolean" [("v", .bool value)]
  | .number value => tagged "number" [("v", .string (numberPicture value))]
  | .string value => tagged "string" [("v", .string value)]
  | .symbol ref => tagged "symbol" [("v", .string (heap.description ref))]

def propertiesPicture (heap : Heap) (inner : Value → Json) (object : Object) : String × Json :=
  ("props", .array (object.properties.entries.map fun (key, property) =>
    .array [.string (heap.keyPicture key), inner property.value, .string property.flags]))

/-- In place of what is too deep. -/
def cut : String × Json := ("cut", .bool true)

def generatorPicture : GeneratorState → String
  | .start _ => "start"
  | .yielded _ => "yield"
  | .running => "executing"
  | .completed => "completed"

def settlementPicture (inner : Value → Json) : Settlement → Json
  | .fulfilled value => tagged "promise" [("state", .string "fulfilled"), ("v", inner value)]
  | .rejected value => tagged "promise" [("state", .string "rejected"), ("v", inner value)]

/-- The picture of an object; `opened` tells whether its contents are shown. -/
def objectPicture (heap : Heap) (opened : Bool) (inner : Value → Json) (object : Object) : Json :=
  let properties := heap.propertiesPicture inner object
  match object.payload with
  | .ordinary =>
    if (object.properties.find? (.string "globalThis")).isSome then tagged "global" []
    else tagged "object" [if opened then properties else cut]
  | .array elements =>
    tagged "array" <|
      if opened then [("items", .array (elements.toList.map inner)), properties] else [cut]
  | .error kind suppressed =>
    tagged "error" <| ("kind", .string kind.name) ::
      if opened then [("suppressed", .array (suppressed.map inner)), properties] else [cut]
  | .function closure =>
    tagged "function"
      [("name", .string closure.code.name), ("kind", .string closure.code.kind.name)]
  | .builtin builtin => tagged "native" [("name", .string builtin.name)]
  | .errorConstructor kind => tagged "errorctor" [("name", .string kind.name)]
  | .generator state => tagged "generator" [("state", .string (generatorPicture state))]
  | .promise (.pending reactions) =>
    tagged "promise" [("state", .string "pending"), ("reactions", .nat reactions.length)]
  | .promise (.settled settlement) =>
    if opened then settlementPicture inner settlement else tagged "promise" [cut]
  | .activation .. => tagged "activation" []
  | .arrayIterator _ index => tagged "arrayiterator" [("index", .nat index)]
  | .listIterator values index =>
    tagged "listiterator" [("index", .nat index), ("values", .array (values.map inner))]

/-- The picture of a value that shows the contents of objects down to a depth. -/
def pictureTo (heap : Heap) : (depth : Nat) → Value → Json
  | depth + 1, .object ref => heap.objectPicture true (heap.pictureTo depth) (heap.object ref)
  | 0, .object ref => heap.objectPicture false heap.plainPicture (heap.object ref)
  | _, value => heap.plainPicture value

def picture (heap : Heap) (value : Value) : Json := heap.pictureTo 4 value

/-! ## Records -/

def cellPicture (heap : Heap) (cell : Cell) : Json :=
  .array [.string cell.name, Json.orNull heap.picture cell.value, .bool cell.assignable,
    .bool cell.strict, .bool cell.deletable]

/-- The picture of a record; global names stand in alphabetical order. -/
def recordPicture (heap : Heap) : Record → Json
  | .declarative _ cells =>
    .object [("declarative", .array (cells.toList.map heap.cellPicture))]
  | .object _ object => .object [("object", heap.picture (.object object))]
  | .global object lexical varNames =>
    .object
      [("object", heap.picture (.object object)),
        ("lexical", .array ((lexical.mergeSort fun a b => a.name ≤ b.name).map
          heap.cellPicture)),
        ("vars", .strings (varNames.mergeSort fun a b => a ≤ b))]

end Heap

end Ecma
