/-
Values taken out of JSON by name and kind, with a message for what is missing.
-/
import Ecma.Json.Basic
import Ecma.Number.Reading

namespace Ecma.Json

/-- What is taken out of JSON, or why it is not there. -/
abbrev Reading (α : Type) : Type := Except String α

def asString : Json → Reading String
  | .string s => .ok s
  | _ => .error "expected a string"

def asInt : Json → Reading Int
  | .integer i => .ok i
  | _ => .error "expected an integer"

def asNat : Json → Reading Nat
  | .integer (.ofNat n) => .ok n
  | _ => .error "expected a count"

def asBool : Json → Reading Bool
  | .bool b => .ok b
  | _ => .error "expected a boolean"

def asList : Json → Reading (List Json)
  | .array items => .ok items
  | _ => .error "expected an array"

/-- The double of a JSON value: a number, the name of one that has no JSON text, or
the sixteen digits of its bits. -/
def asDouble : Json → Reading Float
  | .string "NaN" => .ok Number.nan
  | .string "Infinity" => .ok (Number.infinity false)
  | .string "-Infinity" => .ok (Number.infinity true)
  | .string "-0" => .ok (-0.0)
  | .string digits =>
    match Number.digitsValue? 16 digits.toList with
    | some bits => .ok (Float.ofBits bits.toUInt64)
    | none => .error "expected the bits of a number"
  | json =>
    match json.toFloat? with
    | some x => .ok x
    | none => .error "expected a number"

def need (json : Json) (name : String) : Reading Json :=
  match json.field? name with
  | some value => .ok value
  | none => .error ("missing " ++ name)

def stringAt (json : Json) (name : String) : Reading String := json.need name >>= asString

/-- The boolean with a name, false if it is absent. -/
def boolAt (json : Json) (name : String) : Reading Bool :=
  match json.field? name with
  | none => .ok false
  | some value => value.asBool

/-- The count with a name, which may be absent. -/
def natAt (json : Json) (name : String) (absent : Nat) : Reading Nat :=
  match json.field? name with
  | none => .ok absent
  | some value => value.asNat

/-- The items with a name, none if they are absent. -/
def listAt (json : Json) (name : String) : Reading (List Json) :=
  match json.field? name with
  | none | some .null => .ok []
  | some value => value.asList

/-- The one of several things that has the name of a JSON value. -/
def asNamed (all : List α) (name : α → String) (json : Json) : Reading α := do
  let wanted ← json.asString
  match all.find? fun a => name a == wanted with
  | some a => .ok a
  | none => .error ("unknown name " ++ wanted)

def strings (items : List String) : Json := .array (items.map .string)

def nat (n : Nat) : Json := .integer n

/-- What may be absent. -/
def orNull (f : α → Json) : Option α → Json
  | some a => f a
  | none => .null

end Ecma.Json
