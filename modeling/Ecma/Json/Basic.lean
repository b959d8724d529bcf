/-
JSON values. An object keeps its members in the order of the text, repeated
names included, so that a reader of records can refuse repetitions.
-/
namespace Ecma

/-- A JSON value. Numbers written as integers of at most 64 bits stay exact. -/
inductive Json where
  | null
  | bool (value : Bool)
  | integer (value : Int)
  | real (value : Float)
  | string (value : String)
  | array (items : List Json)
  | object (members : List (String × Json))
  deriving Inhabited

namespace Json

/-- A finite double as a JSON number; what is not finite has no JSON text. -/
def ofFloat (x : Float) : Json :=
  if x.isFinite then .real x else .null

/-- The number of a JSON number, as a double. -/
def toFloat? : Json → Option Float
  | .integer i => some (Float.ofInt i)
  | .real x => some x
  | _ => none

def valuesOf (name : String) (members : List (String × Json)) : List Json :=
  (members.filter fun member => member.1 == name).map Prod.snd

def field? (name : String) : Json → Option Json
  | .object members => (valuesOf name members).head?
  | _ => none

mutual

/-- The number of nested values on the longest way down. -/
def depth : Json → Nat
  | .array items => depthItems items + 1
  | .object members => depthMembers members + 1
  | _ => 1

def depthItems : List Json → Nat
  | [] => 0
  | item :: items => max (depth item) (depthItems items)

def depthMembers : List (String × Json) → Nat
  | [] => 0
  | (_, value) :: members => max (depth value) (depthMembers members)

end

end Json

end Ecma
