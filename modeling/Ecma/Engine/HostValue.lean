/-
Values that a host hands to a machine, written as JSON. JSON values stand for
themselves; an object with a `$` member says what else is meant.
-/
import Ecma.Engine.Basic
import Ecma.Json.Access

namespace Ecma

/-- A change of the machine that depends on JSON being understood. -/
abbrev HostAction (α : Type) : Type := ExceptT String Action α

namespace HostAction

def reading (read : Json.Reading α) : HostAction α := ExceptT.mk (pure read)

def newArray (elements : List Value) : Action Value := do
  return .object (← Action.allocWith (← Action.realm).arrayPrototype (.array elements.toArray))

/-- The value of a global name, which must have one. -/
def global (name : String) : Action Value := do
  let record := (← Action.realm).globalRecord
  Action.query fun heap => heap.getBinding record name true

def namedValue (names : List (String × Value)) (name : String) : HostAction Value :=
  match names.lookup name with
  | some value => pure value
  | none => throw ("unknown value " ++ name)

def valueTo (names : List (String × Value)) : (fuel : Nat) → Json → HostAction Value
  | _, .null => return .null
  | _, .bool value => return .boolean value
  | _, .string value => return .string value
  | fuel + 1, .array items => do newArray (← items.mapM (valueTo names fuel))
  | fuel + 1, .object members => do
    let json := Json.object members
    match ← reading (json.stringAt "$") with
    | "undefined" => return .undefined
    | "number" => return .number (← reading (json.need "v" >>= Json.asDouble))
    | "iterator" => return .symbol (← Action.realm).iteratorSymbol
    | "this" => return .object (← Action.realm).globalObject
    | "global" => global (← reading (json.stringAt "name"))
    | "var" => namedValue names (← reading (json.stringAt "name"))
    | "object" =>
      let ref ← Action.allocWith (← Action.realm).objectPrototype .ordinary
      (← reading (json.listAt "props")).forM fun property => do
        match property with
        | .array [.string key, value] =>
          let value ← valueTo names fuel value
          Action.change fun heap => (heap.set ref (.string key) value).2
        | _ => throw "expected a property"
      return .object ref
    | other => throw ("unknown value " ++ other)
  | _, json => return .number (← reading json.asDouble)

def value (names : List (String × Value)) (json : Json) : HostAction Value :=
  valueTo names json.depth json

end HostAction

end Ecma
