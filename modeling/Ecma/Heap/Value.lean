/-
The values of the language. Objects, environment records and symbols live in a
heap and are named by references into it.
-/
import Ecma.Number.Format
import Ecma.Number.Reading

namespace Ecma

structure ObjectRef where
  index : Nat
  deriving DecidableEq, Repr, Inhabited

structure RecordRef where
  index : Nat
  deriving DecidableEq, Repr, Inhabited

structure SymbolRef where
  index : Nat
  deriving DecidableEq, Repr, Inhabited

inductive Value where
  | undefined
  | null
  | boolean (value : Bool)
  | number (value : Float)
  | string (value : String)
  | symbol (ref : SymbolRef)
  | object (ref : ObjectRef)
  deriving Repr

namespace Value

instance : Inhabited Value := ⟨undefined⟩

/-- Null and undefined. -/
def isNullish : Value → Bool
  | undefined | null => true
  | _ => false

def isUndefined : Value → Bool
  | undefined => true
  | _ => false

def object? : Value → Option ObjectRef
  | object ref => some ref
  | _ => none

def isObject (value : Value) : Bool := value.object?.isSome

/-- Whether a condition holds: all but undefined, null, false, the zeros, NaN and
the empty string do. -/
def truth : Value → Bool
  | undefined | null => false
  | boolean value => value
  | number value => !(value == 0) && value == value
  | string value => !value.isEmpty
  | symbol _ | object _ => true

/-- Strict equality: NaN differs from itself, and the zeros are equal. -/
def strictEquals : Value → Value → Bool
  | undefined, undefined | null, null => true
  | boolean a, boolean b => a == b
  | number a, number b => a == b
  | string a, string b => a == b
  | symbol a, symbol b => a == b
  | object a, object b => a == b
  | _, _ => false

/-- The number of a boolean. -/
def ofBit (bit : Bool) : Float := if bit then 1 else 0

theorem object?_eq_some {value : Value} {ref : ObjectRef} :
    value.object? = some ref ↔ value = object ref := by
  cases value <;> simp [object?]

end Value

/-! ## Property keys -/

inductive PropertyKey where
  | string (name : String)
  | symbol (ref : SymbolRef)
  deriving DecidableEq, Repr, Inhabited

namespace PropertyKey

def arrayIndex? : PropertyKey → Option Nat
  | string name => Number.arrayIndex? name
  | symbol _ => none

def toValue : PropertyKey → Value
  | string name => .string name
  | symbol ref => .symbol ref

end PropertyKey

end Ecma
