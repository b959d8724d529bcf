/-
Conversions between values and the comparisons that use them. Objects are
converted by their own methods, which are called through the machine.
-/
import Ecma.Machine.Access

namespace Ecma

/-- Which primitive an object is asked for first. -/
inductive Hint where
  /-- Also where nothing is preferred. -/
  | number
  | string
  deriving DecidableEq, Repr

/-- The methods by which an object is converted, in order. -/
def Hint.methods : Hint → List String
  | number => ["valueOf", "toString"]
  | string => ["toString", "valueOf"]

namespace Value

def primitiveNumber : Value → Except Cause Float
  | undefined => .ok Number.nan
  | null => .ok 0
  | boolean value => .ok (ofBit value)
  | number value => .ok value
  | string value => .ok (Number.ofString value)
  | symbol _ => .error .symbolToNumber
  | object _ => .error .noPrimitive

def primitiveText : Value → Except Cause String
  | undefined => .ok "undefined"
  | null => .ok "null"
  | boolean value => .ok (if value then "true" else "false")
  | number value => .ok (Number.text value)
  | string value => .ok value
  | symbol _ => .error .symbolToText
  | object _ => .error .noPrimitive

def withoutBooleans : Value → Value
  | boolean value => number (ofBit value)
  | value => value

def looseEqualsPlain : Value → Value → Bool
  | number a, string b => a == Number.ofString b
  | string a, number b => Number.ofString a == b
  | undefined, null | null, undefined => true
  | a, b => a.strictEquals b

def looseEqualsPrimitive (a b : Value) : Bool :=
  looseEqualsPlain a.withoutBooleans b.withoutBooleans

/-- The order of primitive values; `none` if one of them is not a number. -/
def primitiveLess (a b : Value) : Except Cause (Option Bool) :=
  match a, b with
  | string a, string b => .ok (some (Text.lt a b))
  | a, b => do
    let x ← a.primitiveNumber
    let y ← b.primitiveNumber
    return if x.isNaN || y.isNaN then none else some (x < y)

end Value

namespace Action

variable (call : Caller)

/-! ## Conversions -/

/-- The first primitive value that one of the methods of an object gives. -/
def firstPrimitive (value : Value) : List String → Action Value
  | [] => fail .noPrimitive
  | name :: rest => do
    let method ← getNamed value name
    if ← isCallable method then
      let result ← call method value []
      if result.isObject then firstPrimitive value rest else return result
    else firstPrimitive value rest

def toPrimitive (value : Value) (hint : Hint) : Action Value :=
  if value.isObject then firstPrimitive call value hint.methods else pure value

def toNumber (value : Value) : Action Float := do
  ofExcept (← toPrimitive call value .number).primitiveNumber

def toText (value : Value) : Action String := do
  ofExcept (← toPrimitive call value .string).primitiveText

def toPropertyKey (value : Value) : Action PropertyKey := do
  match ← toPrimitive call value .string with
  | .symbol ref => return .symbol ref
  | primitive => return .string (← ofExcept primitive.primitiveText)

/-- The text of a value; if there is none, its description. -/
def display (value : Value) : Action String := do
  match ← attempt (toText call value) with
  | .ok text => return text
  | .error _ => look fun heap => heap.describe value

/-! ## Comparisons -/

/-- Loose equality. An object meets a primitive value as a primitive value. -/
def looseEquals (a b : Value) : Action Bool := do
  match a, b with
  | .object x, .object y => return x == y
  | .object _, b =>
    if b.isNullish then return false
    return (← toPrimitive call a .number).looseEqualsPrimitive b
  | a, .object _ =>
    if a.isNullish then return false
    return a.looseEqualsPrimitive (← toPrimitive call b .number)
  | a, b => return a.looseEqualsPrimitive b

/-- The order of two values, the left or the right converted first; `none` if one
of them is not a number. -/
def less (a b : Value) (leftFirst : Bool) : Action (Option Bool) := do
  if leftFirst then
    let a ← toPrimitive call a .number
    let b ← toPrimitive call b .number
    ofExcept (a.primitiveLess b)
  else
    let b ← toPrimitive call b .number
    let a ← toPrimitive call a .number
    ofExcept (a.primitiveLess b)

def hasProperty (object key : Value) : Action Bool := do
  match object with
  | .object ref =>
    let key ← toPropertyKey call key
    look fun heap => heap.has ref key
  | _ => fail (← look fun heap => .searchInPrimitive (heap.describe key) (heap.describe object))

/-! ## Operators -/

/-- The sum of numbers, or the strings joined if one operand is a string. -/
def add (a b : Value) : Action Value := do
  let a ← toPrimitive call a .number
  let b ← toPrimitive call b .number
  match a, b with
  | .string _, _ | _, .string _ =>
    return .string ((← ofExcept a.primitiveText) ++ (← ofExcept b.primitiveText))
  | _, _ => return .number ((← ofExcept a.primitiveNumber) + (← ofExcept b.primitiveNumber))

def concat (a b : Value) : Action Value := do
  return .string ((← toText call a) ++ (← toText call b))

def arithmetic (operator : Number.Arithmetic) (a b : Value) : Action Value := do
  return .number (operator.apply (← toNumber call a) (← toNumber call b))

def relation (relation : Syntax.Relation) (a b : Value) : Action Bool := do
  match relation with
  | .equal => looseEquals call a b
  | .notEqual => return !(← looseEquals call a b)
  | .strictEqual => return a.strictEquals b
  | .strictNotEqual => return !a.strictEquals b
  | .less => return (← less call a b true) == some true
  | .greater => return (← less call b a false) == some true
  | .lessEqual => return (← less call b a false) == some false
  | .greaterEqual => return (← less call a b true) == some false
  | .within => hasProperty call b a
  | .instanceOf => instanceOf a b

end Action

end Ecma
