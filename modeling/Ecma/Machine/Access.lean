/-
Properties of arbitrary values, and the operators that only look at the heap.
-/
import Ecma.Machine.Error
import Ecma.Text.Units

namespace Ecma

/-! ## Reading -/

/-- The property of a string: its length, one of its units, or a method. -/
def Heap.stringProperty (heap : Heap) (prototype : ObjectRef) (text : String)
    (key : PropertyKey) : Value :=
  match Object.placeOf key with
  | .length => .number (Float.ofNat (Text.units text).length)
  | .element index =>
    match (Text.units text)[index]? with
    | some unit => .string (Text.ofUnit unit)
    | none => .undefined
  | .property => (heap.get? prototype key).getD .undefined

/-- The property of a value; absent ones read as undefined. -/
def Heap.property (heap : Heap) (prototype : ObjectRef) (base : Value) (key : PropertyKey) :
    Except Cause Value :=
  match base with
  | .object ref => .ok ((heap.get? ref key).getD .undefined)
  | .undefined | .null => .error (.readOfNullish (heap.describe base) (heap.keyText key))
  | .string text => .ok (heap.stringProperty prototype text key)
  | .boolean _ | .number _ | .symbol _ => .ok ((heap.get? prototype key).getD .undefined)

namespace Action

def getProperty (base : Value) (key : PropertyKey) : Action Value := do
  let prototype := (← realm).objectPrototype
  query fun heap => heap.property prototype base key

def getNamed (base : Value) (name : String) : Action Value := getProperty base (.string name)

def isCallable (value : Value) : Action Bool := look fun heap => heap.isCallableValue value

/-- A method of a value, undefined if there is none. -/
def getMethod (base : Value) (key : PropertyKey) : Action Value := do
  let method ← getProperty base key
  if method.isNullish then return .undefined
  if ← isCallable method then return method
  fail (.notFunction (← look fun heap => heap.keyText key))

/-! ## Writing -/

def failIfStrict (strict : Bool) (cause : Heap → Cause) : Action Unit := do
  if strict then fail (← look cause)

def putProperty (base : Value) (key : PropertyKey) (value : Value) (strict : Bool) :
    Action Unit := do
  match base with
  | .object ref =>
    unless ← apply fun heap => heap.set ref key value do
      failIfStrict strict fun heap => .readOnlyProperty (heap.keyText key)
  | .undefined | .null =>
    fail (← look fun heap => .writeToNullish (heap.describe base) (heap.keyText key))
  | .boolean _ | .number _ | .string _ | .symbol _ =>
    failIfStrict strict fun heap =>
      .propertyOfPrimitive (heap.keyText key) (heap.typeName base) (heap.describe base)

def defineProperty (ref : ObjectRef) (key : PropertyKey) (value : Value) : Action Unit := do
  unless ← apply fun heap => heap.define ref key (.data value) do
    fail (← look fun heap => .redefinition (heap.keyText key))

/-- The object of a value. Strings become arrays of their units, other primitives
become empty objects. -/
def toObject (value : Value) : Action ObjectRef := do
  match value with
  | .object ref => return ref
  | .undefined | .null => fail .nullishToObject
  | .string text =>
    let units := (Text.units text).map fun unit => Value.string (Text.ofUnit unit)
    allocWith (← realm).objectPrototype (.array units.toArray)
  | .boolean _ | .number _ | .symbol _ => allocWith (← realm).objectPrototype .ordinary

def deleteProperty (base : Value) (key : PropertyKey) (strict : Bool) : Action Bool := do
  let ref ← toObject base
  let deleted ← apply fun heap => heap.delete ref key
  unless deleted do
    failIfStrict strict fun heap => .undeletable (heap.keyText key)
  return deleted

/-! ## Tests -/

/-- Whether a value has the prototype of a function among its prototypes. -/
def instanceOf (value target : Value) : Action Bool := do
  unless ← isCallable target do fail .instanceOfNonCallable
  match value with
  | .object ref =>
    match ← getNamed target "prototype" with
    | .object prototype => look fun heap => (heap.chain ref).tail.contains prototype
    | _ => fail .instanceOfNoPrototype
  | _ => return false

def typeName (value : Value) : Action String := look fun heap => heap.typeName value

end Action

end Ecma
