/-
The functions that the machine provides.
-/
import Ecma.Machine.Coroutine

namespace Ecma

/-- What `toString` of plain objects calls a value. -/
def Heap.tag (heap : Heap) : Value → String
  | .undefined => "Undefined"
  | .null => "Null"
  | .boolean _ => "Boolean"
  | .number _ => "Number"
  | .string _ => "String"
  | .symbol _ => "Symbol"
  | .object ref =>
    match (heap.object ref).payload with
    | .array _ => "Array"
    | .function _ | .builtin _ | .errorConstructor _ => "Function"
    | .error .. => "Error"
    | .generator _ => "Generator"
    | .promise _ => "Promise"
    | _ => "Object"

def Value.exceeds (length : Option Value) (index : Nat) : Bool :=
  match length with
  | some (.number n) =>
    match Number.truncate? n with
    | some length => (index : Int) < length
    | none => n > 0
  | _ => false

def Heap.elementAt? (heap : Heap) (array : ObjectRef) (index : Nat) : Option Value :=
  if Value.exceeds (heap.getOwn? array (.string "length")) index then
    some ((heap.get? array (.string (toString index))).getD .undefined)
  else none

/-- The text of an error: its name and its message, unless one is empty. -/
def errorText (name message : String) : String :=
  if message.isEmpty then name
  else if name.isEmpty then message
  else name ++ ": " ++ message

namespace Action

variable (call : Caller)

def receiverArray (receiver : Value) : Action ObjectRef := do
  match receiver with
  | .object ref => if (← payload ref).isArray then return ref else fail .notArray
  | _ => fail .notArray

/-- Adds elements at the end of an array; its new length. -/
def arrayPush (receiver : Value) (values : List Value) : Action Value := do
  let ref ← receiverArray receiver
  change fun heap => heap.modifyObject ref fun object => object.mapElements (· ++ values)
  look fun heap => .number (Float.ofNat (heap.object ref).elements.size)

/-- The text of an element; nullish ones have none. -/
def elementText (element : Value) : Action String :=
  if element.isNullish then pure "" else toText call element

/-- The texts of the elements of an array, with a separator between them. -/
def arrayJoin (receiver separator : Value) : Action Value := do
  let ref ← receiverArray receiver
  let separator ← if separator.isUndefined then pure "," else toText call separator
  let elements ← look fun heap => (heap.object ref).elements
  let texts ← elements.toList.mapM (elementText call)
  return .string (separator.intercalate texts)

def arrayValues (receiver : Value) : Action Value := do
  let array ← toObject receiver
  return .object (← allocWith (← realm).arrayIteratorPrototype (.arrayIterator array 0))

/-- The next result of an iterator over elements or over a list. -/
def arrayIteratorNext (receiver : Value) : Action Value := do
  match receiver with
  | .object ref =>
    match ← payload ref with
    | .arrayIterator array index =>
      change fun heap => heap.setPayload ref (.arrayIterator array (index + 1))
      let element ← look fun heap => heap.elementAt? array index
      iterResult (element.getD .undefined) element.isNone
    | .listIterator values index =>
      change fun heap => heap.setPayload ref (.listIterator values (index + 1))
      iterResult (values[index]?.getD .undefined) values[index]?.isNone
    | _ => fail .notIterator
  | _ => fail .notIterator

/-- The text of a property, or another text if there is none. -/
def propertyText (ref : ObjectRef) (name absent : String) : Action String := do
  match (← look fun heap => heap.get? ref (.string name)).getD .undefined with
  | .undefined => return absent
  | value => toText call value

def errorToString (receiver : Value) : Action Value := do
  match receiver with
  | .object ref =>
    let name ← propertyText call ref "name" "Error"
    let message ← propertyText call ref "message" ""
    return .string (errorText name message)
  | _ => fail .notErrorObject

def print (values : List Value) : Action Value := do
  let texts ← values.mapM (toText call)
  printLine (" ".intercalate texts)
  return .undefined

def callBuiltin (run : Runner) (builtin : Builtin) (receiver : Value) (arguments : List Value) :
    Action Value :=
  let argument (index : Nat) : Value := arguments[index]?.getD .undefined
  match builtin with
  | .objectToString => look fun heap => .string s!"[object {heap.tag receiver}]"
  | .objectValueOf => return .object (← toObject receiver)
  | .iteratorSelf => return receiver
  | .arrayIteratorNext => arrayIteratorNext receiver
  | .arrayPush => arrayPush receiver arguments
  | .arrayJoin => arrayJoin call receiver (argument 0)
  | .arrayToString => arrayJoin call receiver .undefined
  | .arrayValues => arrayValues receiver
  | .generatorNext => resumeGenerator run receiver (.next (argument 0))
  | .generatorThrow => resumeGenerator run receiver (.throw (argument 0))
  | .generatorReturn => resumeGenerator run receiver (.finish (argument 0))
  | .promiseThen => return .object (← promiseThen receiver (argument 0) (argument 1))
  | .promiseResolve => return .object (← promiseOf (argument 0))
  | .promiseReject => return .object (← rejectedPromise (argument 0))
  | .errorToString => errorToString call receiver
  | .print => print call arguments

end Action

end Ecma
