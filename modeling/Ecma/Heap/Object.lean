/-
Objects: an ordered map of properties and a payload that says what the object
stands for. Arrays keep their elements apart from their properties.
-/
import Ecma.ErrorKind
import Ecma.Heap.Frame
import Ecma.Heap.Property

namespace Ecma

/-- A function that the machine provides. -/
inductive Builtin where
  | objectToString
  | objectValueOf
  | iteratorSelf
  | arrayIteratorNext
  | arrayPush
  | arrayJoin
  | arrayToString
  | arrayValues
  | generatorNext
  | generatorThrow
  | generatorReturn
  | promiseThen
  | promiseResolve
  | promiseReject
  | errorToString
  | print
  deriving DecidableEq, Repr, Inhabited

def Builtin.name : Builtin → String
  | objectToString | arrayToString | errorToString => "toString"
  | objectValueOf => "valueOf"
  | iteratorSelf => "[Symbol.iterator]"
  | arrayIteratorNext | generatorNext => "next"
  | arrayPush => "push"
  | arrayJoin => "join"
  | arrayValues => "values"
  | generatorThrow => "throw"
  | generatorReturn => "return"
  | promiseThen => "then"
  | promiseResolve => "resolve"
  | promiseReject => "reject"
  | print => "print"

/-- A compiled function with what it captured. -/
structure Closure where
  code : Code.Template
  record : RecordRef
  receiver : Option Value := none

inductive GeneratorState where
  /-- Its body was not entered yet. -/
  | start (frame : Frame)
  /-- It waits after a `yield`. -/
  | yielded (frame : Frame)
  | running
  | completed

/-- What follows when a promise settles. -/
inductive Reaction where
  | resume (activation : ObjectRef)
  /-- A callback runs and its outcome settles a promise. -/
  | callback (onFulfilled onRejected : Value) (derived : ObjectRef)
  /-- Another promise settles the same way. -/
  | forward (target : ObjectRef)
  deriving Repr, Inhabited

inductive Settlement where
  | fulfilled (value : Value)
  | rejected (reason : Value)
  deriving Repr, Inhabited

inductive PromiseState where
  | pending (reactions : List Reaction)
  | settled (settlement : Settlement)
  deriving Repr, Inhabited

/-- What an object stands for. -/
inductive Payload where
  | ordinary
  | array (elements : Array Value)
  | function (closure : Closure)
  | builtin (builtin : Builtin)
  | errorConstructor (kind : ErrorKind)
  /-- An error, with the values that it superseded. -/
  | error (kind : ErrorKind) (suppressed : List Value)
  | generator (state : GeneratorState)
  | promise (state : PromiseState)
  /-- An activation of an asynchronous function; it has no frame while it runs. -/
  | activation (frame : Option Frame) (promise : ObjectRef)
  | arrayIterator (array : ObjectRef) (index : Nat)
  | listIterator (values : List Value) (index : Nat)

namespace Payload

instance : Inhabited Payload := ⟨ordinary⟩

def isCallable : Payload → Bool
  | function _ | builtin _ | errorConstructor _ => true
  | _ => false

def isArray : Payload → Bool
  | array _ => true
  | _ => false

def elements? : Payload → Option (Array Value)
  | array elements => some elements
  | _ => none

def promise? : Payload → Option PromiseState
  | promise state => some state
  | _ => none

end Payload

structure Object where
  prototype : Option ObjectRef := none
  properties : PropertyMap := {}
  payload : Payload := .ordinary
  /-- Whether properties may be added by assignment. -/
  extensible : Bool := true

namespace Object

instance : Inhabited Object := ⟨{}⟩

/-! ## Elements -/

/-- What a key means to an array. -/
inductive Place where
  | element (index : Nat)
  | length
  | property
  deriving DecidableEq, Repr

def placeOf (key : PropertyKey) : Place :=
  match key.arrayIndex? with
  | some index => .element index
  | none => if key = .string "length" then .length else .property

/-- What a key means to an object; only arrays have elements. -/
def place (object : Object) (key : PropertyKey) : Place :=
  if object.payload.isArray then placeOf key else .property

/-- The elements of an array, none for other objects. -/
def elements (object : Object) : Array Value :=
  match object.payload with
  | .array elements => elements
  | _ => #[]

def mapElements (f : Array Value → Array Value) : Object → Object
  | ⟨prototype, properties, .array elements, extensible⟩ =>
    ⟨prototype, properties, .array (f elements), extensible⟩
  | object => object

def resize (elements : Array Value) (length : Nat) : Array Value :=
  if length < elements.size then elements.take length
  else elements ++ Array.replicate (length - elements.size) .undefined

/-- Elements with one of them written; those before it are filled up. -/
def setElement (elements : Array Value) (index : Nat) (value : Value) : Array Value :=
  if index < elements.size then elements.setIfInBounds index value
  else (resize elements index).push value

def lengthOf? : Value → Option Nat
  | .number n => if n ≥ 0 && Number.isIntegral n then (Number.truncate? n).map Int.toNat else none
  | _ => none

/-! ## Own properties -/

/-- The value of an own property, element or length. -/
def get? (object : Object) (key : PropertyKey) : Option Value :=
  match object.place key with
  | .element index => object.elements[index]?
  | .length => some (.number (Float.ofNat object.elements.size))
  | .property => (object.properties.find? key).map Property.value

/-- Whether an assignment succeeds: the property is writable, or may be added. -/
def canSet (object : Object) (key : PropertyKey) (value : Value) : Bool :=
  match object.place key with
  | .element _ => true
  | .length => (lengthOf? value).isSome
  | .property =>
    match object.properties.find? key with
    | some property => property.writable
    | none => object.extensible

def set (object : Object) (key : PropertyKey) (value : Value) : Object :=
  match object.place key with
  | .element index => object.mapElements fun elements => setElement elements index value
  | .length =>
    match lengthOf? value with
    | some length => object.mapElements fun elements => resize elements length
    | none => object
  | .property =>
    { object with
      properties :=
        if (object.properties.find? key).isSome then
          object.properties.modify key fun property => { property with value }
        else object.properties.insert key (.data value) }

/-- Whether a definition succeeds: nothing permanent stands in the way. -/
def canDefine (object : Object) (key : PropertyKey) : Bool :=
  match object.place key with
  | .element _ => true
  | .length | .property => (object.properties.find? key).all Property.configurable

/-- An object after a definition; elements keep no flags. -/
def define (object : Object) (key : PropertyKey) (property : Property) : Object :=
  match object.place key with
  | .element _ => object.set key property.value
  | .length | .property =>
    { object with properties := object.properties.insert key property }

def canDelete (object : Object) (key : PropertyKey) : Bool :=
  match object.place key with
  | .element _ => true
  | .length => false
  | .property => (object.properties.find? key).all Property.configurable

/-- An object after a deletion; an element becomes undefined. -/
def delete (object : Object) (key : PropertyKey) : Object :=
  match object.place key with
  | .element index => object.mapElements fun elements => elements.setIfInBounds index .undefined
  | .length => object
  | .property => { object with properties := object.properties.erase key }

/-! ## Enumeration -/

/-- The string keys of an object, elements first, and whether each is enumerable. -/
def names (object : Object) : List (String × Bool) :=
  (List.range object.elements.size).map (fun index => (toString index, true)) ++
    object.properties.entries.filterMap fun (key, property) =>
      match key with
      | .string name => some (name, property.enumerable)
      | .symbol _ => none

end Object

end Ecma
