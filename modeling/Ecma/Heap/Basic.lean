/-
The heap: objects, environment records and symbols, each kind in an arena that
only grows. A prototype or parent is older than what refers to it, so that every
chain ends.
-/
import Ecma.Heap.Object
import Ecma.Heap.Record

namespace Ecma

/-- Objects, environment records and the descriptions of symbols. -/
structure Heap where
  objects : Array Object := #[]
  records : Array Record := #[]
  symbols : Array String := #[]

namespace Heap

instance : Inhabited Heap := ⟨{}⟩

/-! ## Arenas -/

def alloc (heap : Heap) (object : Object) : ObjectRef × Heap :=
  (⟨heap.objects.size⟩, { heap with objects := heap.objects.push object })

def object (heap : Heap) (ref : ObjectRef) : Object := heap.objects.getD ref.index default

def modifyObject (heap : Heap) (ref : ObjectRef) (f : Object → Object) : Heap :=
  { heap with objects := heap.objects.modify ref.index f }

def setPayload (heap : Heap) (ref : ObjectRef) (payload : Payload) : Heap :=
  heap.modifyObject ref fun object => { object with payload }

def allocRecord (heap : Heap) (record : Record) : RecordRef × Heap :=
  (⟨heap.records.size⟩, { heap with records := heap.records.push record })

def record (heap : Heap) (ref : RecordRef) : Record := heap.records.getD ref.index default

def modifyRecord (heap : Heap) (ref : RecordRef) (f : Record → Record) : Heap :=
  { heap with records := heap.records.modify ref.index f }

def addSymbol (heap : Heap) (description : String) : SymbolRef × Heap :=
  (⟨heap.symbols.size⟩, { heap with symbols := heap.symbols.push description })

def description (heap : Heap) (ref : SymbolRef) : String := heap.symbols.getD ref.index ""

/-! ## Properties -/

/-- An object and its prototypes, nearest first, at most `fuel` of them. -/
def chainFrom (heap : Heap) : (fuel : Nat) → ObjectRef → List ObjectRef
  | 0, _ => []
  | fuel + 1, ref =>
    ref ::
      match (heap.object ref).prototype with
      | none => []
      | some prototype => chainFrom heap fuel prototype

/-- An object and its prototypes, nearest first; those with a prototype are in the heap, whose
size bounds their number. -/
def chain (heap : Heap) (ref : ObjectRef) : List ObjectRef :=
  heap.chainFrom (heap.objects.size + 1) ref

def getOwn? (heap : Heap) (ref : ObjectRef) (key : PropertyKey) : Option Value :=
  (heap.object ref).get? key

def hasOwn (heap : Heap) (ref : ObjectRef) (key : PropertyKey) : Bool :=
  (heap.getOwn? ref key).isSome

/-- An own property with its flags; elements and lengths are none. -/
def ownProperty? (heap : Heap) (ref : ObjectRef) (key : PropertyKey) : Option Property :=
  (heap.object ref).properties.find? key

/-- The value of a property, its own or the nearest prototype's. -/
def get? (heap : Heap) (ref : ObjectRef) (key : PropertyKey) : Option Value :=
  (heap.chain ref).findSome? fun object => heap.getOwn? object key

def has (heap : Heap) (ref : ObjectRef) (key : PropertyKey) : Bool :=
  (heap.get? ref key).isSome

/-- Assigns to an own property, and says whether it could be done. -/
def set (heap : Heap) (ref : ObjectRef) (key : PropertyKey) (value : Value) : Bool × Heap :=
  if (heap.object ref).canSet key value then
    (true, heap.modifyObject ref fun object => object.set key value)
  else (false, heap)

/-- Defines an own property, and says whether it could be done. -/
def define (heap : Heap) (ref : ObjectRef) (key : PropertyKey) (property : Property) :
    Bool × Heap :=
  if (heap.object ref).canDefine key then
    (true, heap.modifyObject ref fun object => object.define key property)
  else (false, heap)

def defineHidden (heap : Heap) (ref : ObjectRef) (key : PropertyKey) (value : Value) : Heap :=
  (heap.define ref key (.hidden value)).2

/-- Deletes an own property, and says whether it could be done. -/
def delete (heap : Heap) (ref : ObjectRef) (key : PropertyKey) : Bool × Heap :=
  if (heap.object ref).canDelete key then
    (true, heap.modifyObject ref fun object => object.delete key)
  else (false, heap)

/-- Each name where it stands first, unless it was seen before. -/
def firstNames (seen : List String) : List (String × Bool) → List (String × Bool)
  | [] => []
  | (name, enumerable) :: rest =>
    if seen.contains name then firstNames seen rest
    else (name, enumerable) :: firstNames (name :: seen) rest

/-- The names that enumeration visits: those of the object, then those of its
prototypes. The nearest property of a name decides whether it is visited. -/
def enumerableNames (heap : Heap) (ref : ObjectRef) : List String :=
  let names := (heap.chain ref).flatMap fun object => (heap.object object).names
  ((firstNames [] names).filter Prod.snd).map Prod.fst

def isCallable (heap : Heap) (ref : ObjectRef) : Bool := (heap.object ref).payload.isCallable

def isCallableValue (heap : Heap) (value : Value) : Bool := value.object?.any heap.isCallable

end Heap

end Ecma
