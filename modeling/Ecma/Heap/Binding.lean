/-
Bindings: names and slots looked up in environment records, and the rules by
which scripts declare global names.
-/
import Ecma.Heap.Basic

namespace Ecma.Heap

/-- A change of the heap that may fail. -/
abbrev Update (α : Type) : Type := EStateM Cause Heap α

namespace Update

def change (f : Heap → Heap) : Update Unit := modify f

/-- A change that says whether it could be done. -/
def attempt (f : Heap → Bool × Heap) : Update Bool := modifyGet f

def query (f : Heap → Except Cause α) : Update α := fun heap =>
  match f heap with
  | .ok value => .ok value heap
  | .error cause => .error cause heap

end Update

/-! ## Chains and slots -/

/-- A record and those around it, innermost first, at most `fuel` of them. -/
def recordChainFrom (heap : Heap) : (fuel : Nat) → RecordRef → List RecordRef
  | 0, _ => []
  | fuel + 1, ref =>
    ref ::
      match (heap.record ref).parent? with
      | none => []
      | some parent => recordChainFrom heap fuel parent

/-- A record and those around it, innermost first; a parent has a smaller index, so
that the index of the record bounds their number. -/
def recordChain (heap : Heap) (ref : RecordRef) : List RecordRef :=
  heap.recordChainFrom (ref.index + 1) ref

/-- The record some records out, or the outermost. -/
def recordAt (heap : Heap) (ref : RecordRef) : (hops : Nat) → RecordRef
  | 0 => ref
  | hops + 1 =>
    match (heap.record ref).parent? with
    | none => ref
    | some parent => recordAt heap parent hops

def cellAt (heap : Heap) (ref : RecordRef) (hops slot : Nat) : Except Cause Cell :=
  match heap.record (heap.recordAt ref hops) with
  | .declarative _ cells =>
    match cells[slot]? with
    | some cell => .ok cell
    | none => .error (.invalidSlot hops slot)
  | .object .. | .global .. => .error (.invalidSlot hops slot)

def getSlot (heap : Heap) (ref : RecordRef) (hops slot : Nat) : Except Cause Value :=
  heap.cellAt ref hops slot >>= Cell.read

/-- The value in a slot, undefined before it is initialised. -/
def getSlotUnchecked (heap : Heap) (ref : RecordRef) (hops slot : Nat) : Except Cause Value :=
  return (← heap.cellAt ref hops slot).value.getD .undefined

def setCellAt (heap : Heap) (ref : RecordRef) (hops slot : Nat) (cell : Cell) : Heap :=
  heap.modifyRecord (heap.recordAt ref hops) fun record => record.setSlot slot cell

def setSlot (ref : RecordRef) (hops slot : Nat) (value : Value) (strict : Bool) : Update Unit := do
  let cell ← Update.query fun heap => heap.cellAt ref hops slot >>= (Cell.write · value strict)
  Update.change fun heap => heap.setCellAt ref hops slot cell

def initializeSlot (ref : RecordRef) (hops slot : Nat) (value : Value) : Update Unit := do
  let cell ← Update.query fun heap => heap.cellAt ref hops slot
  Update.change fun heap => heap.setCellAt ref hops slot (cell.withValue value)

/-- A new record with the bindings of another. -/
def copyRecord (heap : Heap) (ref : RecordRef) : RecordRef × Heap :=
  heap.allocRecord (heap.record ref)

/-! ## Names -/

def hasBinding (heap : Heap) (ref : RecordRef) (name : String) : Bool :=
  let record := heap.record ref
  (record.cell? name).isSome || record.object?.any fun object => heap.has object (.string name)

def resolve? (heap : Heap) (ref : RecordRef) (name : String) : Option RecordRef :=
  (heap.recordChain ref).find? fun record => heap.hasBinding record name

/-- Adds an uninitialised variable; a variable of an object is a property. -/
def createMutable (heap : Heap) (ref : RecordRef) (name : String) (deletable : Bool) : Heap :=
  match heap.record ref with
  | .object _ object => (heap.set object (.string name) .undefined).2
  | .declarative .. | .global .. =>
    heap.modifyRecord ref fun record => record.addCell (.forVariable name deletable)

/-- Adds an uninitialised constant; objects have none. -/
def createImmutable (heap : Heap) (ref : RecordRef) (name : String) (strict : Bool) : Heap :=
  heap.modifyRecord ref fun record => record.addCell (.forConstant name strict)

def initializeBinding (ref : RecordRef) (name : String) (value : Value) : Update Unit := do
  let record := (← get).record ref
  match record.cell? name, record.object? with
  | some cell, _ =>
    Update.change fun heap =>
      heap.modifyRecord ref fun record => record.setCell name (cell.withValue value)
  | none, some object => Update.change fun heap => (heap.set object (.string name) value).2
  | none, none => throw (.notDefined name)

/-- The value of a binding; a property that is missing reads as undefined in sloppy
code. -/
def getBinding (heap : Heap) (ref : RecordRef) (name : String) (strict : Bool) :
    Except Cause Value :=
  let record := heap.record ref
  match record.cell? name, record.object? with
  | some cell, _ => cell.read
  | none, some object =>
    match heap.get? object (.string name) with
    | some value => .ok value
    | none => if strict then .error (.notDefined name) else .ok .undefined
  | none, none => .error (.notDefined name)

def putProperty (object : ObjectRef) (name : String) (value : Value) (strict : Bool) :
    Update Unit := do
  if !(← Update.attempt fun heap => heap.set object (.string name) value) && strict then
    throw (.readOnlyName name)

/-- Assigns to a binding. Strict code creates no global. -/
def setBinding (ref : RecordRef) (name : String) (value : Value) (strict : Bool) :
    Update Unit := do
  let record := (← get).record ref
  match record.cell? name, record.object? with
  | some cell, _ =>
    let cell ← Update.query fun _ => cell.write value strict
    Update.change fun heap => heap.modifyRecord ref fun record => record.setCell name cell
  | none, some object =>
    if strict && record.isGlobal && !(← get).has object (.string name) then
      throw (.notDefined name)
    putProperty object name value strict
  | none, none => throw (.notDefined name)

def deleteBinding (heap : Heap) (ref : RecordRef) (name : String) : Bool × Heap :=
  let record := heap.record ref
  match record.cell? name, record.object? with
  | some cell, none =>
    if cell.deletable then
      (true, heap.modifyRecord ref fun record => record.setCell name cell.deleted)
    else (false, heap)
  | some _, some _ => (false, heap)
  | none, some object =>
    match heap.delete object (.string name) with
    | (true, heap) => (true, heap.modifyRecord ref fun record => record.eraseVarName name)
    | (false, heap) => (false, heap)
  | none, none => (true, heap)

/-! ## Global names -/

/-- A global record: its object, lexical bindings and declared variables. -/
def globalRecord (heap : Heap) (ref : RecordRef) :
    Except Cause (ObjectRef × List Cell × List String) :=
  match heap.record ref with
  | .global object lexical varNames => .ok (object, lexical, varNames)
  | .declarative .. | .object .. => .error .notGlobalRecord

def hasVar (heap : Heap) (ref : RecordRef) (name : String) : Except Cause Bool :=
  return (← heap.globalRecord ref).2.2.contains name

def hasLexical (heap : Heap) (ref : RecordRef) (name : String) : Except Cause Bool :=
  return (← heap.globalRecord ref).2.1.any fun cell => cell.name == name

/-- Whether a name stands for a permanent property. -/
def hasRestricted (heap : Heap) (ref : RecordRef) (name : String) : Except Cause Bool :=
  return (heap.ownProperty? (← heap.globalRecord ref).1 (.string name)).any fun property =>
    !property.configurable

def canDeclareVar (heap : Heap) (ref : RecordRef) (name : String) : Except Cause Bool :=
  return heap.hasOwn (← heap.globalRecord ref).1 (.string name) ||
    (heap.object (← heap.globalRecord ref).1).extensible

def canDeclareFunction (heap : Heap) (ref : RecordRef) (name : String) : Except Cause Bool := do
  let (object, _) ← heap.globalRecord ref
  return match heap.ownProperty? object (.string name) with
    | none => (heap.object object).extensible
    | some property => property.configurable || (property.writable && property.enumerable)

/-- Declares a variable; a property that exists is kept. -/
def createGlobalVar (ref : RecordRef) (name : String) (deletable : Bool) : Update Unit := do
  let (object, _) ← Update.query fun heap => heap.globalRecord ref
  Update.change fun heap =>
    if !heap.hasOwn object (.string name) && (heap.object object).extensible then
      (heap.define object (.string name) { value := .undefined, configurable := deletable }).2
    else heap
  Update.change fun heap => heap.modifyRecord ref fun record => record.addVarName name

/-- The property of a declared function: a permanent one keeps its flags. -/
def functionProperty (old : Option Property) (value : Value) (deletable : Bool) : Property :=
  match old with
  | some property =>
    if property.configurable then { value, configurable := deletable } else { property with value }
  | none => { value, configurable := deletable }

/-- Declares a function. A permanent property cannot be defined again, and is
assigned. -/
def createGlobalFunction (ref : RecordRef) (name : String) (value : Value) (deletable : Bool) :
    Update Unit := do
  let (object, _) ← Update.query fun heap => heap.globalRecord ref
  Update.change fun heap =>
    let property := functionProperty (heap.ownProperty? object (.string name)) value deletable
    let (_, heap) := heap.define object (.string name) property
    if property.configurable then heap else (heap.set object (.string name) value).2
  Update.change fun heap => heap.modifyRecord ref fun record => record.addVarName name

end Ecma.Heap
