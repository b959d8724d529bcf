/-
The machine: a heap, the objects that every program finds there, a queue of
jobs and the lines printed so far. An action changes the machine and ends with a
value, with an exception, or because its fuel ran out.
-/
import Ecma.Heap.Binding

namespace Ecma

/-- What unwinds the activations of a machine. -/
inductive Exception where
  | thrown (thrown : Thrown)
  /-- An error that has no object yet. -/
  | failed (cause : Cause)
  /-- The limit of nested calls was met. -/
  | tooDeep
  deriving Repr

def Exception.ofValue (value : Value) : Exception := .thrown { value }

/-- Why an action has no value. -/
inductive Stop where
  | raised (exception : Exception)
  /-- The fuel of the action ran out. -/
  | exhausted
  deriving Repr

structure Limits where
  callDepth : Nat := 200
  /-- The number of operands a frame may hold before an instruction. -/
  stackSize : Nat := 65536
  deriving DecidableEq, Repr, Inhabited

/-- A reaction to a promise that settled. -/
structure Job where
  reaction : Reaction
  settlement : Settlement
  deriving Repr, Inhabited

/-- The objects that every program finds. -/
structure Realm where
  globalObject : ObjectRef
  globalRecord : RecordRef
  objectPrototype : ObjectRef
  functionPrototype : ObjectRef
  arrayPrototype : ObjectRef
  /-- Shared by iterators over elements and over keys. -/
  arrayIteratorPrototype : ObjectRef
  generatorPrototype : ObjectRef
  promisePrototype : ObjectRef
  /-- The function that iterates over arrays and arguments. -/
  arrayValues : ObjectRef
  iteratorSymbol : SymbolRef
  errorPrototype : ErrorKind → ObjectRef

instance : Inhabited Realm :=
  ⟨default, default, default, default, default, default, default, default, default, default,
    fun _ => default⟩

structure Machine where
  heap : Heap
  realm : Realm
  limits : Limits := {}
  /-- The number of calls that are nested now. -/
  depth : Nat := 0
  /-- The jobs that wait, first come first. -/
  jobs : List Job := []
  output : Array String := #[]

/-- A change of the machine that ends with a value or stops. -/
abbrev Action (α : Type) : Type := EStateM Stop Machine α

/-- How functions are called: callee, receiver and arguments. -/
abbrev Caller : Type := Value → Value → List Value → Action Value

namespace Action

def raise (exception : Exception) : Action α := throw (.raised exception)

def fail (cause : Cause) : Action α := raise (.failed cause)

/-- Goes on if a result is there. -/
def ofExcept : Except Cause α → Action α
  | .ok value => pure value
  | .error cause => fail cause

def realm : Action Realm := fun machine => .ok machine.realm machine

def look (f : Heap → α) : Action α := fun machine => .ok (f machine.heap) machine

def query (f : Heap → Except Cause α) : Action α := fun machine =>
  match f machine.heap with
  | .ok value => .ok value machine
  | .error cause => .error (.raised (.failed cause)) machine

def apply (f : Heap → α × Heap) : Action α := fun ⟨heap, realm, limits, depth, jobs, output⟩ =>
  match f heap with
  | (value, heap) => .ok value ⟨heap, realm, limits, depth, jobs, output⟩

def change (f : Heap → Heap) : Action Unit := fun ⟨heap, realm, limits, depth, jobs, output⟩ =>
  .ok () ⟨f heap, realm, limits, depth, jobs, output⟩

def update (update : Heap.Update α) : Action α :=
  fun ⟨heap, realm, limits, depth, jobs, output⟩ =>
    match update heap with
    | .ok value heap => .ok value ⟨heap, realm, limits, depth, jobs, output⟩
    | .error cause heap =>
      .error (.raised (.failed cause)) ⟨heap, realm, limits, depth, jobs, output⟩

def alloc (object : Object) : Action ObjectRef := apply fun heap => heap.alloc object

def allocWith (prototype : ObjectRef) (payload : Payload) : Action ObjectRef :=
  alloc { prototype := some prototype, payload }

def allocRecord (record : Record) : Action RecordRef := apply fun heap => heap.allocRecord record

def payload (ref : ObjectRef) : Action Payload := look fun heap => (heap.object ref).payload

def printLine (line : String) : Action Unit :=
  modify fun machine => { machine with output := machine.output.push line }

def enqueue (jobs : List Job) : Action Unit :=
  modify fun machine => { machine with jobs := machine.jobs ++ jobs }

/-- The outcome of an action as a value; only exhaustion still stops. -/
def attempt (action : Action α) : Action (Except Exception α) := fun machine =>
  match action machine with
  | .ok value machine => .ok (.ok value) machine
  | .error (.raised exception) machine => .ok (.error exception) machine
  | .error .exhausted machine => .error .exhausted machine

def enter (machine : Machine) : Machine := { machine with depth := machine.depth + 1 }

def leave (machine : Machine) : Machine := { machine with depth := machine.depth - 1 }

/-- Runs an action one call deeper, unless the limit is met. -/
def nested (action : Action α) : Action α := fun machine =>
  if machine.limits.callDepth ≤ machine.depth then .error (.raised .tooDeep) machine
  else
    match action (enter machine) with
    | .ok value machine => .ok value (leave machine)
    | .error stop machine => .error stop (leave machine)

end Action

end Ecma
