/-
Exceptions and the error objects that stand for them.
-/
import Ecma.Heap.Describe
import Ecma.Machine.Basic

namespace Ecma.Action

def newError (kind : ErrorKind) : Action ObjectRef := do
  allocWith ((← realm).errorPrototype kind) (.error kind [])

def createError (kind : ErrorKind) (message : String) : Action ObjectRef := do
  let ref ← newError kind
  change fun heap => heap.defineHidden ref (.string "message") (.string message)
  return ref

def errorOf (cause : Cause) : Action ObjectRef := createError cause.kind cause.message

/-- An exception as a thrown value; an error gets its object. -/
def materialize : Exception → Action Thrown
  | .thrown thrown => pure thrown
  | .failed cause => return { value := .object (← errorOf cause) }
  | .tooDeep => return { value := .object (← errorOf .tooMuchRecursion) }

/-- The values that an error is recorded to have superseded. -/
def recorded (heap : Heap) (value : Value) : List Value :=
  match value with
  | .object ref =>
    match (heap.object ref).payload with
    | .error _ suppressed => suppressed
    | _ => []
  | _ => []

/-- Records on an error object the values that it superseded, where a program can
see them. -/
def recordSuppressed (ref : ObjectRef) (kind : ErrorKind) (suppressed : List Value) :
    Action Unit := do
  change fun heap => heap.setPayload ref (.error kind suppressed)
  let list ← allocWith (← realm).arrayPrototype (.array suppressed.toArray)
  change fun heap => heap.defineHidden ref (.string "suppressed") (.object list)

def caughtValue (thrown : Thrown) : Action Value := do
  match thrown.suppressed, thrown.value with
  | _ :: _, .object ref =>
    match ← payload ref with
    | .error kind earlier => recordSuppressed ref kind (earlier ++ thrown.suppressed)
    | _ => pure ()
  | _, _ => pure ()
  return thrown.value

end Ecma.Action
