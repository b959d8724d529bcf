/-
Promises. A promise settles once; each of its reactions then becomes a job at
the end of the queue.
-/
import Ecma.Machine.Error

namespace Ecma

def Settlement.jobs (settlement : Settlement) (reactions : List Reaction) : List Job :=
  reactions.map fun reaction => { reaction, settlement }

namespace Action

def newPromise : Action ObjectRef := do
  allocWith (← realm).promisePrototype (.promise (.pending []))

def promise? (value : Value) : Action (Option ObjectRef) :=
  look fun heap => value.object?.filter fun ref => (heap.object ref).payload.promise?.isSome

def settle (promise : ObjectRef) (settlement : Settlement) : Action Unit := do
  match ← payload promise with
  | .promise (.pending reactions) =>
    change fun heap => heap.setPayload promise (.promise (.settled settlement))
    enqueue (settlement.jobs reactions)
  | _ => pure ()

/-- Adds a reaction to a promise; if it has settled, the reaction is due at once. -/
def addReaction (promise : ObjectRef) (reaction : Reaction) : Action Unit := do
  match ← payload promise with
  | .promise (.pending reactions) =>
    change fun heap => heap.setPayload promise (.promise (.pending (reactions ++ [reaction])))
  | .promise (.settled settlement) => enqueue (settlement.jobs [reaction])
  | _ => pure ()

def rejectPromise (promise : ObjectRef) (reason : Value) : Action Unit :=
  settle promise (.rejected reason)

/-- Resolves a promise: with the outcome of another promise, or with a value. -/
def resolvePromise (promise : ObjectRef) (value : Value) : Action Unit := do
  match ← promise? value with
  | some other =>
    if other = promise then rejectPromise promise (.object (← errorOf .promiseCycle))
    else addReaction other (.forward promise)
  | none => settle promise (.fulfilled value)

/-- A promise of a value; a promise is its own. -/
def promiseOf (value : Value) : Action ObjectRef := do
  match ← promise? value with
  | some promise => return promise
  | none =>
    let promise ← newPromise
    settle promise (.fulfilled value)
    return promise

def rejectedPromise (reason : Value) : Action ObjectRef := do
  let promise ← newPromise
  rejectPromise promise reason
  return promise

/-- A new promise of what callbacks make of the outcome of another. -/
def promiseThen (value onFulfilled onRejected : Value) : Action ObjectRef := do
  match ← promise? value with
  | some promise =>
    let derived ← newPromise
    addReaction promise (.callback onFulfilled onRejected derived)
    return derived
  | none => fail .notPromise

end Action

end Ecma
