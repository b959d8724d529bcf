/-
Frames run to their end. Running and calling depend on each other, and both take
fuel: an action that ends does so with any greater fuel as well.
-/
import Ecma.Machine.Realm
import Ecma.Machine.Step.Dispatch

namespace Ecma.Action

/-- The compiled function that a tail call can enter in place of a frame. -/
def tailTarget? (heap : Heap) : Value → Option (ObjectRef × Closure)
  | .object ref =>
    match (heap.object ref).payload with
    | .function closure => if closure.code.kind.isResumable then none else some (ref, closure)
    | _ => none
  | _ => none

mutual

def run : (fuel : Nat) → Frame → Action Exit
  | 0, _ => throw .exhausted
  | fuel + 1, frame => do
    match ← advance (call fuel) frame with
    | .next frame => run fuel frame
    | .exit exit => return exit

/-- Runs a frame and the functions that take its place. -/
def activate : (fuel : Nat) → Frame → Action Value
  | 0, _ => throw .exhausted
  | fuel + 1, frame => do
    match ← run fuel frame with
    | .returned value => return value
    | .suspended .. => fail .suspendOutside
    | .tailCall callee receiver arguments =>
      match ← look fun heap => tailTarget? heap callee with
      | some (ref, closure) =>
        let frame ← newFrame ref closure receiver arguments
        activate fuel frame
      | none => call fuel callee receiver arguments

def call : (fuel : Nat) → Value → Value → List Value → Action Value
  | 0, _, _, _ => throw .exhausted
  | fuel + 1, callee, receiver, arguments =>
    callValue (call fuel) (run fuel) (activate fuel) callee receiver arguments

end

end Ecma.Action
