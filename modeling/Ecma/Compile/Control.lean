/-
Exits through the constructs around a statement. An exit goes outward until it
meets its target; every iterator on the way is closed in place, and the first
finalizer takes the exit over, to lead it on after a copy of its block.
-/
import Ecma.Compile.Completion
import Ecma.Compile.Emitter

namespace Ecma.Compile

open Code

/-! ## Targets -/

def Jumps.endsAt (jumps : Jumps) : Option String → Bool
  | some label => jumps.labels.contains label
  | none => jumps.takesPlainBreak

/-- Whether a continue with this label goes on with a construct. -/
def Jumps.continuesAt (jumps : Jumps) (label : Option String) : Bool :=
  jumps.continueLabel.isSome &&
    match label with
    | some label => jumps.labels.contains label
    | none => true

/-- The innermost construct with a property, by the number of constructs around
it. -/
def innermost? (hit : Jumps → Bool) : List Control → Option Nat
  | [] => none
  | .jumps jumps :: outer => if hit jumps then some outer.length else innermost? hit outer
  | _ :: outer => innermost? hit outer

def breakTarget (label : Option String) : Emit Exit := do
  match innermost? (fun jumps => jumps.endsAt label) (← get).control, label with
  | some index, _ => return .breakTo index
  | none, some label => throw (.undefinedLabel label)
  | none, none => throw .breakOutside

def continueTarget (label : Option String) : Emit Exit := do
  match innermost? (fun jumps => jumps.continuesAt label) (← get).control with
  | some index => return .continueTo index
  | none => throw .continueOutside

/-- Whether a return from here has to run finalizers or close iterators. -/
def hasCleanup : Emit Bool := do
  return (← get).control.any fun control =>
    match control with
    | .jumps _ => false
    | .finalizer _ | .closing _ => true

/-! ## Exits -/

/-- Ends the protected range at a position. -/
def Closing.suspend (closing : Closing) (position : Nat) : Closing :=
  match closing.opened with
  | some start => { closing with opened := none, ranges := closing.ranges ++ [(start, position)] }
  | none => closing

/-- Begins a protected range at a position unless one is open. -/
def Closing.resume (closing : Closing) (position : Nat) : Closing :=
  { closing with opened := some (closing.opened.getD position) }

/-- Begins the protected ranges of all iterators that have none open. -/
def resumeAll (position : Nat) (control : List Control) : List Control :=
  control.map fun
    | .closing closing => .closing (closing.resume position)
    | other => other

/-- Emits the jump to a construct, with its target marked as used. -/
def jumpOut (target : Exit) (jumps : Jumps) : Emit Jumps := do
  for _ in List.range ((← read).envDepth - jumps.envDepth) do
    op .popEnv
  match target, jumps.continueLabel with
  | .continueTo _, some label =>
    jump .jump label
    return { jumps with continueUsed := true }
  | _, _ =>
    jump .jump jumps.breakLabel
    return { jumps with breakUsed := true }

def returnKept : Emit Unit := do
  opRegister .loadReg (← returnRegister)
  op .returnValue

/-- Whether a construct, given by the number of constructs around it, is the
target of an exit. -/
def Exit.isAt (target : Exit) (index : Nat) : Bool :=
  match target with
  | .breakTo target | .continueTo target => target == index
  | .function => false

/-- The label that leads an exit through a finalizer, new if this is its first
exit with that target. -/
def exitLabel (target : Exit) (exits : List (Label × Exit)) :
    Emit (Label × List (Label × Exit)) := do
  match exits.find? fun exit => exit.2 == target with
  | some (label, _) => return (label, exits)
  | none =>
    let label ← newLabel
    return (label, exits ++ [(label, target)])

/-- Emits an exit through the given constructs, innermost first, and returns them
with what they learn from it. -/
def leave (target : Exit) : List Control → Emit (List Control)
  | [] => do
    returnKept
    return []
  | .jumps jumps :: outer => do
    if target.isAt outer.length then return .jumps (← jumpOut target jumps) :: outer
    else return .jumps jumps :: (← leave target outer)
  | .finalizer exits :: outer => do
    let (label, exits) ← exitLabel target exits
    jump .jump label
    return .finalizer exits :: outer
  | .closing closing :: outer => do
    let closing := closing.suspend (← position)
    opRegister .loadReg closing.register
    op .iteratorClose
    return .closing closing :: (← leave target outer)

def exitTo (target : Exit) : Emit Unit := do
  let control ← leave target (← get).control
  let position ← position
  modify fun emitter => { emitter with control := resumeAll position control }

/-! ## Entering and leaving constructs -/

/-- Runs code making inside a construct, and returns the construct with what it
learned. -/
def within {α : Type} (control : Control) (body : Emit α) : Emit (α × Control) := do
  modify fun emitter => { emitter with control := control :: emitter.control }
  let a ← body
  match (← get).control with
  | control :: outer =>
    modify fun emitter => { emitter with control := outer }
    return (a, control)
  | [] => throw .unbalanced

/-- Runs code making inside a construct that takes jumps. -/
def withJumps {α : Type} (jumps : Jumps) (body : Emit α) : Emit (α × Jumps) := do
  match ← within (.jumps jumps) body with
  | (a, .jumps jumps) => return (a, jumps)
  | _ => throw .unbalanced

/-- Runs code making inside a loop, which gets the label where it continues. -/
def inLoop {α : Type} (labels : List String) (body : Label → Emit α) : Emit (α × Jumps) := do
  let next ← newLabel
  let breakLabel ← newLabel
  let envDepth := (← read).envDepth
  withJumps
    { labels, breakLabel, continueLabel := some next, takesPlainBreak := true, envDepth }
    (body next)

/-- Runs code making inside a switch, or inside a labelled statement. -/
def inBreakable {α : Type} (labels : List String) (takesPlainBreak : Bool) (body : Emit α) :
    Emit (α × Jumps) := do
  let breakLabel ← newLabel
  let envDepth := (← read).envDepth
  withJumps { labels, breakLabel, continueLabel := none, takesPlainBreak, envDepth } body

/-- The end of the innermost construct, marked as used. -/
def useBreak : Emit Label := do
  match (← get).control with
  | .jumps jumps :: outer =>
    modify fun emitter =>
      { emitter with control := .jumps { jumps with breakUsed := true } :: outer }
    return jumps.breakLabel
  | _ => throw .unbalanced

def continueUsed : Emit Bool := do
  match (← get).control with
  | .jumps jumps :: _ => return jumps.continueUsed
  | _ => throw .unbalanced

/-- Runs code making under a finalizer, and returns the exits it has to lead on. -/
def underFinalizer {α : Type} (body : Emit α) : Emit (α × List (Label × Exit)) := do
  match ← within (.finalizer []) body with
  | (a, .finalizer exits) => return (a, exits)
  | _ => throw .unbalanced

/-- Begins the protected range of the construct just outside the innermost one. -/
def openClosing : Emit Unit := do
  let position ← position
  modify fun emitter => { emitter with control := resumeAll position emitter.control }

/-- Runs a loop whose iterator is closed when an exception passes. -/
def closingIterator {α : Type} (register : Nat) (body : Emit α) : Emit α := do
  match ← within (.closing { register }) body with
  | (a, .closing closing) =>
    let closing := closing.suspend (← position)
    let target ← newLabel
    for (start, stop) in closing.ranges do
      changeDraft fun draft => draft.addHandler ⟨start, stop, target, .closes register⟩
    return a
  | _ => throw .unbalanced

/-- The completion of a loop: it ends unless its test is always true and nothing
breaks it. -/
def Jumps.loopCompletion (jumps : Jumps) (infinite : Bool) : Completion :=
  if infinite && !jumps.breakUsed then .abrupt else .normal

end Ecma.Compile
