/-
The limits of a machine, under gauges: one rings if more calls are nested than the limit allows,
another one if an instruction leaves a frame with more operands than the limit and two. Whatever
the alarm does, nothing changes, so it never rings; and what was nested has been left in the end.
-/
import Ecma.Proofs.Coroutines

namespace Ecma

variable {α β : Type}

/-! ## Depth -/

/-- What a machine does leaves its depth and its limits as they were. -/
def Law.steady : Law where
  standard := .lax
  rel m later := later.depth = m.depth ∧ later.limits = m.limits
  refl _ := ⟨rfl, rfl⟩
  trans h g := ⟨g.1.trans h.1, g.2.trans h.2⟩
  nested h := ⟨congrArg (· - 1) h.1, h.2⟩
  calm h := ⟨h.depth, h.limits⟩
  function _ _ _ _ := ⟨rfl, rfl⟩
  generator _ _ _ _ := ⟨rfl, rfl⟩

instance : Law.steady.FreesGenerators := ⟨fun _ _ _ _ _ => ⟨rfl, rfl⟩⟩

instance : Law.steady.FreesPromises :=
  ⟨fun _ _ _ _ => ⟨rfl, rfl⟩, fun _ _ _ _ _ => ⟨rfl, rfl⟩, fun _ _ => ⟨rfl, rfl⟩,
    fun _ _ _ _ _ => ⟨rfl, rfl⟩, fun _ _ _ _ _ _ => ⟨rfl, rfl⟩⟩

/-- A machine where no more calls are nested than may be. -/
def Machine.Shallow (m : Machine) : Prop := m.depth ≤ m.limits.callDepth

theorem Machine.Shallow.of_rel {m later : Machine} (h : m.Shallow)
    (hr : Law.steady.rel m later) : later.Shallow := by
  unfold Shallow
  rw [hr.1, hr.2]
  exact h

namespace Action

/-! ## Gauges -/

section

variable (alarm : Action Unit)

/-- Rings if more calls are nested than may be. -/
def gaugeDepth : Action Unit := do
  let m ← get
  unless m.depth ≤ m.limits.callDepth do alarm

/-- Rings if an instruction has left too many operands. -/
def gaugeStack (fr : Frame) : Action Unit := do
  unless fr.stack.size ≤ (← get).limits.stackSize + 2 do alarm

/-- Looks at the frame that goes on or is kept after an instruction. -/
def gaugeProgress : Progress → Action Unit
  | .next fr | .exit (.suspended _ fr) => gaugeStack alarm fr
  | .exit (.returned _) | .exit (.tailCall ..) => pure ()

mutual

/-- Runs a frame, with a look at the depth before each instruction and at the stack after it. -/
def runGauged : (n : Nat) → Frame → Action Exit
  | 0, _ => throw .exhausted
  | n + 1, fr => do
    gaugeDepth alarm
    let progress ← advance (callGauged n) fr
    gaugeProgress alarm progress
    match progress with
    | .next fr => runGauged n fr
    | .exit exit => return exit

/-- Runs a frame and the functions that take its place, under gauges. -/
def activateGauged : (n : Nat) → Frame → Action Value
  | 0, _ => throw .exhausted
  | n + 1, fr => do
    match ← runGauged n fr with
    | .returned v => return v
    | .suspended .. => fail .suspendOutside
    | .tailCall callee recv args =>
      match ← look fun heap => tailTarget? heap callee with
      | some (ref, closure) =>
        let fr ← newFrame ref closure recv args
        activateGauged n fr
      | none => callGauged n callee recv args

def callGauged : (n : Nat) → Value → Value → List Value → Action Value
  | 0, _, _, _ => throw .exhausted
  | n + 1, callee, recv, args =>
    callValue (callGauged n) (runGauged n) (activateGauged n) callee recv args

end

end

/-! ## Actions that agree -/

/-- Actions that do the same where no more calls are nested than may be. -/
structure Agree (x y : Action α) : Prop where
  eq : ∀ {m : Machine}, m.Shallow → x m = y m

namespace Agree

theorem refl (x : Action α) : Agree x x := ⟨fun _ => rfl⟩

/-- One call deeper no more calls are nested than may be. -/
theorem nested {x y : Action α} (h : Agree x y) : Action.nested x = Action.nested y := by
  funext m
  unfold Action.nested
  split
  · rfl
  · next hd => rw [h.eq (show (enter m).Shallow from Nat.lt_of_not_le hd)]

theorem attempt {x y : Action α} (h : Agree x y) : Agree (Action.attempt x) (Action.attempt y) := by
  refine ⟨fun hm => ?_⟩
  unfold Action.attempt
  rw [h.eq hm]

theorem bind {x y : Action α} {k l : α → Action β} (h : Agree x y) [hy : Upholds Law.steady y]
    (hk : ∀ a, Agree (k a) (l a)) : Agree (x >>= k) (y >>= l) := by
  refine ⟨fun {m} hm => ?_⟩
  rw [bind_apply, bind_apply, h.eq hm]
  cases he : y m with
  | ok a later => exact (hk a).eq (hm.of_rel (hy.of_ok (.lax m) he).rel)
  | error stop later => rfl

theorem next {x : Action α} {k l : α → Action β} [Upholds Law.steady x]
    (hk : ∀ a, Agree (k a) (l a)) : Agree (x >>= k) (x >>= l) := bind (.refl x) hk

theorem gauged {alarm : Action Unit} {x y : Action α} (h : Agree x y) :
    Agree (gaugeDepth alarm >>= fun _ => x) y := by
  refine ⟨fun {m} hm => ?_⟩
  have hquiet : gaugeDepth alarm m = .ok () m := by
    unfold Machine.Shallow at hm
    change (if m.depth ≤ m.limits.callDepth then _ else _ : Action Unit) m = _
    rw [if_pos hm]
    rfl
  rw [bind_apply, hquiet]
  exact h.eq hm

end Agree

variable {alarm : Action Unit} {call : Caller} {run further : Runner}
  {activate onward : Frame → Action Value}

section

variable (hr : ∀ fr, Agree (run fr) (further fr))

include hr

theorem continueGenerator_gauged (gen : ObjectRef) (fr : Frame) (res : Resumption) :
    Agree (continueGenerator run gen fr res) (continueGenerator further gen fr res) := by
  refine ⟨fun {m} hm => ?_⟩
  let begun := { m with heap := m.heap.setPayload gen (.generator .running) }
  have he := (hr (fr.resume res)).attempt.eq (show begun.Shallow from hm)
  change (attempt (run (fr.resume res)) >>= _) begun =
    (attempt (further (fr.resume res)) >>= _) begun
  rw [bind_apply, bind_apply, he]

theorem resumeState_gauged (gen : ObjectRef) (res : Resumption) (state : GeneratorState) :
    Agree (resumeState run gen res state) (resumeState further gen res state) := by
  cases state with
  | yielded fr => exact continueGenerator_gauged hr gen fr res
  | start fr =>
    cases res with
    | next v => exact continueGenerator_gauged hr gen fr _
    | _ => exact .refl _
  | _ => exact .refl _

theorem resumeGenerator_gauged : resumeGenerator run = resumeGenerator further := by
  funext recv res
  unfold resumeGenerator
  simp only [(resumeState_gauged hr _ res _).nested]

theorem callBuiltin_gauged : callBuiltin call run = callBuiltin call further := by
  funext builtin recv args
  unfold callBuiltin
  rw [resumeGenerator_gauged hr]

theorem resumeActivation_gauged : resumeActivation call run = resumeActivation call further := by
  funext act res
  unfold resumeActivation
  simp only [(hr _).nested]

theorem callClosure_gauged (ha : ∀ fr, Agree (activate fr) (onward fr)) :
    callClosure call run activate = callClosure call further onward := by
  funext callee closure recv args
  unfold callClosure startGenerator startAsync
  have hrun := (Agree.next (x := newFrame callee closure recv args) hr).nested
  have hactivate := (Agree.next (x := newFrame callee closure recv args) ha).nested
  rw [hrun, hactivate, resumeActivation_gauged hr]

theorem runJobs_gauged (count n : Nat) :
    runJobs call run count n = runJobs call further count n := by
  induction n generalizing count with
  | zero => rfl
  | succ n ih =>
    unfold runJobs runJob
    simp only [ih, resumeActivation_gauged hr]

end

/-! ## Nothing rings -/

/-- The gauge of the stack is quiet after an instruction. -/
theorem gaugeProgress_advance {call : Caller} {fr : Frame} {progress : Progress}
    {m later : Machine} (he : advance call fr m = .ok progress later)
    (hl : later.limits = m.limits) : gaugeProgress alarm progress later = .ok () later := by
  have hstack {kept : Frame} (hk : kept.Bounded fr.code (m.limits.stackSize + 2)) :
      gaugeStack alarm kept later = .ok () later := by
    change (if kept.stack.size ≤ later.limits.stackSize + 2 then _ else _ : Action Unit) later = _
    rw [hl, if_pos hk.2]
    rfl
  have hbounded := advance_within he
  cases progress with
  | next following => exact hstack hbounded
  | exit left =>
    cases left with
    | suspended v kept => exact hstack hbounded
    | _ => rfl

mutual

theorem runGauged_agree : (n : Nat) → (fr : Frame) → Agree (runGauged alarm n fr) (Action.run n fr)
  | 0, _ => .refl _
  | n + 1, fr => by
    rw [runGauged, Action.run, callGauged_eq n]
    refine .gauged ⟨fun {m} hm => ?_⟩
    rw [bind_apply, bind_apply]
    cases he : advance (Action.call n) fr m with
    | error stop later => rfl
    | ok progress later =>
      have hu : Upholds Law.steady (advance (Action.call n) fr) := advance_upholds fr trivial
      have hrel := (hu.of_ok (.lax m) he).rel
      dsimp only
      rw [bind_apply, gaugeProgress_advance he hrel.2]
      cases progress with
      | next following => exact (runGauged_agree n following).eq (hm.of_rel hrel)
      | exit left => rfl

theorem activateGauged_agree : (n : Nat) → (fr : Frame) →
    Agree (activateGauged alarm n fr) (Action.activate n fr)
  | 0, _ => .refl _
  | n + 1, fr => by
    rw [activateGauged, Action.activate, callGauged_eq n]
    have : Upholds Law.steady (Action.run n fr) := run_upholds n trivial
    refine .bind (runGauged_agree n fr) fun exit => ?_
    cases exit with
    | tailCall callee recv args =>
      refine .next fun target => ?_
      cases target with
      | some target => exact .next fun fr => activateGauged_agree n fr
      | none => exact .refl _
    | _ => exact .refl _

/-- Every call begins one level deeper, so nothing is asked of the machine here. -/
theorem callGauged_eq : (n : Nat) → callGauged alarm n = Action.call n
  | 0 => rfl
  | n + 1 => by
    funext callee recv args
    have hr := fun fr => @runGauged_agree n fr
    rw [callGauged, Action.call, callGauged_eq n]
    unfold callValue
    rw [callClosure_gauged hr (activateGauged_agree n), callBuiltin_gauged hr]

end

/-! ## Limits -/

/-- An action keeps to the limits of a machine: its gauges are quiet, from the first moment on, and
it leaves the depth as it was, whether it returns or raises an exception. -/
structure KeepsLimits (alarm : Action Unit) (gauged action : Action α) (m : Machine) : Prop where
  quiet : (gaugeDepth alarm >>= fun _ => gauged) m = action m
  depth : ∀ {later}, action.reached? m = some later → later.depth = m.depth

theorem KeepsLimits.of_eq {gauged action : Action α} {m : Machine} (hm : m.Shallow)
    (he : gauged = action) (hu : Upholds Law.steady action) : KeepsLimits alarm gauged action m :=
  ⟨he ▸ (Agree.gauged (.refl gauged)).eq hm, fun hl => (hu.upholds (.lax m) hl).rel.1⟩

/-- Calls, constructions, resumptions of generators and of activations, and jobs keep to the limits
of a machine, whatever code it runs: no alarm ever rings, neither where an action is nested nor
before or after an instruction. -/
theorem limits_kept (alarm : Action Unit) (fuel : Nat) {machine : Machine}
    (h : machine.depth ≤ machine.limits.callDepth) :
    (∀ action : Action α, nested (gaugeDepth alarm >>= fun _ => action) = nested action) ∧
    (∀ callee receiver arguments, KeepsLimits alarm (callGauged alarm fuel callee receiver arguments)
      (Action.call fuel callee receiver arguments) machine) ∧
    (∀ callee arguments, KeepsLimits alarm (construct (callGauged alarm fuel) callee arguments)
      (construct (Action.call fuel) callee arguments) machine) ∧
    (∀ receiver resumption, KeepsLimits alarm
      (resumeGenerator (runGauged alarm fuel) receiver resumption)
      (resumeGenerator (Action.run fuel) receiver resumption) machine) ∧
    (∀ activation resumption, KeepsLimits alarm
      (resumeActivation (callGauged alarm fuel) (runGauged alarm fuel) activation resumption)
      (resumeActivation (Action.call fuel) (Action.run fuel) activation resumption) machine) ∧
    ∀ count steps, KeepsLimits alarm
      (runJobs (callGauged alarm fuel) (runGauged alarm fuel) count steps)
      (runJobs (Action.call fuel) (Action.run fuel) count steps) machine := by
  have hr := fun frame => @runGauged_agree alarm fuel frame
  have hc : callGauged alarm fuel = Action.call fuel := callGauged_eq fuel
  rw [hc]
  refine ⟨fun action => (Agree.gauged (.refl action)).nested,
    fun _ _ _ => .of_eq h rfl inferInstance, fun _ _ => .of_eq h rfl inferInstance, fun receiver
    resumption => ?_, fun activation resumption => ?_, fun count steps => ?_⟩
  · exact .of_eq h (by rw [resumeGenerator_gauged hr])
      (resumeGenerator_upholds receiver resumption)
  · exact .of_eq h (by rw [resumeActivation_gauged hr]) (resumeActivation_upholds resumption)
  · exact .of_eq h (runJobs_gauged hr count steps) (runJobs_upholds count steps)

/-- A call that fails at the limit of nested calls rings no alarm. -/
theorem limits_kept_full :
    let machine : Machine :=
      { heap := { objects := #[{ payload := .builtin .iteratorSelf }] }, realm := default
        limits := { callDepth := 1 }, depth := 1 }
    machine.depth ≤ machine.limits.callDepth ∧
      (gaugeDepth (throw .exhausted) >>= fun _ =>
        callGauged (throw .exhausted) 1 (.object ⟨0⟩) .undefined []) machine =
        .error (.raised .tooDeep) machine := by
  intro machine
  have h : machine.depth ≤ machine.limits.callDepth := Nat.le_refl 1
  exact ⟨h, ((@limits_kept Unit (throw .exhausted) 1 machine h).2.1 (.object ⟨0⟩) .undefined []).quiet⟩

end Action

end Ecma
