/-
Jobs and the operations on promises. A job calls its callback, resumes its activation or settles
its promise; whenever jobs are run, all that wait are taken in the order in which they were queued,
those that come up meanwhile included. Whatever the operations, each promise has its one course.
-/
import Ecma.Proofs.Settlement

namespace Ecma

/-! ## Outcomes -/

def Heap.promiseOf? (heap : Heap) (v : Value) : Option ObjectRef :=
  v.object?.filter fun ref => (heap.promise? ref).isSome

namespace Heap

variable (heap : Heap) (p : ObjectRef)

/-- The deeds of resolving a promise: it follows another promise, or it is fulfilled. -/
def Resolves (v : Value) (deeds : List Deed) : Prop :=
  match heap.promiseOf? v with
  | some other =>
    if other = p then ∃ reason, deeds = heap.settling p (.rejected reason)
    else deeds = heap.registering other (.forward p)
  | none => deeds = heap.settling p (.fulfilled v)

/-- The deeds by which the outcome of a call settles a promise. -/
def Concludes : Except Exception Value → List Deed → Prop
  | .ok v, deeds => heap.Resolves p v deeds
  | .error (.thrown thrown), deeds => deeds = heap.settling p (.rejected thrown.value)
  | .error _, deeds => ∃ error, deeds = heap.settling p (.rejected (.object error))

end Heap

namespace Heap

variable {heap later : Heap} {p : ObjectRef}

theorem settling_congr (h : later.promise? p = heap.promise? p) (settlement : Settlement) :
    later.settling p settlement = heap.settling p settlement := by
  unfold settling
  rw [h]

theorem registering_congr (h : later.promise? p = heap.promise? p) (reaction : Reaction) :
    later.registering p reaction = heap.registering p reaction := by
  unfold registering
  rw [h]

theorem promise?_of_promiseOf? {v} (h : heap.promiseOf? v = some p) :
    ∃ state, heap.promise? p = some state := by
  unfold promiseOf? at h
  obtain ⟨-, hs⟩ := Option.filter_eq_some_iff.mp h
  exact Option.isSome_iff_exists.mp hs

end Heap

namespace Action

variable {m : Machine}

/-- Settling a promise always ends, with the deeds that settle it. -/
theorem settle_unfolds (m : Machine) (p : ObjectRef) (settlement : Settlement) :
    ∃ later, settle p settlement m = .ok () later ∧
      Unfolds m (m.heap.settling p settlement) later := by
  have h : ∃ later, settle p settlement m = .ok () later := by
    cases hp : m.heap.promise? p with
    | none => exact ⟨_, settle_of_none hp⟩
    | some state =>
      cases state with
      | pending => exact ⟨_, settle_of_pending hp⟩
      | settled => exact ⟨_, settle_of_settled hp⟩
  obtain ⟨later, h⟩ := h
  exact ⟨later, h, .settle h⟩

/-- Registering a reaction always ends, with the deeds that register it. -/
theorem addReaction_unfolds (m : Machine) (p : ObjectRef) (reaction : Reaction) :
    ∃ later, addReaction p reaction m = .ok () later ∧
      Unfolds m (m.heap.registering p reaction) later := by
  have h : ∃ later, addReaction p reaction m = .ok () later := by
    cases hp : m.heap.promise? p with
    | none => exact ⟨_, addReaction_of_none hp⟩
    | some state =>
      cases state with
      | pending => exact ⟨_, addReaction_of_pending hp⟩
      | settled => exact ⟨_, addReaction_of_settled hp⟩
  obtain ⟨later, h⟩ := h
  exact ⟨later, h, .register h⟩

/-- A new promise is pending, and the others are as they were. -/
theorem newPromise_unfolds (m : Machine) : ∃ p later, newPromise m = .ok p later ∧
      Unfolds m [.made p] later ∧ later.heap.promise? p = some (.pending []) ∧
      ∀ {other state}, m.heap.promise? other = some state →
        later.heap.promise? other = m.heap.promise? other := by
  refine ⟨_, _, rfl, .make rfl, (Heap.promise?_alloc ..).trans (if_pos rfl), fun {other _} h => ?_⟩
  exact (Heap.promise?_alloc ..).trans (if_neg (Nat.ne_of_lt (Heap.lt_of_promise? h)))

theorem errorOf_calms (m : Machine) (cause : Cause) :
    ∃ error later, errorOf cause m = .ok error later ∧ m.Calms later :=
  ⟨_, _, rfl, .ofHeap ((Heap.Calms.alloc _ rfl).trans (Heap.Calm.calms (f := fun heap =>
    heap.defineHidden ⟨m.heap.objects.size⟩ (.string "message") (.string cause.message)) _))⟩

/-- Rejecting a promise with a new error. -/
theorem rejectError_unfolds (m : Machine) (p : ObjectRef) (cause : Cause) :
    ∃ error later, (errorOf cause >>= fun error => rejectPromise p (.object error)) m = .ok () later ∧
      Unfolds m (m.heap.settling p (.rejected (.object error))) later := by
  obtain ⟨error, made, he, hc⟩ := errorOf_calms m cause
  obtain ⟨later, hl, hu⟩ := settle_unfolds made p (.rejected (.object error))
  have hquiet := Machine.Undisturbed.of_calms hc
  refine ⟨error, later, ?_, ?_⟩
  · rw [bind_apply, he]
    exact hl
  · have hall := (Unfolds.quiet hquiet).append hu
    rwa [List.nil_append, Heap.settling_congr (hquiet.promises p)] at hall

theorem resolvePromise_unfolds (m : Machine) (p : ObjectRef) (v : Value) :
    ∃ deeds later, resolvePromise p v m = .ok () later ∧ Unfolds m deeds later ∧
      m.heap.Resolves p v deeds := by
  unfold Heap.Resolves
  change ∃ deeds later, (match m.heap.promiseOf? v with
    | some other =>
      if other = p then do rejectPromise p (.object (← errorOf .promiseCycle))
      else addReaction other (.forward p)
    | none => settle p (.fulfilled v)) m = .ok () later ∧ _
  cases m.heap.promiseOf? v with
  | none =>
    obtain ⟨later, hl, hu⟩ := settle_unfolds m p (.fulfilled v)
    exact ⟨_, later, hl, hu, rfl⟩
  | some other =>
    dsimp only
    split
    · obtain ⟨error, later, hl, hu⟩ := rejectError_unfolds m p .promiseCycle
      exact ⟨_, later, hl, hu, .object error, rfl⟩
    · obtain ⟨later, hl, hu⟩ := addReaction_unfolds m other (.forward p)
      exact ⟨_, later, hl, hu, rfl⟩

theorem settleWith_unfolds (m : Machine) (p : ObjectRef) (outcome : Except Exception Value) :
    ∃ deeds later, settleWith p outcome m = .ok () later ∧ Unfolds m deeds later ∧
      m.heap.Concludes p outcome deeds := by
  rcases outcome with exception | v
  · cases exception with
    | thrown thrown =>
      obtain ⟨later, hl, hu⟩ := settle_unfolds m p (.rejected thrown.value)
      exact ⟨_, later, hl, hu, rfl⟩
    | failed cause =>
      obtain ⟨error, later, hl, hu⟩ := rejectError_unfolds m p cause
      exact ⟨_, later, hl, hu, error, rfl⟩
    | tooDeep =>
      obtain ⟨error, later, hl, hu⟩ := rejectError_unfolds m p .tooMuchRecursion
      exact ⟨_, later, hl, hu, error, rfl⟩
  · exact resolvePromise_unfolds m p v

end Action

/-! ## Jobs -/

namespace Settlement

def value : Settlement → Value
  | fulfilled v | rejected v => v

/-- The callback that a settlement asks for. -/
def callback (onFulfilled onRejected : Value) : Settlement → Value
  | fulfilled _ => onFulfilled
  | rejected _ => onRejected

/-- A settlement as the outcome of a call. -/
def outcome : Settlement → Except Exception Value
  | fulfilled v => .ok v
  | rejected reason => .error (.ofValue reason)

def resumption : Settlement → Resumption
  | fulfilled v => .next v
  | rejected reason => .throw reason

end Settlement

/-- What becomes of an activation when its frame has run: it waits for another promise, or its own
one settles. The last argument tells whether all went well. -/
inductive Activation.Ends (n : Nat) (act p : ObjectRef) :
    Except Exception Exit → Machine → List Deed → Machine → Bool → Prop
  | waits {m later ref fr} : Unfolds m (m.heap.registering ref (.resume act)) later →
    later.heap.payload act = .activation (some fr) p →
    Ends n act p (.ok (.suspended (.object ref) fr)) m
      (m.heap.registering ref (.resume act)) later true
  | lost {m later v fr} : v.isObject = false → Unfolds m [] later →
    Ends n act p (.ok (.suspended v fr)) m [] later false
  | returns {m later v deeds} : Unfolds m deeds later → m.heap.Concludes p (.ok v) deeds →
    Ends n act p (.ok (.returned v)) m deeds later true
  | raises {m later exception deeds} : Unfolds m deeds later →
    m.heap.Concludes p (.error exception) deeds → Ends n act p (.error exception) m deeds later true
  /-- The function that takes the place of the frame is called first. -/
  | calls {m middle later callee recv args outcome first second} :
    Action.attempt (Action.call n callee recv args) m = .ok outcome middle →
    Unfolds m first middle → Unfolds middle second later →
    middle.heap.Concludes p outcome second →
    Ends n act p (.ok (.tailCall callee recv args)) m (first ++ second) later true

/-- A job is run. The last argument tells whether all went well: only an activation that does not
wait cannot be resumed. -/
inductive Job.Runs (n : Nat) : Job → Machine → List Deed → Machine → Bool → Prop
  /-- A promise settles like the one that it follows. -/
  | forwards {m later target settlement} : Unfolds m (m.heap.settling target settlement) later →
    Runs n ⟨.forward target, settlement⟩ m (m.heap.settling target settlement) later true
  /-- A callback is called, and the derived promise settles with the outcome. -/
  | calls {m middle later onFulfilled onRejected derived settlement outcome first second} :
    m.heap.isCallableValue (settlement.callback onFulfilled onRejected) = true →
    Action.attempt (Action.call n (settlement.callback onFulfilled onRejected) .undefined
      [settlement.value]) m = .ok outcome middle →
    Unfolds m first middle → Unfolds middle second later →
    middle.heap.Concludes derived outcome second →
    Runs n ⟨.callback onFulfilled onRejected derived, settlement⟩ m (first ++ second) later true
  /-- Without a callback the derived promise settles like the first one. -/
  | passes {m later onFulfilled onRejected derived settlement deeds} :
    m.heap.isCallableValue (settlement.callback onFulfilled onRejected) = false →
    Unfolds m deeds later → m.heap.Concludes derived settlement.outcome deeds →
    Runs n ⟨.callback onFulfilled onRejected derived, settlement⟩ m deeds later true
  /-- The frame of an activation goes on with the settlement. -/
  | resumes {m middle later act p fr settlement outcome first second well} :
    m.heap.payload act = .activation (some fr) p →
    Action.attempt (Action.nested (Action.run n (fr.resume settlement.resumption)))
      { m with heap := m.heap.setPayload act (.activation none p) } = .ok outcome middle →
    Unfolds m first middle → Activation.Ends n act p outcome middle second later well →
    Runs n ⟨.resume act, settlement⟩ m (first ++ second) later well
  | refused {m act settlement} :
    (∀ fr p, m.heap.payload act ≠ .activation (some fr) p) →
    Runs n ⟨.resume act, settlement⟩ m [] m false

/-- The jobs of a queue are taken and run one after the other, those that are queued meanwhile
included, until none is left or one fails. -/
inductive Drains (n : Nat) : Machine → List Deed → Machine → Prop
  | done {m} : m.jobs = [] → Drains n m [] m
  | next {m middle later job jobs first second} : m.jobs = job :: jobs →
    job.Runs n { m with jobs } first middle true → Drains n middle second later →
    Drains n m (.began job :: (first ++ second)) later
  | fails {m later job jobs deeds} : m.jobs = job :: jobs →
    job.Runs n { m with jobs } deeds later false → Drains n m (.began job :: deeds) later

theorem Activation.Ends.unfolds {n act p outcome m deeds later well}
    (h : Activation.Ends n act p outcome m deeds later well) : Unfolds m deeds later := by
  cases h with
  | waits hu _ | lost _ hu | returns hu _ | raises hu _ => exact hu
  | calls _ hu hu' _ => exact hu.append hu'

theorem Job.Runs.unfolds {n job m deeds later well} (h : Job.Runs n job m deeds later well) :
    Unfolds m deeds later := by
  cases h with
  | forwards hu | passes _ hu _ => exact hu
  | calls _ _ hu hu' _ => exact hu.append hu'
  | resumes _ _ hu he => exact hu.append he.unfolds
  | refused => exact .quiet (.refl _)

namespace Action

variable {n : Nat} {m later : Machine} {act p : ObjectRef}

/-- What runs code, whatever its outcome, does so by deeds. -/
theorem attempt_unfolds {α : Type} {x : Action α} [hx : Upholds Law.deeds x] {outcome}
    (h : attempt x m = .ok outcome later) :
    (∃ deeds, Unfolds m deeds later) ∧ m.heap.Natures later.heap := by
  have hf := hx.upholds (.lax m) (reached?_attempt h)
  exact ⟨hf.rel, hf.natures⟩

theorem attempt_of_eq {α : Type} {x : Action α} {a outcome} {middle : Machine}
    (hx : x m = .ok a middle) (h : attempt x m = .ok outcome later) :
    outcome = .ok a ∧ later = middle := by
  rw [attempt_of_ok hx] at h
  cases h
  exact ⟨rfl, rfl⟩

theorem attempt_congr {α : Type} {x y : Action α} {middle : Machine} (h : x m = y middle) :
    attempt x m = attempt y middle := by
  unfold attempt
  rw [h]

/-- An action whose first part does not raise. -/
theorem attempt_bind_attempt {α β : Type} {x : Action α} {k : Except Exception α → Action β}
    {outcome} (h : attempt (attempt x >>= k) m = .ok outcome later) :
    ∃ first middle, attempt x m = .ok first middle ∧ attempt (k first) middle = .ok outcome later := by
  cases he : attempt x m with
  | ok first middle =>
    have hx : (attempt x >>= k) m = k first middle := by rw [bind_apply, he]
    exact ⟨first, middle, rfl, (attempt_congr hx).symm.trans h⟩
  | error stop middle =>
    cases stop with
    | raised exception => exact absurd he attempt_ne_raised
    | exhausted =>
      rw [attempt, bind_apply, he] at h
      cases h

/-- A call whose outcome settles a promise. -/
theorem settleCall_unfolds {callee recv : Value} {args : List Value} {outcome}
    (h : attempt (attempt (call n callee recv args) >>= settleWith p) m = .ok outcome later) :
    ∃ first middle deeds deeds', outcome = .ok () ∧
      attempt (call n callee recv args) m = .ok first middle ∧ Unfolds m deeds middle ∧
      Unfolds middle deeds' later ∧ middle.heap.Concludes p first deeds' := by
  obtain ⟨first, middle, hc, hs⟩ := attempt_bind_attempt h
  obtain ⟨⟨deeds, hu⟩, -⟩ := attempt_unfolds hc
  obtain ⟨deeds', left, hl, hu', hcon⟩ := settleWith_unfolds middle p first
  obtain ⟨rfl, rfl⟩ := attempt_of_eq hl hs
  exact ⟨first, middle, deeds, deeds', rfl, hc, hu, hu', hcon⟩

/-- A reaction to a promise changes no activation. -/
theorem addReaction_activation {ref reaction fr} (h : m.heap.payload act = .activation fr p)
    (hl : addReaction ref reaction m = .ok () later) :
    later.heap.payload act = .activation fr p := by
  cases hp : m.heap.promise? ref with
  | none =>
    rw [addReaction_of_none hp] at hl
    cases hl
    exact h
  | some state =>
    cases state with
    | settled =>
      rw [addReaction_of_settled hp] at hl
      cases hl
      exact h
    | pending =>
      rw [addReaction_of_pending hp] at hl
      cases hl
      refine ((Heap.payload_setPayload ..).trans (if_neg fun he => ?_)).trans h
      rw [← he.1, Heap.promise?, h] at hp
      cases hp

theorem afterActivation_ends {exit outcome first}
    (hp : m.heap.payload act = .activation first p)
    (h : attempt (afterActivation (call n) act p exit) m = .ok outcome later) :
    ∃ deeds, Activation.Ends n act p exit m deeds later outcome.isOk := by
  have hnone : m.heap.promise? act = none := by
    unfold Heap.promise?
    rw [hp]
    rfl
  have hrange : act.index < m.heap.objects.size := Heap.lt_of_payload (by rw [hp]; rfl)
  rcases exit with exception | exit
  · obtain ⟨deeds, left, hl, hu, hc⟩ := settleWith_unfolds m p (.error exception)
    obtain ⟨rfl, rfl⟩ := attempt_of_eq hl h
    exact ⟨deeds, .raises hu hc⟩
  · cases exit with
    | returned v =>
      obtain ⟨deeds, left, hl, hu, hc⟩ := settleWith_unfolds m p (.ok v)
      obtain ⟨rfl, rfl⟩ := attempt_of_eq hl h
      exact ⟨deeds, .returns hu hc⟩
    | tailCall callee recv args =>
      obtain ⟨_, _, _, _, rfl, hc, hu, hu', hcon⟩ := settleCall_unfolds h
      exact ⟨_, .calls hc hu hu' hcon⟩
    | suspended awaited fr =>
      have hquiet : m.Undisturbed
          { m with heap := m.heap.setPayload act (.activation (some fr) p) } :=
        .setPayload m hnone rfl
      generalize hkept : { m with
        heap := m.heap.setPayload act (.activation (some fr) p) } = kept at hquiet
      have hact : kept.heap.payload act = .activation (some fr) p := by
        rw [← hkept]
        exact (Heap.payload_setPayload ..).trans (if_pos ⟨rfl, hrange⟩)
      cases awaited with
      | object ref =>
        obtain ⟨left, hl, hu⟩ := addReaction_unfolds kept ref (.resume act)
        have hx : afterActivation (call n) act p (.ok (.suspended (.object ref) fr)) m =
            .ok () left := by
          rw [← hkept] at hl
          exact hl
        obtain ⟨rfl, rfl⟩ := attempt_of_eq hx h
        have hall := (Unfolds.quiet hquiet).append hu
        rw [List.nil_append, Heap.registering_congr (hquiet.promises ref)] at hall
        exact ⟨_, .waits hall (addReaction_activation hact hl)⟩
      | _ =>
        cases h
        exact ⟨[], .lost rfl (hkept ▸ .quiet hquiet)⟩

theorem resumeActivation_runs {settlement outcome}
    (h : attempt (resumeActivation (call n) (run n) act (some settlement.resumption)) m =
      .ok outcome later) :
    ∃ deeds, Job.Runs n ⟨.resume act, settlement⟩ m deeds later outcome.isOk := by
  by_cases hw : ∃ fr p, m.heap.payload act = .activation (some fr) p
  · obtain ⟨fr, p, hp⟩ := hw
    have hquiet : Unfolds m [] { m with heap := m.heap.setPayload act (.activation none p) } :=
      .quiet (.setPayload m (by unfold Heap.promise?; rw [hp]; rfl) rfl)
    have hrange : act.index < m.heap.objects.size := Heap.lt_of_payload (by rw [hp]; rfl)
    have hrest : attempt (attempt (nested (run n (fr.resume settlement.resumption))) >>=
        afterActivation (call n) act p)
          { m with heap := m.heap.setPayload act (.activation none p) } = .ok outcome later := by
      rw [← h, resumeActivation, attempt, attempt, payload_bind_apply, hp]
      rfl
    obtain ⟨exit, middle, hr, he⟩ := attempt_bind_attempt hrest
    have : Upholds Law.deeds (run n (fr.resume settlement.resumption)) :=
      (inferInstance : Runner.Upholds Law.deeds (run n)).runs trivial
    obtain ⟨⟨first, hu⟩, hn⟩ := attempt_unfolds hr
    have hkept : (middle.heap.payload act).nature = .activation p := by
      rw [hn.nature act ((Heap.size_setPayload ..).symm ▸ hrange), Heap.payload_setPayload,
        if_pos ⟨rfl, hrange⟩]
      rfl
    obtain ⟨left, hleft⟩ : ∃ left, middle.heap.payload act = .activation left p := by
      cases hm : middle.heap.payload act <;> rw [hm] at hkept <;> cases hkept
      exact ⟨_, rfl⟩
    obtain ⟨second, hends⟩ := afterActivation_ends hleft he
    exact ⟨_, .resumes hp hr (hquiet.append hu) hends⟩
  · have hfails : ∃ cause, resumeActivation (call n) (run n) act (some settlement.resumption) m =
        .error (.raised (.failed cause)) m := by
      rw [resumeActivation, payload_bind_apply]
      cases hp : m.heap.payload act with
      | activation fr p =>
        cases fr with
        | none => exact ⟨_, rfl⟩
        | some fr => exact absurd ⟨fr, p, hp⟩ hw
      | _ => exact ⟨_, rfl⟩
    obtain ⟨cause, hf⟩ := hfails
    rw [attempt_of_raised hf] at h
    cases h
    exact ⟨[], .refused fun fr p hp => hw ⟨fr, p, hp⟩⟩

theorem runJob_callback {onFulfilled onRejected derived settlement} :
    runJob (call n) (run n) ⟨.callback onFulfilled onRejected derived, settlement⟩ m =
      if m.heap.isCallableValue (settlement.callback onFulfilled onRejected) then
        (attempt (call n (settlement.callback onFulfilled onRejected) .undefined
          [settlement.value]) >>= settleWith derived) m
      else settleWith derived settlement.outcome m := by
  cases settlement <;> exact apply_ite (fun x : Action Unit => x m) ..

theorem runJob_runs {job outcome}
    (h : attempt (runJob (call n) (run n) job) m = .ok outcome later) :
    ∃ deeds, job.Runs n m deeds later outcome.isOk := by
  obtain ⟨reaction, settlement⟩ := job
  cases reaction with
  | forward target =>
    obtain ⟨left, hl, hu⟩ := settle_unfolds m target settlement
    obtain ⟨rfl, rfl⟩ := attempt_of_eq (by cases settlement <;> exact hl) h
    exact ⟨_, .forwards hu⟩
  | callback onFulfilled onRejected derived =>
    cases hc : m.heap.isCallableValue (settlement.callback onFulfilled onRejected) with
    | true =>
      have hcall := (attempt_congr (runJob_callback.trans (if_pos hc))).symm.trans h
      obtain ⟨_, _, _, _, rfl, hc', hu, hu', hcon⟩ := settleCall_unfolds hcall
      exact ⟨_, .calls hc hc' hu hu' hcon⟩
    | false =>
      obtain ⟨deeds, left, hl, hu, hcon⟩ := settleWith_unfolds m derived settlement.outcome
      have hleft := ((runJob_callback (n := n)).trans (if_neg (ne_true_of_eq_false hc))).trans hl
      obtain ⟨rfl, rfl⟩ := attempt_of_eq hleft h
      exact ⟨deeds, .passes hc hu hcon⟩
  | resume act =>
    have hresume : attempt (resumeActivation (call n) (run n) act (some settlement.resumption)) m =
        .ok outcome later := by
      cases settlement <;> exact h
    exact resumeActivation_runs hresume

end Action

theorem Drains.of_reached {n : Nat} {m later : Machine} {count steps : Nat}
    (h : (Action.runJobs (Action.call n) (Action.run n) count steps).reached? m = some later) :
    ∃ deeds, Drains n m deeds later := by
  induction steps generalizing m count with
  | zero => cases h
  | succ steps ih =>
    unfold Action.runJobs at h
    cases hjobs : m.jobs with
    | nil =>
      rw [Action.reached?_bind_of_ok (Action.nextJob_of_nil hjobs)] at h
      cases h
      exact ⟨[], .done hjobs⟩
    | cons job jobs =>
      rw [Action.reached?_bind_of_ok (Action.nextJob_of_cons hjobs)] at h
      obtain ⟨_, middle, hj, hl⟩ | ⟨exception, hj⟩ := Action.reached?_bind h
      · obtain ⟨first, hr⟩ := Action.runJob_runs (Action.attempt_of_ok hj)
        obtain ⟨second, hd⟩ := ih hl
        exact ⟨_, .next hjobs hr hd⟩
      · obtain ⟨deeds, hr⟩ := Action.runJob_runs (Action.attempt_of_raised hj)
        exact ⟨_, .fails hjobs hr⟩

/-- The course of a promise, and the order in which jobs begin. -/
structure Orderly (m : Machine) (deeds : List Deed) (later : Machine) : Prop where
  followed : ∀ p, Followed p m deeds later
  /-- The jobs that begin are the first of those that waited and those that were queued since. -/
  queue : deeds.filterMap Deed.began? ++ later.jobs = m.jobs ++ deeds.filterMap Deed.queued?

namespace Orderly

variable {n : Nat} {m middle later : Machine} {deeds first second : List Deed}

theorem append (h : Orderly m first middle) (g : Orderly middle second later) :
    Orderly m (first ++ second) later := by
  refine ⟨fun p => (h.followed p).append (g.followed p), ?_⟩
  rw [List.filterMap_append, List.filterMap_append, List.append_assoc, g.queue, ← List.append_assoc,
    h.queue, List.append_assoc]

theorem of_unfolds (h : Unfolds m deeds later) : Orderly m deeds later :=
  ⟨h.followed, by rw [h.queue.1, h.queue.2, List.nil_append]⟩

theorem start {job jobs} (h : m.jobs = job :: jobs) : Orderly m [.began job] { m with jobs } :=
  ⟨fun _ => .start m job jobs, by simp [h, List.filterMap_cons, Deed.began?, Deed.queued?]⟩

theorem of_drains (h : Drains n m deeds later) : Orderly m deeds later := by
  induction h with
  | done => exact of_unfolds (.quiet (.refl _))
  | next hj hr _ ih => exact (start hj).append ((of_unfolds hr.unfolds).append ih)
  | fails hj hr => exact (start hj).append (of_unfolds hr.unfolds)

end Orderly

/-! ## Operations -/

/-- What can be done with promises. -/
inductive PromiseOperation where
  | make
  | resolve (p : ObjectRef) (v : Value)
  | reject (p : ObjectRef) (reason : Value)
  /-- Asks for callbacks when a promise settles. -/
  | react (v onFulfilled onRejected : Value)
  /-- Lets an activation wait for a value. -/
  | await (v : Value) (act : ObjectRef)
  | runJobs
  | call (callee recv : Value) (args : List Value)

namespace PromiseOperation

def perform (n : Nat) : PromiseOperation → Action Unit
  | make => do let _ ← Action.newPromise
  | resolve p v => Action.resolvePromise p v
  | reject p reason => Action.rejectPromise p reason
  | react v onFulfilled onRejected => do
    let _ ← Action.promiseThen v onFulfilled onRejected
  | await v act => do
    Action.addReaction (← Action.promiseOf v) (.resume act)
  | runJobs => do let _ ← Action.runJobs (Action.call n) (Action.run n) 0 n
  | call callee recv args => do let _ ← Action.call n callee recv args

/-- The deeds of an operation; a function that is called may do any, but it takes no job. -/
inductive Does (n : Nat) : PromiseOperation → Machine → List Deed → Machine → Prop
  | makes {m later p} : Unfolds m [.made p] later → Does n make m [.made p] later
  | resolves {m later p v deeds} : Unfolds m deeds later → m.heap.Resolves p v deeds →
    Does n (resolve p v) m deeds later
  | rejects {m later p reason} : Unfolds m (m.heap.settling p (.rejected reason)) later →
    Does n (reject p reason) m (m.heap.settling p (.rejected reason)) later
  | reacts {m later v p onFulfilled onRejected derived} : m.heap.promiseOf? v = some p →
    Unfolds m (.made derived :: m.heap.registering p (.callback onFulfilled onRejected derived))
      later →
    Does n (react v onFulfilled onRejected) m
      (.made derived :: m.heap.registering p (.callback onFulfilled onRejected derived)) later
  | refuses {m v onFulfilled onRejected} : m.heap.promiseOf? v = none →
    Does n (react v onFulfilled onRejected) m [] m
  | awaits {m later v p act} : m.heap.promiseOf? v = some p →
    Unfolds m (m.heap.registering p (.resume act)) later →
    Does n (await v act) m (m.heap.registering p (.resume act)) later
  /-- What is no promise gets one that is fulfilled with it. -/
  | awaitsValue {m later v p act} : m.heap.promiseOf? v = none →
    Unfolds m [.made p, .settled p (.fulfilled v), .registered p (.resume act),
      .queued p ⟨.resume act, .fulfilled v⟩] later →
    Does n (await v act) m [.made p, .settled p (.fulfilled v), .registered p (.resume act),
      .queued p ⟨.resume act, .fulfilled v⟩] later
  | drains {m deeds later} : Drains n m deeds later → Does n runJobs m deeds later
  | calls {m later callee recv args deeds} : Unfolds m deeds later →
    Does n (call callee recv args) m deeds later

open Ecma.Action (reached?_of_ok reached?_bind_of_ok newPromise_unfolds addReaction_unfolds)

variable {n : Nat} {m later : Machine}

theorem does_react {v onFulfilled onRejected}
    (h : ((react v onFulfilled onRejected).perform n).reached? m = some later) :
    ∃ deeds, Does n (react v onFulfilled onRejected) m deeds later := by
  change Action.reached? ((match m.heap.promiseOf? v with
    | some p => do
      let derived ← Action.newPromise
      Action.addReaction p (.callback onFulfilled onRejected derived)
      return derived
    | none => Action.fail .notPromise) >>= fun _ => pure ()) m = _ at h
  cases hp : m.heap.promiseOf? v with
  | none =>
    rw [hp] at h
    cases h
    exact ⟨[], .refuses hp⟩
  | some p =>
    rw [hp] at h
    obtain ⟨state, hs⟩ := Heap.promise?_of_promiseOf? hp
    obtain ⟨derived, made, hn, hu, -, hkept⟩ := newPromise_unfolds m
    obtain ⟨left, hl, hu'⟩ := addReaction_unfolds made p (.callback onFulfilled onRejected derived)
    dsimp only at h
    rw [bind_assoc, reached?_bind_of_ok hn, bind_assoc, reached?_bind_of_ok hl] at h
    cases h
    rw [Heap.registering_congr (hkept hs)] at hu'
    exact ⟨_, .reacts hp (hu.append hu')⟩

theorem does_await {v act} (h : ((await v act).perform n).reached? m = some later) :
    ∃ deeds, Does n (await v act) m deeds later := by
  change Action.reached? ((match m.heap.promiseOf? v with
    | some p => pure p
    | none => do
      let p ← Action.newPromise
      Action.settle p (.fulfilled v)
      return p) >>= fun p => Action.addReaction p (.resume act)) m = _ at h
  cases hp : m.heap.promiseOf? v with
  | some p =>
    rw [hp] at h
    obtain ⟨left, hl, hu⟩ := addReaction_unfolds m p (.resume act)
    cases (reached?_of_ok hl).symm.trans h
    exact ⟨_, .awaits hp hu⟩
  | none =>
    rw [hp] at h
    obtain ⟨p, made, hn, hu, hpending, -⟩ := newPromise_unfolds m
    have hs : Action.settle p (.fulfilled v) made = _ := Action.settle_of_pending hpending
    have hu' := Unfolds.settle hs
    generalize hm : { made with
      heap := made.heap.setPayload p (.promise (.settled (.fulfilled v)))
      jobs := made.jobs ++ Settlement.jobs (.fulfilled v) [] } = fulfilled at hs hu'
    have hsettled : fulfilled.heap.promise? p = some (.settled (.fulfilled v)) := by
      rw [← hm]
      exact (Heap.promise?_setPayload ..).trans (if_pos ⟨rfl, Heap.lt_of_promise? hpending⟩)
    obtain ⟨left, hl, hu''⟩ := addReaction_unfolds fulfilled p (.resume act)
    dsimp only at h
    rw [bind_assoc, reached?_bind_of_ok hn, bind_assoc, reached?_bind_of_ok hs] at h
    cases (reached?_of_ok hl).symm.trans h
    have hall := hu.append (hu'.append hu'')
    unfold Heap.settling Heap.registering at hall
    rw [hpending, hsettled] at hall
    exact ⟨_, .awaitsValue hp hall⟩

/-- Whatever an operation that ends has done, it did by its deeds. -/
theorem does {operation : PromiseOperation}
    (h : (operation.perform n).reached? m = some later) :
    ∃ deeds, operation.Does n m deeds later := by
  cases operation with
  | make =>
    cases h
    exact ⟨_, .makes (.make rfl)⟩
  | resolve p v =>
    obtain ⟨deeds, left, hl, hu, hr⟩ := Action.resolvePromise_unfolds m p v
    cases (reached?_of_ok hl).symm.trans h
    exact ⟨deeds, .resolves hu hr⟩
  | reject p reason =>
    obtain ⟨left, hl, hu⟩ := Action.settle_unfolds m p (.rejected reason)
    cases (reached?_of_ok hl).symm.trans h
    exact ⟨_, .rejects hu⟩
  | react v onFulfilled onRejected => exact does_react h
  | await v act => exact does_await h
  | runJobs =>
    have hjobs : (Action.runJobs (Action.call n) (Action.run n) 0 n).reached? m = some later := by
      obtain ⟨_, middle, hj, hl⟩ | ⟨_, hj⟩ := Action.reached?_bind h
      · cases hl
        exact reached?_of_ok hj
      · exact Action.reached?_of_raised hj
    obtain ⟨deeds, hd⟩ := Drains.of_reached hjobs
    exact ⟨deeds, .drains hd⟩
  | call callee recv args =>
    have hu : Upholds Law.deeds ((call callee recv args).perform n) := by
      unfold perform
      infer_instance
    obtain ⟨deeds, hu⟩ := (hu.upholds (.lax m) h).rel
    exact ⟨deeds, .calls hu⟩

theorem Does.orderly {operation : PromiseOperation} {deeds}
    (h : operation.Does n m deeds later) : Orderly m deeds later := by
  cases h with
  | makes hu | resolves hu _ | rejects hu | reacts _ hu | awaits _ hu | awaitsValue _ hu
  | calls hu => exact .of_unfolds hu
  | refuses => exact .of_unfolds (.quiet (.refl _))
  | drains hd => exact .of_drains hd

end PromiseOperation

/-! ## Sequences of operations -/

/-- Operations one after the other, whether they fail or not, with the deeds of each. -/
inductive Performs (n : Nat) : Machine → List PromiseOperation → List Deed → Machine → Prop
  | nil {m} : Performs n m [] [] m
  | cons {m middle later operation rest first second} :
    (operation.perform n).reached? m = some middle → operation.Does n m first middle →
    Performs n middle rest second later →
    Performs n m (operation :: rest) (first ++ second) later

/-- Performs operations one after the other, whether they fail or not. -/
def PromiseOperation.performAll (n : Nat) (operations : List PromiseOperation) : Action Unit :=
  operations.forM fun operation => do let _ ← Action.attempt (operation.perform n)

namespace Performs

variable {n : Nat} {m later : Machine} {operations : List PromiseOperation} {deeds : List Deed}

theorem orderly (h : Performs n m operations deeds later) : Orderly m deeds later := by
  induction h with
  | nil => exact .of_unfolds (.quiet (.refl _))
  | cons _ hd _ ih => exact hd.orderly.append ih

/-- Operations that end have the deeds of each one. -/
theorem of_reached (h : (PromiseOperation.performAll n operations).reached? m = some later) :
    ∃ deeds, Performs n m operations deeds later := by
  induction operations generalizing m with
  | nil =>
    cases h
    exact ⟨[], .nil⟩
  | cons operation rest ih =>
    change ((Action.attempt (operation.perform n) >>= fun _ => pure ()) >>= fun _ =>
      PromiseOperation.performAll n rest).reached? m = _ at h
    rw [bind_assoc] at h
    obtain ⟨outcome, middle, he, hl⟩ | ⟨_, he⟩ := Action.reached?_bind h
    · have hreached := Action.reached?_attempt he
      obtain ⟨first, hd⟩ := PromiseOperation.does hreached
      obtain ⟨second, hrest⟩ := ih hl
      exact ⟨first ++ second, .cons hreached hd hrest⟩
    · exact absurd he Action.attempt_ne_raised

end Performs

/-- Whatever is done with promises, and in whatever order, a promise has one course: it settles at
most once and then stays as it is, and each reaction becomes one job, in the order of registration
and with that settlement. Whenever jobs are run, all that wait are taken and run in the order in
which they were queued. -/
theorem promises_settle_once {machine later : Machine} {fuel : Nat}
    {operations : List PromiseOperation}
    (h : (PromiseOperation.performAll fuel operations).reached? machine = some later) :
    ∃ deeds, Performs fuel machine operations deeds later ∧
      (∀ promise, Followed promise machine deeds later) ∧
      deeds.filterMap Deed.began? ++ later.jobs =
        machine.jobs ++ deeds.filterMap Deed.queued? := by
  obtain ⟨deeds, hp⟩ := Performs.of_reached h
  exact ⟨deeds, hp, hp.orderly.followed, hp.orderly.queue⟩

/-- A promise with reactions from before and after it settles: a callback that prints, another
promise that follows it, and one without a callback. -/
theorem promises_settle_once_reacting :
    let operations : List PromiseOperation := [.make,
      .react (.object ⟨38⟩) (.object ⟨37⟩) .undefined, .make, .resolve ⟨40⟩ (.object ⟨38⟩),
      .resolve ⟨38⟩ .null, .resolve ⟨38⟩ .undefined, .react (.object ⟨38⟩) .null .null, .runJobs]
    ∃ later, (PromiseOperation.performAll 20 operations).reached? (.new {}) = some later ∧
      ∃ deeds, Performs 20 (.new {}) operations deeds later ∧
        (∀ promise, Followed promise (.new {}) deeds later) ∧
        deeds.filterMap Deed.began? ++ later.jobs =
          (Machine.new {}).jobs ++ deeds.filterMap Deed.queued? := by
  intro operations
  have hends : ((PromiseOperation.performAll 20 operations).reached? (.new {})).isSome = true := by
    decide +kernel
  obtain ⟨later, h⟩ := Option.isSome_iff_exists.mp hends
  exact ⟨later, h, promises_settle_once h⟩

end Ecma
