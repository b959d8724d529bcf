/-
The course of promises. What is done to promises and jobs is written down deed by deed: a promise
is made, a reaction is registered, a promise settles, a job is queued, a job begins. Whatever a
machine runs, a promise settles at most once, and each of its reactions becomes one job, in the
order of registration.
-/
import Ecma.Proofs.Coroutines
import Mathlib.Data.List.Basic

namespace Ecma

/-! ## Deeds -/

/-- What is done to promises and jobs. -/
inductive Deed where
  | made (p : ObjectRef)
  | registered (p : ObjectRef) (reaction : Reaction)
  | settled (p : ObjectRef) (settlement : Settlement)
  /-- A job that a promise brings about is put at the end of the queue. -/
  | queued (p : ObjectRef) (job : Job)
  /-- The first job is taken out of the queue. -/
  | began (job : Job)

namespace Deed

variable (p : ObjectRef)

def registration? : Deed → Option Reaction
  | registered other reaction => if other = p then some reaction else none
  | _ => none

/-- How a promise settles. -/
def settlement? : Deed → Option Settlement
  | settled other settlement => if other = p then some settlement else none
  | _ => none

/-- The job that a promise brings about. -/
def jobOf? : Deed → Option Job
  | queued other job => if other = p then some job else none
  | _ => none

def queued? : Deed → Option Job
  | queued _ job => some job
  | _ => none

/-- The job that begins. -/
def began? : Deed → Option Job
  | began job => some job
  | _ => none

end Deed

def Heap.promise? (heap : Heap) (ref : ObjectRef) : Option PromiseState :=
  (heap.payload ref).promise?

namespace Heap

variable (heap : Heap) (p : ObjectRef)

/-- The deeds of registering a reaction: it is due at once on a promise that has settled. -/
def registering (reaction : Reaction) : List Deed :=
  match heap.promise? p with
  | some (.pending _) => [.registered p reaction]
  | some (.settled settlement) =>
    [.registered p reaction, .queued p ⟨reaction, settlement⟩]
  | none => []

/-- The deeds of settling a promise: none unless it is pending. -/
def settling (settlement : Settlement) : List Deed :=
  match heap.promise? p with
  | some (.pending reactions) =>
    .settled p settlement :: (settlement.jobs reactions).map (.queued p)
  | some (.settled _) | none => []

end Heap

/-- Promises and jobs are as they were. -/
structure Machine.Undisturbed (m later : Machine) : Prop where
  promises : ∀ ref, later.heap.promise? ref = m.heap.promise? ref
  jobs : later.jobs = m.jobs

/-- A machine becomes another one by deeds, and by what leaves promises and jobs as they are. No job
is taken out of the queue. -/
inductive Unfolds : Machine → List Deed → Machine → Prop
  | quiet {m later} : m.Undisturbed later → Unfolds m [] later
  | make {m later p} : Action.newPromise m = .ok p later →
    Unfolds m [.made p] later
  | register {m later p reaction} :
    Action.addReaction p reaction m = .ok () later →
    Unfolds m (m.heap.registering p reaction) later
  | settle {m later p settlement} :
    Action.settle p settlement m = .ok () later →
    Unfolds m (m.heap.settling p settlement) later
  | append {m middle later first second} : Unfolds m first middle →
    Unfolds middle second later → Unfolds m (first ++ second) later

/-! ## Courses -/

/-- The course of a promise from one state to another, with the reactions that are registered on
the way, its settlements and the jobs that it brings about. -/
inductive Course :
    PromiseState → List Reaction → List Settlement → List Job → PromiseState → Prop
  | pending (reactions added) :
    Course (.pending reactions) added [] [] (.pending (reactions ++ added))
  /-- All reactions, from before and after, become jobs with the one settlement. -/
  | settling (reactions added settlement) :
    Course (.pending reactions) added [settlement] (settlement.jobs (reactions ++ added))
      (.settled settlement)
  | settled (settlement added) :
    Course (.settled settlement) added [] (settlement.jobs added) (.settled settlement)

namespace Course

theorem refl (state : PromiseState) : Course state [] [] [] state := by
  cases state with
  | pending reactions =>
    have h := pending reactions []
    rwa [List.append_nil] at h
  | settled settlement => exact settled settlement []

theorem trans {first second third added added' settlements settlements' jobs jobs'}
    (h : Course first added settlements jobs second)
    (h' : Course second added' settlements' jobs' third) :
    Course first (added ++ added') (settlements ++ settlements') (jobs ++ jobs') third := by
  cases h with
  | pending reactions =>
    cases h' with
    | pending =>
      rw [List.append_assoc]
      exact pending reactions (added ++ added')
    | settling _ _ settlement =>
      rw [List.append_assoc]
      exact settling reactions (added ++ added') settlement
  | settling reactions _ settlement =>
    cases h' with
    | settled =>
      rw [Settlement.jobs, Settlement.jobs, ← List.map_append, List.append_assoc]
      exact settling reactions (added ++ added') settlement
  | settled settlement =>
    cases h' with
    | settled =>
      rw [Settlement.jobs, Settlement.jobs, ← List.map_append]
      exact settled settlement (added ++ added')

end Course

/-- What deeds make of a promise: nothing if it is none in the end; its course, if it was not there
in the beginning, is that of a new promise. -/
structure Followed (p : ObjectRef) (m : Machine) (deeds : List Deed)
    (later : Machine) : Prop where
  stays : (m.heap.promise? p).isSome → (later.heap.promise? p).isSome
  none : later.heap.promise? p = none →
    deeds.filterMap (Deed.registration? p) = [] ∧
      deeds.filterMap (Deed.settlement? p) = [] ∧ deeds.filterMap (Deed.jobOf? p) = []
  course : ∀ state, later.heap.promise? p = some state →
    Course ((m.heap.promise? p).getD (.pending []))
      (deeds.filterMap (Deed.registration? p)) (deeds.filterMap (Deed.settlement? p))
      (deeds.filterMap (Deed.jobOf? p)) state

namespace Followed

variable {p : ObjectRef} {m middle later : Machine} {first second : List Deed}

/-- Deeds that do not concern a promise, which is as it was. -/
theorem of_same (h : later.heap.promise? p = m.heap.promise? p)
    (hr : first.filterMap (Deed.registration? p) = [])
    (hs : first.filterMap (Deed.settlement? p) = [])
    (hj : first.filterMap (Deed.jobOf? p) = []) : Followed p m first later := by
  refine ⟨fun hp => by rwa [h], fun _ => ⟨hr, hs, hj⟩, fun state hp => ?_⟩
  rw [hr, hs, hj, ← h, hp]
  exact Course.refl state

/-- The course of a promise that is there from the beginning. -/
theorem of_course {before after} (hb : m.heap.promise? p = some before)
    (ha : later.heap.promise? p = some after)
    (h : Course before (first.filterMap (Deed.registration? p))
      (first.filterMap (Deed.settlement? p)) (first.filterMap (Deed.jobOf? p)) after) :
    Followed p m first later := by
  refine ⟨fun _ => by rw [ha]; rfl, fun hn => ?_, fun state hs => ?_⟩
  · rw [ha] at hn
    cases hn
  · obtain rfl : after = state := Option.some.inj (ha.symm.trans hs)
    rw [hb]
    exact h

theorem append (h : Followed p m first middle) (g : Followed p middle second later) :
    Followed p m (first ++ second) later := by
  have hgone : later.heap.promise? p = Option.none → middle.heap.promise? p = Option.none := by
    intro hn
    refine Option.not_isSome_iff_eq_none.mp fun hs => ?_
    have := g.stays hs
    rw [hn] at this
    cases this
  have hnew : middle.heap.promise? p = Option.none → m.heap.promise? p = Option.none := by
    intro hn
    refine Option.not_isSome_iff_eq_none.mp fun hs => ?_
    have := h.stays hs
    rw [hn] at this
    cases this
  refine ⟨fun hs => g.stays (h.stays hs), fun hn => ?_, fun state hs => ?_⟩ <;>
    simp only [List.filterMap_append]
  · obtain ⟨hr, hset, hj⟩ := h.none (hgone hn)
    obtain ⟨gr, gset, gj⟩ := g.none hn
    exact ⟨by rw [hr, gr]; rfl, by rw [hset, gset]; rfl, by rw [hj, gj]; rfl⟩
  · have hsecond := g.course state hs
    cases hm : middle.heap.promise? p with
    | none =>
      obtain ⟨hr, hset, hj⟩ := h.none hm
      rw [hm] at hsecond
      rw [hr, hset, hj, hnew hm]
      exact hsecond
    | some between =>
      rw [hm] at hsecond
      exact (h.course between hm).trans hsecond

end Followed

/-! ## Single deeds -/

namespace Heap

variable {heap : Heap} {ref : ObjectRef}

theorem promise?_eq_some {state} :
    heap.promise? ref = some state ↔ heap.payload ref = .promise state := by
  unfold promise?
  constructor
  · intro h
    cases hp : heap.payload ref <;> rw [hp] at h <;> cases h
    rfl
  · intro h
    rw [h]
    rfl

theorem promise?_of_le (h : heap.objects.size ≤ ref.index) : heap.promise? ref = none := by
  unfold promise?
  rw [payload_of_le h]
  rfl

theorem promise?_alloc (heap : Heap) (obj : Object) (ref : ObjectRef) :
    (heap.alloc obj).2.promise? ref =
      if ref.index = heap.objects.size then obj.payload.promise? else heap.promise? ref := by
  unfold promise?
  rw [payload_alloc]
  split <;> rfl

theorem promise?_setPayload (heap : Heap) (ref other : ObjectRef) (payload : Payload) :
    (heap.setPayload ref payload).promise? other =
      if other = ref ∧ ref.index < heap.objects.size then payload.promise?
      else heap.promise? other := by
  unfold promise?
  rw [payload_setPayload]
  split <;> rfl

theorem lt_of_promise? {state} (h : heap.promise? ref = some state) :
    ref.index < heap.objects.size := by
  refine Nat.lt_of_not_le fun hn => ?_
  rw [promise?_of_le hn] at h
  cases h

end Heap

namespace Action

variable {m : Machine} {p : ObjectRef} {reaction : Reaction} {settlement : Settlement}

theorem addReaction_of_pending {reactions : List Reaction}
    (h : m.heap.promise? p = some (.pending reactions)) : addReaction p reaction m = .ok () { m with
      heap := m.heap.setPayload p (.promise (.pending (reactions ++ [reaction]))) } := by
  rw [addReaction, payload_bind_apply, Heap.promise?_eq_some.mp h]
  rfl

theorem addReaction_of_settled (h : m.heap.promise? p = some (.settled settlement)) :
    addReaction p reaction m = .ok () { m with jobs := m.jobs ++ [⟨reaction, settlement⟩] } := by
  rw [addReaction, payload_bind_apply, Heap.promise?_eq_some.mp h]
  rfl

theorem addReaction_of_none (h : m.heap.promise? p = none) :
    addReaction p reaction m = .ok () m := by
  rw [addReaction, payload_bind_apply]
  unfold Heap.promise? at h
  cases hp : m.heap.payload p <;> rw [hp] at h <;> first | rfl | cases h

theorem settle_of_pending {reactions : List Reaction}
    (h : m.heap.promise? p = some (.pending reactions)) : settle p settlement m = .ok () { m with
      heap := m.heap.setPayload p (.promise (.settled settlement))
      jobs := m.jobs ++ settlement.jobs reactions } := by
  rw [settle, payload_bind_apply, Heap.promise?_eq_some.mp h]
  rfl

theorem settle_of_settled {other : Settlement} (h : m.heap.promise? p = some (.settled other)) :
    settle p settlement m = .ok () m := by
  rw [settle, payload_bind_apply, Heap.promise?_eq_some.mp h]
  rfl

theorem settle_of_none (h : m.heap.promise? p = none) : settle p settlement m = .ok () m := by
  rw [settle, payload_bind_apply]
  unfold Heap.promise? at h
  cases hp : m.heap.payload p <;> rw [hp] at h <;> first | rfl | cases h

end Action

namespace Followed

variable {m later : Machine} {p other : ObjectRef}

theorem make (h : Action.newPromise m = .ok p later) : Followed other m [.made p] later := by
  cases h
  by_cases ho : other.index = m.heap.objects.size
  · have hlater := (Heap.promise?_alloc m.heap
      { prototype := some m.realm.promisePrototype, payload := .promise (.pending []) }
      other).trans (if_pos ho)
    have hbefore := Heap.promise?_of_le (Nat.le_of_eq ho.symm)
    refine ⟨fun hs => ?_, fun _ => ⟨rfl, rfl, rfl⟩, fun state hs => ?_⟩
    · rw [hbefore] at hs
      cases hs
    · obtain rfl := Option.some.inj (hlater.symm.trans hs)
      rw [hbefore]
      exact Course.refl _
  · exact of_same ((Heap.promise?_alloc m.heap _ other).trans (if_neg ho)) rfl rfl rfl

theorem register {reaction : Reaction} (h : Action.addReaction p reaction m = .ok () later) :
    Followed other m (m.heap.registering p reaction) later := by
  unfold Heap.registering
  cases hp : m.heap.promise? p with
  | none =>
    rw [Action.addReaction_of_none hp] at h
    cases h
    exact of_same rfl rfl rfl rfl
  | some state =>
    have hrange := Heap.lt_of_promise? hp
    cases state with
    | pending reactions =>
      rw [Action.addReaction_of_pending hp] at h
      cases h
      by_cases ho : other = p
      · subst ho
        refine of_course hp ((Heap.promise?_setPayload ..).trans (if_pos ⟨rfl, hrange⟩)) ?_
        simpa [List.filterMap_cons, Deed.registration?, Deed.settlement?, Deed.jobOf?] using
          Course.pending reactions [reaction]
      · refine of_same ((Heap.promise?_setPayload ..).trans (if_neg fun hn => ho hn.1)) ?_ rfl rfl
        simp [Deed.registration?, Ne.symm ho]
    | settled settlement =>
      rw [Action.addReaction_of_settled hp] at h
      cases h
      by_cases ho : other = p
      · subst ho
        refine of_course hp hp ?_
        simpa [List.filterMap_cons, Deed.registration?, Deed.settlement?, Deed.jobOf?,
          Settlement.jobs] using Course.settled settlement [reaction]
      · refine of_same rfl ?_ rfl ?_ <;> simp [Deed.registration?, Deed.jobOf?, Ne.symm ho]

theorem settle {settlement : Settlement} (h : Action.settle p settlement m = .ok () later) :
    Followed other m (m.heap.settling p settlement) later := by
  unfold Heap.settling
  cases hp : m.heap.promise? p with
  | none =>
    rw [Action.settle_of_none hp] at h
    cases h
    exact of_same rfl rfl rfl rfl
  | some state =>
    have hrange := Heap.lt_of_promise? hp
    cases state with
    | settled =>
      rw [Action.settle_of_settled hp] at h
      cases h
      exact of_same rfl rfl rfl rfl
    | pending reactions =>
      rw [Action.settle_of_pending hp] at h
      cases h
      by_cases ho : other = p
      · subst ho
        refine of_course hp ((Heap.promise?_setPayload ..).trans (if_pos ⟨rfl, hrange⟩)) ?_
        have hcourse := Course.settling reactions [] settlement
        rw [List.append_nil] at hcourse
        simpa [List.filterMap_cons, Function.comp_def, List.filterMap_none, Deed.registration?,
          Deed.settlement?, Deed.jobOf?] using hcourse
      · refine of_same ((Heap.promise?_setPayload ..).trans (if_neg fun hn => ho hn.1)) ?_ ?_ ?_ <;>
          simp [List.filterMap_cons, Function.comp_def, Deed.registration?, Deed.settlement?,
            Deed.jobOf?, Ne.symm ho]

theorem start (m : Machine) (job : Job) (jobs : List Job) :
    Followed other m [.began job] { m with jobs } :=
  of_same rfl rfl rfl rfl

end Followed

namespace Unfolds

variable {m later : Machine} {deeds : List Deed}

theorem followed (h : Unfolds m deeds later) (p : ObjectRef) : Followed p m deeds later := by
  induction h with
  | quiet h => exact .of_same (h.promises p) rfl rfl rfl
  | make h => exact .make h
  | register h => exact .register h
  | settle h => exact .settle h
  | append _ _ ih ih' => exact ih.append ih'

/-- No job begins, and those that are queued come after those that waited. -/
theorem queue (h : Unfolds m deeds later) : deeds.filterMap Deed.began? = [] ∧
      later.jobs = m.jobs ++ deeds.filterMap Deed.queued? := by
  induction h with
  | quiet h => simp [h.jobs]
  | make h =>
    cases h
    simp [List.filterMap_cons, Deed.began?, Deed.queued?]
  | @register m _ p reaction h =>
    unfold Heap.registering
    cases hp : m.heap.promise? p with
    | none =>
      rw [Action.addReaction_of_none hp] at h
      cases h
      simp
    | some state =>
      cases state with
      | pending reactions =>
        rw [Action.addReaction_of_pending hp] at h
        cases h
        simp [List.filterMap_cons, Deed.began?, Deed.queued?]
      | settled settlement =>
        rw [Action.addReaction_of_settled hp] at h
        cases h
        simp [List.filterMap_cons, Deed.began?, Deed.queued?]
  | @settle m _ p settlement h =>
    unfold Heap.settling
    cases hp : m.heap.promise? p with
    | none =>
      rw [Action.settle_of_none hp] at h
      cases h
      simp
    | some state =>
      cases state with
      | settled =>
        rw [Action.settle_of_settled hp] at h
        cases h
        simp
      | pending reactions =>
        rw [Action.settle_of_pending hp] at h
        cases h
        simp [List.filterMap_cons, Function.comp_def, Deed.began?, Deed.queued?]
  | append _ _ ih ih' => simp [ih.1, ih'.1, ih.2, ih'.2]

end Unfolds

/-! ## Everything a machine does -/

namespace Machine.Undisturbed

variable {m later : Machine}

theorem refl (m : Machine) : m.Undisturbed m := ⟨fun _ => rfl, rfl⟩

theorem of_calms (h : m.Calms later) : m.Undisturbed later := by
  refine ⟨fun ref => ?_, h.jobs⟩
  unfold Heap.promise?
  obtain hp | ⟨hp, hp'⟩ := h.heap.payload ref
  · rw [hp]
  · have hcommon : ∀ {payload : Payload}, payload.isCommon = true → payload.promise? = none := by
      intro payload hc
      cases payload <;> first | rfl | cases hc
    rw [hcommon hp, hcommon hp']

theorem alloc (m : Machine) {obj : Object} (h : obj.payload.promise? = none) :
    m.Undisturbed { m with heap := (m.heap.alloc obj).2 } := by
  refine ⟨fun ref => ?_, rfl⟩
  change (m.heap.alloc obj).2.promise? ref = _
  rw [Heap.promise?_alloc]
  split
  · next hr => rw [h, Heap.promise?_of_le (Nat.le_of_eq hr.symm)]
  · rfl

theorem setPayload (m : Machine) {ref : ObjectRef} {payload : Payload}
    (h : m.heap.promise? ref = none) (hp : payload.promise? = none) :
    m.Undisturbed { m with heap := m.heap.setPayload ref payload } := by
  refine ⟨fun other => ?_, rfl⟩
  change (m.heap.setPayload ref payload).promise? other = _
  rw [Heap.promise?_setPayload]
  split
  · next hr => rw [hp, hr.1, h]
  · rfl

end Machine.Undisturbed

theorem Unfolds.nested {m later deeds} (h : Unfolds (Action.enter m) deeds later) :
    Unfolds m deeds (Action.leave later) := by
  have henter : Unfolds m [] (Action.enter m) := .quiet ⟨fun _ => rfl, rfl⟩
  have hleave : Unfolds later [] (Action.leave later) := .quiet ⟨fun _ => rfl, rfl⟩
  have hall := henter.append (h.append hleave)
  rwa [List.nil_append, List.append_nil] at hall

/-- What a machine does to promises and jobs, it does by deeds. -/
def Law.deeds : Law where
  standard := .lax
  rel m later := ∃ deeds, Unfolds m deeds later
  refl m := ⟨[], .quiet (.refl m)⟩
  trans := fun ⟨_, h⟩ ⟨_, g⟩ => ⟨_, h.append g⟩
  nested := fun ⟨_, h⟩ => ⟨_, h.nested⟩
  calm h := ⟨[], .quiet (.of_calms h)⟩
  function m _ _ h := ⟨[], .quiet (.alloc m (by rw [h]; rfl))⟩
  generator m _ _ h := ⟨[], .quiet (.alloc m (by rw [h]; rfl))⟩

instance : Law.deeds.FreesGenerators where
  state m _ _ _ h := ⟨[], .quiet (.setPayload m (by unfold Heap.promise?; rw [h]; rfl) rfl)⟩

theorem Machine.Meets.setPromise {m : Machine} {standard : Standard}
    (h : m.Meets standard) (ref : ObjectRef) (state : PromiseState) :
    Machine.Meets { m with heap := m.heap.setPayload ref (.promise state) } standard :=
  h.setPayload ref trivial

/-- A promise that changes its state stays a promise. -/
theorem Heap.Natures.setPromise {heap : Heap} {ref : ObjectRef} {state : PromiseState}
    (h : heap.promise? ref = some state) (later : PromiseState) :
    heap.Natures (heap.setPayload ref (.promise later)) :=
  .setPayload (by rw [Heap.promise?_eq_some.mp h]; rfl)

instance : Law.deeds.Promises where
  newPromise := by
    refine ⟨fun {m later} hm he => ?_⟩
    cases he
    exact ⟨hm.alloc trivial, .alloc .., _, .make rfl⟩
  settle p settlement := by
    refine ⟨fun {m later} hm he => ?_⟩
    cases hp : m.heap.promise? p with
    | none =>
      rw [Action.reached?_of_ok (Action.settle_of_none hp)] at he
      cases he
      exact .refl hm
    | some state =>
      cases state with
      | settled =>
        rw [Action.reached?_of_ok (Action.settle_of_settled hp)] at he
        cases he
        exact .refl hm
      | pending reactions =>
        have hs : Action.settle p settlement m = _ := Action.settle_of_pending hp
        rw [Action.reached?_of_ok hs] at he
        cases he
        exact ⟨(hm.setPromise p _).of_heap rfl, .setPromise hp _, _, .settle hs⟩
  addReaction p reaction := by
    refine ⟨fun {m later} hm he => ?_⟩
    cases hp : m.heap.promise? p with
    | none =>
      rw [Action.reached?_of_ok (Action.addReaction_of_none hp)] at he
      cases he
      exact .refl hm
    | some state =>
      cases state with
      | settled =>
        have hs : Action.addReaction p reaction m = _ := Action.addReaction_of_settled hp
        rw [Action.reached?_of_ok hs] at he
        cases he
        exact ⟨hm.of_heap rfl, .refl _, _, .register hs⟩
      | pending reactions =>
        have hs : Action.addReaction p reaction m = _ := Action.addReaction_of_pending hp
        rw [Action.reached?_of_ok hs] at he
        cases he
        exact ⟨hm.setPromise p _, .setPromise hp _, _, .register hs⟩
  activation m _ _ _ h := ⟨[], .quiet (.alloc m (by rw [h]; rfl))⟩
  state m _ _ _ _ h := ⟨[], .quiet (.setPayload m (by unfold Heap.promise?; rw [h]; rfl) rfl)⟩

end Ecma
