/-
What becomes of generators while a machine works. Only a resumption changes the state of a
generator, and whatever else is done while one runs leaves it running; so the states of a generator
form a life that ends where it is completed.
-/
import Ecma.Proofs.Sessions
import Mathlib.Logic.Relation

namespace Ecma

/-! ## States -/

def Payload.generator? : Payload → Option GeneratorState
  | .generator state => some state
  | _ => none

def Heap.generator? (heap : Heap) (ref : ObjectRef) : Option GeneratorState :=
  (heap.payload ref).generator?

/-- The frame that a resumption lets go on: throwing and returning do not enter a body that was
not entered yet. -/
def GeneratorState.resumed? : GeneratorState → Resumption → Option Frame
  | .yielded fr, res => some (fr.resume res)
  | .start fr, .next v => some (fr.resume (.next v))
  | .start _, .throw _ | .start _, .finish _ | .running, _ | .completed, _ => none

/-- Where a generator stands once its body has stopped. -/
def GeneratorState.after : Except Exception Exit → GeneratorState
  | .ok (.suspended _ fr) => .yielded fr
  | .ok (.returned _) | .ok (.tailCall ..) | .error _ => .completed

/-- One turn in the life of a generator. Its body runs on a machine where the generator is running,
and it still is when the body stops. -/
inductive Turn (gen : ObjectRef) : GeneratorState → GeneratorState → Prop
  /-- Asked to throw or to return before it was entered, it is completed. -/
  | dismissed (fr : Frame) : Turn gen (.start fr) .completed
  | resumed {state : GeneratorState} {res : Resumption} {fr : Frame} {n : Nat}
    {m later : Machine} {outcome : Except Exception Exit} :
    state.resumed? res = some fr →
    m.heap.generator? gen = some .running →
    Action.attempt (Action.run n fr) m = .ok outcome later →
    later.heap.generator? gen = some .running → Turn gen state (.after outcome)

/-- The turns of a generator from one state to another. -/
abbrev Life (gen : ObjectRef) : GeneratorState → GeneratorState → Prop :=
  Relation.ReflTransGen (Turn gen)

theorem GeneratorState.after_ne_running (outcome : Except Exception Exit) :
    GeneratorState.after outcome ≠ .running := by
  unfold after
  split <;> exact GeneratorState.noConfusion

theorem Turn.ne_running {gen first second} (h : Turn gen first second) : second ≠ .running := by
  cases h with
  | dismissed => nofun
  | resumed => exact GeneratorState.after_ne_running _

/-- A generator that runs makes no turn of its own. -/
theorem Life.of_running {gen state} (h : Life gen .running state) : state = .running := by
  induction h with
  | refl => rfl
  | tail _ turn ih =>
    subst ih
    cases turn with
    | resumed h => cases h

theorem Life.to_running {gen state} (h : Life gen state .running) : state = .running := by
  cases h with
  | refl => rfl
  | tail _ turn => exact absurd rfl turn.ne_running

/-- A generator that is completed makes no turn any more. -/
theorem Life.of_completed {gen state} (h : Life gen .completed state) : state = .completed := by
  induction h with
  | refl => rfl
  | tail _ turn ih =>
    subst ih
    cases turn with
    | resumed h => cases h

/-! ## Heaps -/

theorem Payload.generator?_of_isCommon {payload : Payload} (h : payload.isCommon = true) :
    payload.generator? = none := by
  cases payload <;> first | rfl | cases h

namespace Heap

theorem generator?_eq_some {heap : Heap} {ref state} :
    heap.generator? ref = some state ↔ heap.payload ref = .generator state := by
  unfold generator?
  constructor
  · intro h
    cases hp : heap.payload ref <;> rw [hp] at h <;> cases h
    rfl
  · intro h
    rw [h]
    rfl

theorem generator?_of_le {heap : Heap} {ref : ObjectRef} (h : heap.objects.size ≤ ref.index) :
    heap.generator? ref = none := by
  unfold generator?
  rw [payload_of_le h]
  rfl

theorem lt_of_generator? {heap : Heap} {ref : ObjectRef} {state : GeneratorState}
    (h : heap.generator? ref = some state) : ref.index < heap.objects.size := by
  refine Nat.lt_of_not_le fun hn => ?_
  rw [generator?_of_le hn] at h
  cases h

theorem generator?_alloc (heap : Heap) (obj : Object) (ref : ObjectRef) :
    (heap.alloc obj).2.generator? ref = if ref.index = heap.objects.size then obj.payload.generator?
      else heap.generator? ref := by
  unfold generator?
  rw [payload_alloc]
  split <;> rfl

theorem generator?_setPayload (heap : Heap) (ref other : ObjectRef) (payload : Payload) :
    (heap.setPayload ref payload).generator? other =
      if other = ref ∧ ref.index < heap.objects.size then payload.generator?
      else heap.generator? other := by
  unfold generator?
  rw [payload_setPayload]
  split <;> rfl

theorem setPayload_setPayload (heap : Heap) (ref : ObjectRef) (first second : Payload) :
    (heap.setPayload ref first).setPayload ref second = heap.setPayload ref second := by
  simp only [setPayload, modifyObject, mk.injEq, and_true]
  refine Array.ext_getElem? fun index => ?_
  simp only [Array.getElem?_modify]
  split
  · simp [Function.comp_def]
  · rfl

/-- The generators of a heap have lived on in another one. -/
structure Ages (first second : Heap) : Prop where
  size : first.objects.size ≤ second.objects.size
  /-- Nothing else becomes a generator. -/
  other : ∀ ref, ref.index < first.objects.size → first.generator? ref = none →
    second.generator? ref = none
  life : ∀ ref state, first.generator? ref = some state →
    ∃ later, second.generator? ref = some later ∧ Life ref state later
  /-- A new generator is not left running. -/
  fresh : ∀ ref, first.objects.size ≤ ref.index → second.generator? ref ≠ some .running

namespace Ages

variable {first second third : Heap}

/-- Nothing happens to the generators that are there. -/
theorem of_kept (size : first.objects.size ≤ second.objects.size)
    (kept : ∀ ref, ref.index < first.objects.size → second.generator? ref = first.generator? ref)
    (fresh : ∀ ref, first.objects.size ≤ ref.index → second.generator? ref ≠ some .running) :
    first.Ages second where
  size := size
  other ref hr hn := (kept ref hr).trans hn
  life ref state hs := ⟨state, (kept ref (lt_of_generator? hs)).trans hs, .refl⟩
  fresh := fresh

theorem of_same (size : first.objects.size ≤ second.objects.size)
    (h : ∀ ref, second.generator? ref = first.generator? ref) : first.Ages second :=
  of_kept size (fun ref _ => h ref) fun ref hr => by rw [h, generator?_of_le hr]; nofun

theorem refl (heap : Heap) : heap.Ages heap := of_same .refl fun _ => rfl

theorem trans (h : first.Ages second) (g : second.Ages third) : first.Ages third where
  size := Nat.le_trans h.size g.size
  other ref hr hn := g.other ref (Nat.lt_of_lt_of_le hr h.size) (h.other ref hr hn)
  life ref state hs := by
    obtain ⟨middle, hm, hl⟩ := h.life ref state hs
    obtain ⟨later, hg, hl'⟩ := g.life ref middle hm
    exact ⟨later, hg, hl.trans hl'⟩
  fresh ref hr := by
    by_cases hs : ref.index < second.objects.size
    · cases hm : second.generator? ref with
      | none => rw [g.other ref hs hm]; nofun
      | some middle =>
        obtain ⟨later, hg, hl⟩ := g.life ref middle hm
        rw [hg]
        intro he
        obtain rfl : later = .running := Option.some.inj he
        exact h.fresh ref hr (by rw [hm, hl.to_running])
    · exact g.fresh ref (Nat.le_of_not_lt hs)

theorem of_calms (h : first.Calms second) : first.Ages second := by
  refine of_same h.size fun ref => ?_
  unfold generator?
  obtain hp | ⟨hp, hp'⟩ := h.payload ref
  · rw [hp]
  · rw [Payload.generator?_of_isCommon hp, Payload.generator?_of_isCommon hp']

theorem alloc (heap : Heap) {obj : Object} (h : obj.payload.generator? ≠ some .running) :
    heap.Ages (heap.alloc obj).2 := by
  refine of_kept (by simp [size_alloc]) (fun ref hr => ?_) (fun ref hr => ?_) <;>
    rw [generator?_alloc]
  · rw [if_neg (Nat.ne_of_lt hr)]
  · split
    · exact h
    · rw [generator?_of_le hr]
      nofun

theorem setPayload {heap : Heap} {ref : ObjectRef} (h : heap.generator? ref = none)
    {payload : Payload} (hp : payload.generator? = none) :
    heap.Ages (heap.setPayload ref payload) := by
  refine of_same (Nat.le_of_eq (size_setPayload ..).symm) fun other => ?_
  rw [generator?_setPayload]
  split
  · next hr => rw [hp, hr.1, h]
  · rfl

theorem running (h : first.Ages second) {ref : ObjectRef}
    (hr : first.generator? ref = some .running) : second.generator? ref = some .running := by
  obtain ⟨later, hg, hl⟩ := h.life ref _ hr
  rw [hg, hl.of_running]

theorem completed (h : first.Ages second) {ref : ObjectRef}
    (hr : first.generator? ref = some .completed) : second.generator? ref = some .completed := by
  obtain ⟨later, hg, hl⟩ := h.life ref _ hr
  rw [hg, hl.of_completed]

/-- Changing the state of a generator is a turn of it: the turn that began with the generator set
to run and ends with another state. -/
theorem turn {heap later : Heap} {gen first second} (hs : heap.generator? gen = some first)
    (ht : Turn gen first second) (h : (heap.setPayload gen (.generator .running)).Ages later) :
    heap.Ages (later.setPayload gen (.generator second)) := by
  have hsize : (heap.setPayload gen (.generator .running)).objects.size =
      heap.objects.size := size_setPayload ..
  have hrange := lt_of_generator? hs
  have hbefore : ∀ ref, ref ≠ gen →
      (heap.setPayload gen (.generator .running)).generator? ref = heap.generator? ref :=
    fun ref hr => by rw [generator?_setPayload, if_neg (fun hn => hr hn.1)]
  have hafter : ∀ ref, ref ≠ gen →
      (later.setPayload gen (.generator second)).generator? ref = later.generator? ref :=
    fun ref hr => by rw [generator?_setPayload, if_neg (fun hn => hr hn.1)]
  have hle : heap.objects.size ≤ later.objects.size := hsize ▸ h.size
  refine ⟨?_, fun ref hr hn => ?_, fun ref state hr => ?_, fun ref hr => ?_⟩
  · rwa [size_setPayload]
  · have hne : ref ≠ gen := by rintro rfl; rw [hs] at hn; cases hn
    rw [hafter ref hne]
    exact h.other ref (by rwa [hsize]) (by rwa [hbefore ref hne])
  · by_cases hne : ref = gen
    · subst hne
      obtain rfl : first = state := Option.some.inj (hs.symm.trans hr)
      exact ⟨second, by rw [generator?_setPayload, if_pos ⟨rfl, by omega⟩]; rfl, .single ht⟩
    · rw [hafter ref hne]
      exact h.life ref state (by rwa [hbefore ref hne])
  · have hne : ref ≠ gen := by rintro rfl; omega
    rw [hafter ref hne]
    exact h.fresh ref (by rwa [hsize])

theorem dismissed {heap : Heap} {gen : ObjectRef} {fr : Frame}
    (hs : heap.generator? gen = some (.start fr)) :
    heap.Ages (heap.setPayload gen (.generator .completed)) := by
  have h := turn hs (.dismissed fr) (refl _)
  rwa [setPayload_setPayload] at h

end Ages

end Heap

/-! ## Everything a machine does -/

/-- Generators live on, whatever a machine does. -/
def Law.aging : Law where
  standard := .lax
  rel m later := m.heap.Ages later.heap
  refl m := .refl m.heap
  trans := .trans
  nested := id
  calm h := .of_calms h.heap
  function m _ _ h := .alloc m.heap (by rw [h]; nofun)
  generator m _ _ h := .alloc m.heap (by rw [h]; nofun)

instance : Law.aging.FreesPromises where
  promise m _ _ h := .alloc m.heap (by rw [h]; nofun)
  settled m _ _ _ h := .setPayload (by unfold Heap.generator?; rw [h]; rfl) rfl
  jobs m _ := .refl m.heap
  activation m _ _ _ h := .alloc m.heap (by rw [h]; nofun)
  state m _ _ _ _ h := .setPayload (by unfold Heap.generator?; rw [h]; rfl) rfl

namespace Action

variable {n : Nat} [hr : Runner.Upholds Law.aging (run n)] {gen : ObjectRef}
  {state : GeneratorState} {res : Resumption} {m later : Machine}

/-- The states that a generator goes through while its body runs are a turn of it. -/
theorem continueGenerator_reached {fr : Frame} (hs : m.heap.generator? gen = some state)
    (hf : state.resumed? res = some (fr.resume res))
    (h : (continueGenerator (run n) gen fr res).reached? m = some later) :
    m.heap.Ages later.heap := by
  let begun := { m with heap := m.heap.setPayload gen (.generator .running) }
  have hbegun : begun.heap.generator? gen = some .running := by
    rw [Heap.generator?_setPayload, if_pos ⟨rfl, Heap.lt_of_generator? hs⟩]
    rfl
  have hrun : Upholds Law.aging (run n (fr.resume res)) := hr.runs trivial
  have hattempt : Upholds Law.aging (attempt (run n (fr.resume res))) := inferInstance
  change (attempt (run n (fr.resume res)) >>= _).reached? begun = some later at h
  obtain ⟨outcome, stopped, he, h⟩ | ⟨_, he⟩ := reached?_bind h
  · have hlives : begun.heap.Ages stopped.heap := (hattempt.of_ok (.lax begun) he).rel
    have hturn : Turn gen state (.after outcome) := .resumed hf hbegun he (hlives.running hbegun)
    cases outcome with
    | error exception => cases h; exact .turn hs hturn hlives
    | ok exit =>
      cases exit with
      | suspended v waiting | tailCall callee recv args => cases h; exact .turn hs hturn hlives
      | returned v =>
        obtain ⟨r, answered, hr, h⟩ | ⟨_, hr⟩ := reached?_bind h
        · cases h
          have hresult : Upholds Law.aging (iterResult v true) := inferInstance
          exact .turn hs hturn (hlives.trans (hresult.of_ok (.lax stopped) hr).rel)
        · cases hr
  · exact absurd he attempt_ne_raised

/-- The states that a generator goes through in a resumption are turns of it. -/
theorem resumeState_reached (hs : m.heap.generator? gen = some state)
    (h : (resumeState (run n) gen res state).reached? m = some later) : m.heap.Ages later.heap := by
  have hanswer : ∀ {first last : Machine},
      (answerCompleted res).reached? first = some last → first.heap.Ages last.heap := by
    intro first last he
    have hu : Upholds Law.aging (answerCompleted res) := inferInstance
    exact (hu.upholds (.lax first) he).rel
  have hdismissed : ∀ fr, state = .start fr →
      (setGenerator gen .completed >>= fun _ => answerCompleted res).reached? m =
        some later → m.heap.Ages later.heap := by
    rintro fr rfl h
    obtain ⟨_, middle, he, h⟩ | ⟨_, he⟩ := reached?_bind h
    · cases he
      exact (Heap.Ages.dismissed hs).trans (hanswer h)
    · cases he
  cases state with
  | running => cases h; exact .refl _
  | completed => exact hanswer h
  | yielded fr => exact continueGenerator_reached hs rfl h
  | start fr =>
    cases res with
    | next v => exact continueGenerator_reached hs rfl h
    | throw v | finish v => exact hdismissed fr rfl h

/-- Resuming a generator is a turn of it, or nothing. -/
theorem resumeGenerator_reached {recv : Value}
    (h : (resumeGenerator (run n) recv res).reached? m = some later) : m.heap.Ages later.heap := by
  cases recv with
  | object ref =>
    change Action.reached? (match m.heap.payload ref with
      | .generator state => nested (resumeState (run n) ref res state)
      | _ => fail .notGenerator) m = _ at h
    cases hp : m.heap.payload ref with
    | generator state =>
      rw [hp] at h
      obtain rfl | ⟨left, hl, rfl⟩ := reached?_nested h
      · exact .refl _
      · have hs : (enter m).heap.generator? ref = some state := Heap.generator?_eq_some.mpr hp
        have hages : (enter m).heap.Ages left.heap := resumeState_reached hs hl
        exact hages
    | _ =>
      rw [hp] at h
      cases h
      exact .refl _
  | _ =>
    cases h
    exact .refl _

end Action

instance : Law.aging.Complete where
  promiseOf := inferInstance
  rejectedPromise := inferInstance
  promiseThen := inferInstance
  resumeGenerator {n} _ recv res := by
    refine ⟨fun {m later} hm he => ⟨.lax later, ?_, Action.resumeGenerator_reached he⟩⟩
    have hnatures : Upholds (Law.trivial .lax) (Action.resumeGenerator (Action.run n) recv res) :=
      Action.resumeGenerator_upholds recv res
    exact (hnatures.upholds (.lax m) he).natures
  startAsync _ _ callee _ recv args h hk := Action.startAsync_upholds callee recv args h hk

end Ecma
