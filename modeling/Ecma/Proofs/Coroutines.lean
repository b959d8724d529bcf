/-
Laws and functions that can be suspended. A law that leaves the states of generators free is upheld
by resuming one, and a law that single changes of promises and activations uphold is upheld by
asynchronous functions and by jobs.
-/
import Ecma.Proofs.Upkeep

namespace Ecma

variable {law : Law}

/-! ## Generators -/

/-- A law that says nothing about the states of generators. -/
class Law.FreesGenerators (law : Law) : Prop where
  state : ∀ (m : Machine) {ref : ObjectRef} {first : GeneratorState} (second : GeneratorState),
    m.heap.payload ref = .generator first →
      law.rel m { m with heap := m.heap.setPayload ref (.generator second) }

abbrev Standard.AdmitsState (standard : Standard) (state : GeneratorState) : Prop :=
  standard.Admits (.generator state)

namespace Action

instance answerCompleted_upholds (res : Resumption) : Upholds law (answerCompleted res) := by
  cases res <;> dsimp only [answerCompleted] <;> infer_instance

section

variable [hg : law.FreesGenerators] {gen : ObjectRef}

theorem setGenerator_upholds (state : GeneratorState) (h : law.standard.AdmitsState state) :
    UpholdsFrom law (Payload.Nature.generator.At gen) (setGenerator gen state) := by
  refine ⟨fun {m later} hs hm he => ?_⟩
  cases he
  have hp : ∃ first, m.heap.payload gen = .generator first := by
    unfold Payload.Nature.At at hs
    cases hp : m.heap.payload gen <;> rw [hp] at hs <;> first | exact ⟨_, rfl⟩ | cases hs
  obtain ⟨first, hp⟩ := hp
  exact ⟨hm.setPayload _ h, .setPayload hs.symm, hg.state m state hp⟩

variable {run : Runner} [hr : Runner.Upholds law run]

theorem continueGenerator_upholds {fr} (h : law.standard.frame fr)
    (hk : law.standard.kinds → fr.code.kind = .generator) (res : Resumption) :
    UpholdsFrom law (Payload.Nature.generator.At gen) (continueGenerator run gen fr res) := by
  have hf := law.standard.resume res h
  have := hr.runs hf
  refine .bind_nature (by nofun) (setGenerator_upholds _ (by trivial)) fun _ => ?_
  refine .bind_nature_gives (fun h => by cases h) inferInstance (attempt_gives (hr.stays hf))
    fun outcome ho => ?_
  split
  · next v kept =>
    obtain ⟨hkept, hcode⟩ := ho _ rfl
    have hadmits : law.standard.AdmitsState (.yielded kept) := ⟨hkept, by rw [hcode]; exact hk⟩
    exact (setGenerator_upholds _ hadmits).bind fun _ => inferInstance
  · exact .bind_nature (by nofun) (Upholds.anywhere inferInstance) fun _ =>
      (setGenerator_upholds _ (by trivial)).bind fun _ => inferInstance
  · exact (setGenerator_upholds _ (by trivial)).bind fun _ => inferInstance
  · exact (setGenerator_upholds _ (by trivial)).bind fun _ => inferInstance

theorem resumeState_upholds {state} (h : law.standard.AdmitsState state) (res : Resumption) :
    UpholdsFrom law (Payload.Nature.generator.At gen) (resumeState run gen res state) := by
  have hdismiss : UpholdsFrom law (Payload.Nature.generator.At gen)
      (setGenerator gen .completed >>= fun _ => answerCompleted res) :=
    (setGenerator_upholds _ (by trivial)).bind fun _ => inferInstance
  cases state with
  | running => exact Upholds.anywhere (.fail _)
  | completed => exact Upholds.anywhere (answerCompleted_upholds res)
  | yielded fr => exact continueGenerator_upholds h.1 h.2 res
  | start fr =>
    cases res with
    | next v => exact continueGenerator_upholds h.1 h.2 _
    | _ => exact hdismiss

theorem resumeGenerator_upholds (recv : Value) (res : Resumption) :
    Upholds law (resumeGenerator run recv res) := by
  unfold resumeGenerator
  split
  · next ref =>
    refine .payload fun payload hp => ?_
    split
    · next state =>
      refine .nested (fun m hs => ?_) (resumeState_upholds hp res)
      exact congrArg Payload.nature hs
    · exact Upholds.anywhere inferInstance
  · infer_instance

end

end Action

/-! ## Promises and activations -/

/-- A law that each change of a promise upholds, and that says nothing about activations. -/
class Law.Promises (law : Law) : Prop where
  newPromise : Upholds law Action.newPromise
  settle : ∀ p settlement, Upholds law (Action.settle p settlement)
  addReaction : ∀ p reaction, Upholds law (Action.addReaction p reaction)
  activation : ∀ (m : Machine) {obj : Object} {fr p},
    obj.payload = .activation fr p →
      law.rel m { m with heap := (m.heap.alloc obj).2 }
  state : ∀ (m : Machine) {ref : ObjectRef} {p first} (second : Option Frame),
    m.heap.payload ref = .activation first p →
      law.rel m { m with heap := m.heap.setPayload ref (.activation second p) }

attribute [instance] Law.Promises.newPromise Law.Promises.settle Law.Promises.addReaction

/-- A law that taking a job upholds, too. -/
class Law.TakesJobs (law : Law) : Prop extends law.Promises where
  nextJob : Upholds law Action.nextJob

attribute [instance] Law.TakesJobs.nextJob

/-- A law that says nothing about promises, jobs and activations. -/
class Law.FreesPromises (law : Law) : Prop where
  promise : ∀ (m : Machine) {obj : Object} {state},
    obj.payload = .promise state →
      law.rel m { m with heap := (m.heap.alloc obj).2 }
  settled : ∀ (m : Machine) {ref : ObjectRef} {first} (second : PromiseState),
    m.heap.payload ref = .promise first →
      law.rel m { m with heap := m.heap.setPayload ref (.promise second) }
  jobs : ∀ (m : Machine) (jobs : List Job), law.rel m { m with jobs }
  activation : ∀ (m : Machine) {obj : Object} {fr p},
    obj.payload = .activation fr p →
      law.rel m { m with heap := (m.heap.alloc obj).2 }
  state : ∀ (m : Machine) {ref : ObjectRef} {p first} (second : Option Frame),
    m.heap.payload ref = .activation first p →
      law.rel m { m with heap := m.heap.setPayload ref (.activation second p) }

/-- What says nothing about promises is upheld by all their changes. -/
instance Law.FreesPromises.promises [h : law.FreesPromises] : law.Promises := by
  have henqueue : ∀ jobs, Upholds law (Action.enqueue jobs) := fun jobs =>
    ⟨fun hm he => by cases he; exact ⟨hm.of_heap rfl, .refl _, h.jobs _ _⟩⟩
  have hset : ∀ {ref first} (second : PromiseState),
      UpholdsFrom law (fun m => m.heap.payload ref = .promise first)
        (Action.change fun heap => heap.setPayload ref (.promise second)) := fun second =>
    ⟨fun hp hm he => by
      cases he
      exact ⟨hm.setPayload _ trivial, .setPayload (by rw [hp]; rfl), h.settled _ second hp⟩⟩
  refine ⟨?_, fun p settlement => ?_, fun p reaction => ?_, h.activation, h.state⟩
  · exact ⟨fun hm he => by cases he; exact ⟨hm.alloc trivial, .alloc .., h.promise _ rfl⟩⟩
  · refine .payload fun payload _ => ?_
    split
    · exact (hset _).bind fun _ => inferInstance
    · exact Upholds.anywhere inferInstance
  · refine .payload fun payload _ => ?_
    split
    · exact hset _
    all_goals exact Upholds.anywhere inferInstance

instance Law.FreesPromises.takesJobs [h : law.FreesPromises] : law.TakesJobs where
  nextJob := by
    refine ⟨fun {m later} hm he => ?_⟩
    cases hjobs : m.jobs with
    | nil =>
      rw [Action.reached?_of_ok (Action.nextJob_of_nil hjobs)] at he
      cases he
      exact .refl hm
    | cons job jobs =>
      rw [Action.reached?_of_ok (Action.nextJob_of_cons hjobs)] at he
      cases he
      exact ⟨hm.of_heap rfl, .refl _, h.jobs m jobs⟩

namespace Action

section

variable [hp : law.Promises]

instance {v} : Upholds law (promise? v) := .look _

instance {p reason} : Upholds law (rejectPromise p reason) := hp.settle _ _

instance {p v} : Upholds law (resolvePromise p v) := by
  unfold resolvePromise
  refine .next fun other => ?_
  split <;> infer_instance

instance {v} : Upholds law (promiseOf v) := by
  unfold promiseOf
  refine .next fun other => ?_
  split <;> infer_instance

instance {reason} : Upholds law (rejectedPromise reason) := by
  unfold rejectedPromise
  infer_instance

instance {v onFulfilled onRejected} : Upholds law (promiseThen v onFulfilled onRejected) := by
  unfold promiseThen
  refine .next fun other => ?_
  split <;> infer_instance

instance {p outcome} : Upholds law (settleWith p outcome) := by
  unfold settleWith
  split <;> infer_instance

theorem setActivation_upholds {act p} (fr : Option Frame)
    (h : law.standard.Admits (.activation fr p)) :
    UpholdsFrom law ((Payload.Nature.activation p).At act)
      (change fun heap => heap.setPayload act (.activation fr p)) := by
  refine ⟨fun {m later} hs hm he => ?_⟩
  cases he
  have hfirst : ∃ first, m.heap.payload act = .activation first p := by
    unfold Payload.Nature.At at hs
    cases hp : m.heap.payload act <;> rw [hp] at hs <;> cases hs
    exact ⟨_, rfl⟩
  obtain ⟨first, hfirst⟩ := hfirst
  exact ⟨hm.setPayload _ h, .setPayload hs.symm, hp.state m fr hfirst⟩

variable {call : Caller} [Caller.Upholds law call] {run : Runner} [hr : Runner.Upholds law run]
  {act : ObjectRef}

theorem afterActivation_upholds {p outcome} (h : ∀ exit, outcome = .ok exit → exit.Has fun kept =>
        law.standard.frame kept ∧ (law.standard.kinds → kept.code.kind.isAsync = true)) :
    UpholdsFrom law ((Payload.Nature.activation p).At act)
      (afterActivation call act p outcome) := by
  unfold afterActivation
  split
  · next awaited fr =>
    have hadmits : law.standard.Admits (.activation (some fr) p) := h _ rfl
    refine (setActivation_upholds _ hadmits).bind fun _ => ?_
    split <;> infer_instance
  all_goals exact Upholds.anywhere inferInstance

theorem resumeActivation_upholds (res : Option Resumption) :
    Upholds law (resumeActivation call run act res) := by
  refine .payload fun payload hadmits => ?_
  split
  · next fr p =>
    have hf : law.standard.frame ((res.map fr.resume).getD fr) ∧
        ((res.map fr.resume).getD fr).code = fr.code := by
      cases res with
      | none => exact ⟨hadmits.1, rfl⟩
      | some res => exact ⟨law.standard.resume res hadmits.1, rfl⟩
    have := hr.runs hf.1
    have hkept : Gives (Exit.Has fun kept => law.standard.frame kept ∧
        (law.standard.kinds → kept.code.kind.isAsync = true))
        (run ((res.map fr.resume).getD fr)) :=
      ⟨fun he => Exit.Has.imp (fun kept hk => ⟨hk.1, by rw [hk.2, hf.2]; exact hadmits.2⟩)
        ((hr.stays hf.1).gives he)⟩
    have hrest : UpholdsFrom law ((Payload.Nature.activation p).At act)
        (change (fun heap => heap.setPayload act (.activation none p)) >>= fun _ =>
          attempt (nested (run ((res.map fr.resume).getD fr))) >>= fun outcome =>
          afterActivation call act p outcome) :=
      .bind_nature (fun h => by cases h) (setActivation_upholds _ (by trivial)) fun _ =>
        .bind_nature_gives (fun h => by cases h) inferInstance (attempt_gives hkept.nested) fun _ ho =>
          afterActivation_upholds ho
    exact ⟨fun hp hm he => hrest.upholds (congrArg Payload.nature hp) hm he⟩
  all_goals exact Upholds.anywhere inferInstance

theorem startAsync_upholds (callee : ObjectRef) {closure} (recv : Value) (args : List Value)
    (h : law.standard.code closure.code) (hk : closure.code.kind.isAsync = true) :
    Upholds law (startAsync call run callee closure recv args) := by
  refine .next fun p => ?_
  refine .bind_gives inferInstance (newFrame_gives h callee recv args) fun fr hf => ?_
  have halloc : Upholds law (alloc { payload := .activation (some fr) p }) := by
    refine ⟨fun {m later} hm he => ?_⟩
    cases he
    exact ⟨hm.alloc ⟨hf.1, fun _ => by rw [hf.2]; exact hk⟩, .alloc .., hp.activation m rfl⟩
  refine @Upholds.bind _ _ _ _ _ halloc fun act => ?_
  exact @Upholds.bind _ _ _ _ _ (resumeActivation_upholds none) fun _ => inferInstance

/-! ## Jobs -/

instance {job} : Upholds law (runJob call run job) := by
  have := fun act res =>
    @resumeActivation_upholds law _ call _ run _ act res
  unfold runJob
  split <;> infer_instance

end

instance runJobs_upholds [law.TakesJobs] {call : Caller} [Caller.Upholds law call] {run : Runner}
    [Runner.Upholds law run] (count n : Nat) : Upholds law (runJobs call run count n) := by
  induction n generalizing count with
  | zero => exact .stop _
  | succ n ih =>
    unfold runJobs
    refine .next fun job => ?_
    split <;> infer_instance

end Action

/-- A law that promises uphold, and that leaves generators free, is upheld by all functions. -/
instance Law.Promises.complete [law.Promises] [law.FreesGenerators] : law.Complete where
  promiseOf := inferInstance
  rejectedPromise := inferInstance
  promiseThen := inferInstance
  resumeGenerator _ := Action.resumeGenerator_upholds
  startAsync _ _ callee _ recv args h hk := Action.startAsync_upholds callee recv args h hk

/-- The law that asks for a standard only. What upholds it leaves all objects of their nature. -/
def Law.trivial (standard : Standard) : Law where
  standard := standard
  rel _ _ := True
  refl _ := True.intro
  trans _ _ := True.intro
  nested _ := True.intro
  calm _ := True.intro
  function _ _ _ _ := True.intro
  generator _ _ _ _ := True.intro

instance {standard} : (Law.trivial standard).FreesGenerators :=
  ⟨fun _ _ _ _ _ => True.intro⟩

instance {standard} : (Law.trivial standard).FreesPromises :=
  ⟨fun _ _ _ _ => True.intro, fun _ _ _ _ _ => True.intro, fun _ _ => True.intro,
    fun _ _ _ _ _ => True.intro, fun _ _ _ _ _ _ => True.intro⟩

end Ecma
