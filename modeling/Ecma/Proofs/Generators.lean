/-
The protocol of generators. Code behind the prologue of a generator function runs only while a call
resumes a generator that is running; a resumption of a generator that runs fails and one of a
generator that is completed answers, and both leave it as it is.
-/
import Ecma.Proofs.Supervision

namespace Ecma

/-- The resumption that a function of the machine asks a generator for. -/
def Builtin.resumption? (builtin : Builtin) (args : List Value) : Option Resumption :=
  match builtin with
  | .generatorNext => some (.next (args[0]?.getD .undefined))
  | .generatorThrow => some (.throw (args[0]?.getD .undefined))
  | .generatorReturn => some (.finish (args[0]?.getD .undefined))
  | _ => none

/-! ## Answers -/

/-- A machine after a new result of an iterator came up, and nothing else. -/
structure Machine.Presents (m : Machine) (r : ObjectRef) (v : Value)
    (later : Machine) : Prop where
  calms : m.Calms later
  value : later.heap.getOwn? r (.string "value") = some v
  done : later.heap.getOwn? r (.string "done") = some (.boolean true)

/-- What a generator that is completed answers. -/
inductive Answered (m : Machine) : Resumption → EStateM.Result Stop Machine Value → Prop
  | next {r later} (v : Value) : m.Presents r .undefined later →
    Answered m (.next v) (.ok (.object r) later)
  | finish {r later} (v : Value) : m.Presents r v later →
    Answered m (.finish v) (.ok (.object r) later)
  | throw (v : Value) : Answered m (.throw v) (.error (.raised (.ofValue v)) m)

theorem Heap.object_set {heap : Heap} {ref : ObjectRef} {obj : Object} {key : PropertyKey}
    {v : Value} (ho : heap.object ref = obj) (hr : ref.index < heap.objects.size)
    (hs : obj.canSet key v = true) : (heap.set ref key v).2.object ref = obj.set key v := by
  unfold Heap.set
  rw [ho, if_pos hs]
  dsimp only
  rw [object_modifyObject, if_pos ⟨rfl, hr⟩, ho]

theorem Heap.object_set_of_ne {heap : Heap} {ref other : ObjectRef} (h : ref.index ≠ other.index)
    (key : PropertyKey) (v : Value) : (heap.set ref key v).2.object other = heap.object other := by
  unfold Heap.set
  split
  · exact (object_modifyObject ..).trans (if_neg fun hn => h hn.1)
  · rfl

theorem Heap.size_set (heap : Heap) (ref : ObjectRef) (key : PropertyKey) (v : Value) :
    (heap.set ref key v).2.objects.size = heap.objects.size := by
  unfold Heap.set
  split
  · simp [modifyObject]
  · rfl

namespace Action

theorem iterResult_spec (m : Machine) (v : Value) (done : Bool) :
    ∃ r later, iterResult v done m = .ok (.object r) later ∧ m.Calms later ∧
      later.heap.getOwn? r (.string "value") = some v ∧
      later.heap.getOwn? r (.string "done") = some (.boolean done) ∧
      ∀ ref, ref.index < m.heap.objects.size → later.heap.object ref = m.heap.object ref := by
  let r : ObjectRef := ⟨m.heap.objects.size⟩
  let plain : Object := { prototype := some m.realm.objectPrototype }
  let first := (m.heap.alloc plain).2
  let second := (first.set r (.string "value") v).2
  let third := (second.set r (.string "done") (.boolean done)).2
  have hfirst : first.object r = plain := by
    rw [Heap.object_alloc, if_pos rfl]
  have hrange : r.index < first.objects.size := by
    rw [Heap.size_alloc]
    exact Nat.lt_succ_self _
  have hsecond : second.object r = plain.set (.string "value") v :=
    Heap.object_set hfirst hrange rfl
  have hthird : third.object r =
      (plain.set (.string "value") v).set (.string "done") (.boolean done) :=
    Heap.object_set hsecond (by rwa [Heap.size_set]) rfl
  refine ⟨r, { m with heap := third }, rfl, .ofHeap ?_, ?_, ?_, fun ref hr => ?_⟩
  · have hcalm := (inferInstance : Heap.CalmMove fun heap => heap.set r (.string "value") v)
    have hcalm' := (inferInstance :
      Heap.CalmMove fun heap => heap.set r (.string "done") (.boolean done))
    exact ((Heap.Calms.alloc m.heap rfl).trans (hcalm.calms first)).trans (hcalm'.calms second)
  · unfold Heap.getOwn?
    rw [hthird]
    rfl
  · unfold Heap.getOwn?
    rw [hthird]
    rfl
  · have hne : r.index ≠ ref.index := Nat.ne_of_gt hr
    calc third.object ref = second.object ref := Heap.object_set_of_ne hne _ _
      _ = first.object ref := Heap.object_set_of_ne hne _ _
      _ = m.heap.object ref := by rw [Heap.object_alloc, if_neg hne.symm]

theorem iterResult_presents (m : Machine) (v : Value) :
    ∃ r later, iterResult v true m = .ok (.object r) later ∧
      m.Presents r v later := by
  obtain ⟨r, later, he, hc, hv, hd, -⟩ := iterResult_spec m v true
  exact ⟨r, later, he, hc, hv, hd⟩

theorem leave_enter (m : Machine) : leave (enter m) = m := rfl

/-- A completed generator answers; a resumption one call deeper answers the same. -/
theorem answerCompleted_answered (m : Machine) (res : Resumption) :
    ∃ outcome, answerCompleted res m = outcome ∧ Answered m res outcome := by
  cases res with
  | next v =>
    obtain ⟨r, later, he, hp⟩ := iterResult_presents m .undefined
    exact ⟨_, he, .next v hp⟩
  | finish v =>
    obtain ⟨r, later, he, hp⟩ := iterResult_presents m v
    exact ⟨_, he, .finish v hp⟩
  | throw v => exact ⟨_, rfl, .throw v⟩

end Action

/-! ## Resumptions -/

/-- How an action ends for one who is two calls less deep. -/
def Action.back : EStateM.Result Stop Machine Value → EStateM.Result Stop Machine Value
  | .ok v later => .ok v (leave (leave later))
  | .error stop later => .error stop (leave (leave later))

/-- There is room for a call of a function of the machine that resumes a generator. -/
def Machine.HasRoom (m : Machine) : Prop := m.depth + 1 < m.limits.callDepth

namespace Action

variable {n : Nat} {m : Machine} {callee gen : ObjectRef} {builtin : Builtin}
  {args : List Value} {res : Resumption} {state : GeneratorState}

theorem call_resumes (hb : m.heap.payload callee = .builtin builtin)
    (hr : builtin.resumption? args = some res) (recv : Value) :
    call (n + 1) (.object callee) recv args m = nested (resumeGenerator (run n) recv res) m := by
  rw [call]
  rw [callValue, payload_bind_apply, hb]
  dsimp only
  congr 1
  cases builtin <;> cases hr <;> rfl

theorem resumeGenerator_of_state (hs : m.heap.generator? gen = some state) :
    resumeGenerator (run n) (.object gen) res m = nested (resumeState (run n) gen res state) m := by
  rw [resumeGenerator, payload_bind_apply, Heap.generator?_eq_some.mp hs]

/-- A call that meets the limit changes nothing. -/
theorem call_resumes_of_full (hb : m.heap.payload callee = .builtin builtin)
    (hr : builtin.resumption? args = some res) (hs : m.heap.generator? gen = some state)
    (hd : m.limits.callDepth ≤ m.depth + 1) : call (n + 1) (.object callee) (.object gen) args m =
      .error (.raised .tooDeep) m := by
  rw [call_resumes hb hr]
  by_cases hfull : m.limits.callDepth ≤ m.depth
  · exact nested_of_full hfull
  · have hs' : (enter m).heap.generator? gen = some state := hs
    have hinner : resumeGenerator (run n) (.object gen) res (enter m) =
        .error (.raised .tooDeep) (enter m) := by
      rw [resumeGenerator_of_state hs']
      exact nested_of_full hd
    rw [nested_of_error (Nat.lt_of_not_le hfull) hinner, leave_enter]

/-- A call for which there is room resumes the generator two calls deeper. -/
theorem call_resumes_of_room (hb : m.heap.payload callee = .builtin builtin)
    (hr : builtin.resumption? args = some res)
    (hs : m.heap.generator? gen = some state) (hd : m.HasRoom) :
    call (n + 1) (.object callee) (.object gen) args m =
      back (resumeState (run n) gen res state (enter (enter m))) := by
  have hs' : (enter m).heap.generator? gen = some state := hs
  have hd' : (enter m).depth < (enter m).limits.callDepth := hd
  rw [call_resumes hb hr]
  have houter : m.depth < m.limits.callDepth := Nat.lt_of_succ_lt hd
  cases he : resumeState (run n) gen res state (enter (enter m)) with
  | ok v later =>
    exact nested_of_ok houter ((resumeGenerator_of_state hs').trans (nested_of_ok hd' he))
  | error stop later =>
    exact nested_of_error houter ((resumeGenerator_of_state hs').trans (nested_of_error hd' he))

end Action

/-- What a generator answers two calls deeper, it answers. -/
theorem Answered.back {m res outcome} (h : Answered (Action.enter (Action.enter m)) res outcome) :
    Answered m res (Action.back outcome) := by
  have hleave : ∀ {r v later}, (Action.enter (Action.enter m)).Presents r v later →
        m.Presents r v (Action.leave (Action.leave later)) := by
    intro r v later hp
    refine ⟨⟨hp.calms.heap, hp.calms.realm, hp.calms.limits, ?_, hp.calms.jobs⟩, hp.value, hp.done⟩
    change later.depth - 1 - 1 = m.depth
    rw [hp.calms.depth]
    rfl
  cases h with
  | next v hp => exact .next v (hleave hp)
  | finish v hp => exact .finish v (hleave hp)
  | throw v => exact .throw v

def Machine.withGenerator (m : Machine) (gen : ObjectRef) (state : GeneratorState) :
    Machine :=
  { m with heap := m.heap.setPayload gen (.generator state) }

/-- How a call that resumes a generator ends, by the state of the generator. -/
structure Protocol (n : Nat) (m : Machine) (gen : ObjectRef) (state : GeneratorState)
    (res : Resumption) (action : Action Value) : Prop where
  deep : ¬m.HasRoom → action m = .error (.raised .tooDeep) m
  running : m.HasRoom → state = .running →
    action m = .error (.raised (.failed .generatorRunning)) m
  completed : m.HasRoom → state = .completed →
    Answered m res (action m)
  /-- Throwing and returning do not enter a body that was not entered yet. -/
  dismissed : m.HasRoom → ∀ fr, state = .start fr →
    state.resumed? res = none →
      Answered (m.withGenerator gen .completed) res (action m)
  /-- The generator is running while its body goes on, and in the end stands as the body stopped. -/
  entered : m.HasRoom → ∀ fr, state.resumed? res = some fr →
    ∀ body stopped, Action.attempt (Action.run n fr)
        ((Action.enter (Action.enter m)).withGenerator gen .running) =
          .ok body stopped →
      stopped.heap.generator? gen = some .running ∧
        ∃ later, action.reached? m = some later ∧
          later.heap.generator? gen = some (.after body)

namespace Action

variable {n : Nat} {m : Machine} {gen : ObjectRef} {res : Resumption} {state : GeneratorState}

theorem generator?_withGenerator (h : m.heap.generator? gen = some state) (later : GeneratorState) :
    (m.withGenerator gen later).heap.generator? gen = some later :=
  (Heap.generator?_setPayload ..).trans (if_pos ⟨rfl, Heap.lt_of_generator? h⟩)

/-- A body that stops leaves the generator as it stopped. -/
theorem continueGenerator_after {fr body stopped}
    (h : attempt (run n (fr.resume res)) (m.withGenerator gen .running) =
      .ok body stopped) (hs : stopped.heap.generator? gen = some .running) :
    ∃ later, (continueGenerator (run n) gen fr res).reached? m =
      some later ∧ later.heap.generator? gen = some (.after body) := by
  have hset : ∀ {α : Type} {k : Unit → Action α} {state : GeneratorState} {m : Machine},
      (setGenerator gen state >>= k).reached? m = (k ()).reached? (m.withGenerator gen state) :=
    reached?_bind_of_ok rfl
  unfold continueGenerator
  rw [hset, reached?_bind_of_ok h]
  cases body with
  | error exception =>
    dsimp only
    rw [hset]
    exact ⟨_, rfl, generator?_withGenerator hs _⟩
  | ok exit =>
    cases exit with
    | suspended v kept | tailCall callee recv args =>
      dsimp only
      rw [hset]
      exact ⟨_, rfl, generator?_withGenerator hs _⟩
    | returned v =>
      obtain ⟨r, answered, he, hp⟩ := iterResult_presents stopped v
      have hages := (Heap.Ages.of_calms hp.calms.heap).running hs
      dsimp only
      rw [reached?_bind_of_ok he, hset]
      exact ⟨_, rfl, generator?_withGenerator hages _⟩

theorem resumeState_entered {fr} (hf : state.resumed? res = some fr) {body stopped}
    (h : attempt (run n fr) (m.withGenerator gen .running) = .ok body stopped)
    (hs : stopped.heap.generator? gen = some .running) :
    ∃ later, (resumeState (run n) gen res state).reached? m = some later ∧
      later.heap.generator? gen = some (.after body) := by
  cases state with
  | yielded waiting =>
    cases hf
    exact continueGenerator_after h hs
  | start waiting =>
    cases res with
    | next v =>
      cases hf
      exact continueGenerator_after h hs
    | throw v => cases hf
    | finish v => cases hf
  | running => cases hf
  | completed => cases hf

/-- Every call that resumes a generator keeps to the protocol. -/
theorem call_protocol {callee : ObjectRef} {builtin : Builtin} {args : List Value}
    (hb : m.heap.payload callee = .builtin builtin) (hr : builtin.resumption? args = some res)
    (hs : m.heap.generator? gen = some state) : Protocol n m gen state res
      (call (n + 1) (.object callee) (.object gen) args) where
  deep hd := call_resumes_of_full hb hr hs (Nat.le_of_not_lt hd)
  running hd he := by
    subst he
    rw [call_resumes_of_room hb hr hs hd]
    rfl
  completed hd he := by
    subst he
    obtain ⟨outcome, ho, ha⟩ := answerCompleted_answered (enter (enter m)) res
    rw [call_resumes_of_room hb hr hs hd, resumeState, ho]
    exact ha.back
  dismissed hd fr he hn := by
    subst he
    obtain ⟨outcome, ho, ha⟩ := answerCompleted_answered
      (enter (enter (m.withGenerator gen .completed))) res
    have hstate : resumeState (run n) gen res (.start fr) (enter (enter m)) = outcome := by
      rw [← ho]
      cases res with
      | next v => cases hn
      | throw v => rfl
      | finish v => rfl
    rw [call_resumes_of_room hb hr hs hd, hstate]
    exact ha.back
  entered hd fr hf body stopped hbody := by
    have hattempt : Upholds Law.aging (attempt (run n fr)) :=
      @Upholds.attempt _ _ _ (run_upholds n trivial)
    have hbegun := generator?_withGenerator
      (show (enter (enter m)).heap.generator? gen = some state from hs) .running
    have hages := (hattempt.of_ok (.lax _) hbody).rel
    have hstopped : stopped.heap.generator? gen = some .running := Heap.Ages.running hages hbegun
    obtain ⟨later, hl, hafter⟩ := resumeState_entered hf hbody hstopped
    refine ⟨hstopped, leave (leave later), ?_, hafter⟩
    unfold reached? at hl ⊢
    rw [call_resumes_of_room hb hr hs hd]
    cases he : resumeState (run n) gen res state (enter (enter m)) with
    | ok v final =>
      rw [he] at hl
      cases hl
      rfl
    | error stop final =>
      rw [he] at hl
      cases stop with
      | raised exception => cases hl; rfl
      | exhausted => cases hl

/-- Jobs run under supervision as they do without, where activations hold frames of
asynchronous functions. -/
theorem runNextFor_eq {alarm : Action Unit} {m : Machine} (hm : m.Meets (.ofKinds True)) (n : Nat) :
    runNextFor alarm n m = runNext n m := by
  have hresume : ∀ {later : Machine} act res, later.heap = m.heap →
      resumeActivation (call n) (runFor alarm none n) act (some res) later =
        resumeActivation (call n) (run n) act (some res) later := by
    intro later act res hl
    refine resumeActivation_agree fun fr p hp => runFor_eq_of_waits n (.of_async ?_)
    have hadmits := hm.admits act
    rw [← hl, hp] at hadmits
    exact hadmits.2 trivial
  cases hjobs : m.jobs with
  | nil =>
    unfold runNextFor runNext
    change EStateM.bind _ _ m = EStateM.bind _ _ m
    unfold EStateM.bind
    rw [nextJob_of_nil hjobs]
  | cons job jobs =>
    unfold runNextFor runNext
    change EStateM.bind _ _ m = EStateM.bind _ _ m
    unfold EStateM.bind
    rw [nextJob_of_cons hjobs]
    dsimp only
    rw [callFor_eq n]
    obtain ⟨reaction, settlement⟩ := job
    cases reaction with
    | resume act =>
      cases settlement with
      | fulfilled v => exact hresume act (.next v) rfl
      | rejected reason => exact hresume act (.throw reason) rfl
    | callback onFulfilled onRejected derived => cases settlement <;> rfl
    | forward target => rfl

end Action

/-- A machine goes on to another one by a call, by a frame that runs, or by a session. -/
inductive Machine.GoesOn (m later : Machine) : Prop
  | call {n : Nat} {callee recv : Value} {args : List Value} :
    (Action.call n callee recv args).reached? m = some later →
      GoesOn m later
  | run {n : Nat} {fr : Frame} :
    (Action.run n fr).reached? m = some later → GoesOn m later
  | session : m.Reaches later → GoesOn m later

theorem Machine.GoesOn.ages {m later : Machine} (h : m.GoesOn later) : m.heap.Ages later.heap := by
  cases h with
  | @call n callee recv args h =>
    have hcall : Upholds Law.aging (Action.call n callee recv args) := inferInstance
    exact (hcall.upholds (.lax m) h).rel
  | @run n fr h =>
    have hrun : Upholds Law.aging (Action.run n fr) := Action.run_upholds n trivial
    exact (hrun.upholds (.lax m) h).rel
  | session h => exact (h.follows Law.aging (.lax m)).rel

/-- Generators keep to their protocol. On every machine that a session reaches, code behind the
prologue of a generator function runs only where a call resumes a generator that is running: an
alarm that would ring elsewhere changes nothing. On every machine, also one in the middle of a run,
a call that resumes a generator ends as its state says, and a generator that is completed stays so. -/
theorem generator_protocol {limits : Limits} {session : Machine}
    (hs : (Machine.new limits).Reaches session) (alarm : Action Unit) (fuel : Nat) :
    (∀ {options : Compile.Options} {program : Syntax.Program Unit} {script : Compile.Script},
      Compile.compile options program = .ok script → script.template.Opened ∧
        ∀ record receiver imports,
          let frame := { Frame.start script.template record receiver none [] with imports }
          Action.runFor alarm none fuel frame session = Action.run fuel frame session) ∧
    (∀ callee receiver arguments, Action.callFor alarm fuel callee receiver arguments session =
      Action.call fuel callee receiver arguments session) ∧
    Action.runNextFor alarm fuel session = Action.runNext fuel session ∧
    (∀ {machine : Machine} {callee generator : ObjectRef} {builtin : Builtin}
      {arguments : List Value} {resumption : Resumption} {state : GeneratorState},
      machine.heap.payload callee = .builtin builtin →
      builtin.resumption? arguments = some resumption →
      machine.heap.generator? generator = some state →
      Protocol fuel machine generator state resumption
        (Action.call (fuel + 1) (.object callee) (.object generator) arguments)) ∧
    Cause.generatorRunning.kind = .typeError ∧
    ∀ {machine later : Machine} {generator : ObjectRef}, machine.GoesOn later →
      machine.heap.generator? generator = some .completed →
        later.heap.generator? generator = some .completed := by
  have hkinds := (hs.follows_new (Law.trivial (.ofKinds True))).meets
  refine ⟨fun hc => ⟨(Compile.compile_formed hc).opened, fun record receiver imports => ?_⟩,
    fun callee receiver arguments => by rw [Action.callFor_eq], Action.runNextFor_eq hkinds fuel,
    Action.call_protocol, rfl, fun hg hc => hg.ages.completed hc⟩
  exact Action.runFor_eq fuel none _ session (.inr (.start imports))

/-- A generator that runs is resumed on a machine that has nothing else. -/
theorem generator_protocol_resumed :
    let machine : Machine :=
      { heap := { objects := #[{ payload := .builtin .generatorNext },
          { payload := .generator .running }] }
        realm := default }
    (Machine.new {}).Reaches (.new {}) ∧ machine.HasRoom ∧
      machine.heap.payload ⟨0⟩ = .builtin .generatorNext ∧
      machine.heap.generator? ⟨1⟩ = some .running ∧
      Action.call 2 (.object ⟨0⟩) (.object ⟨1⟩) [] machine =
        .error (.raised (.failed .generatorRunning)) machine := by
  intro machine
  have hroom : machine.HasRoom := show 0 + 1 < 200 by decide
  have hreached : (Machine.new {}).Reaches (.new {}) := .refl
  have hprotocol : Protocol 1 machine ⟨1⟩ .running (.next .undefined)
      (Action.call 2 (.object ⟨0⟩) (.object ⟨1⟩) []) :=
    (generator_protocol hreached (pure ()) 1).2.2.2.1 rfl rfl rfl
  exact ⟨hreached, hroom, rfl, rfl, hprotocol.running hroom rfl⟩

end Ecma
