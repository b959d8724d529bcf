/-
The bodies of generators under supervision: before an instruction that lies behind the prologue of a
generator function an alarm rings, unless it is the generator resumed by the innermost call that
runs. Whatever the alarm does, nothing changes, so it never rings.
-/
import Ecma.Proofs.Evolution
import Ecma.Proofs.TotalTree

namespace Ecma

def GeneratorState.isRunning : GeneratorState → Bool
  | .running => true
  | .start _ | .yielded _ | .completed => false

/-- Whether an object is a generator that is running. -/
def Heap.runs (heap : Heap) (ref : ObjectRef) : Bool :=
  (heap.generator? ref).any GeneratorState.isRunning

theorem Heap.runs_iff {heap : Heap} {ref : ObjectRef} :
    heap.runs ref = true ↔ heap.generator? ref = some .running := by
  unfold runs
  cases heap.generator? ref with
  | none => simp
  | some state => cases state <;> simp [GeneratorState.isRunning]

/-- A generator that runs still does when generators have lived on. -/
theorem Heap.Ages.runs {first second : Heap} (h : first.Ages second) {owner : Option ObjectRef}
    (hr : owner.any first.runs = true) : owner.any second.runs = true := by
  cases owner with
  | none => cases hr
  | some ref => exact Heap.runs_iff.mpr (h.running (Heap.runs_iff.mp hr))

/-! ## Prologues -/

/-- Whether a frame is in the body of a generator function, behind its prologue. -/
def Frame.inBody (fr : Frame) : Bool :=
  fr.code.kind == .generator &&
    (List.range fr.position).any fun stop => fr.code.OpensAt stop

/-- A frame that is in the prologue of a generator function if it is one of such a function. -/
def Frame.Waits (fr : Frame) : Prop :=
  fr.code.kind = .generator → ∀ stop, fr.code.OpensAt stop →
    fr.position ≤ stop ∧ fr.resumption = none

theorem Frame.Waits.not_inBody {fr : Frame} (h : fr.Waits) : fr.inBody = false := by
  rw [Bool.eq_false_iff]
  intro hb
  rw [inBody, Bool.and_eq_true, beq_iff_eq, List.any_eq_true] at hb
  obtain ⟨hk, stop, hm, ho⟩ := hb
  exact absurd (h hk stop (of_decide_eq_true ho)).1 (Nat.not_le.mpr (List.mem_range.mp hm))

namespace Action

/-- What straight instructions keep of a frame. -/
structure GoesOn (origin fr : Frame) : Prop where
  position : fr.position = origin.position
  resumption : fr.resumption = origin.resumption

/-- The effect of a straight instruction. -/
def GoesOn.Effects (origin : Frame) : Effect → Prop
  | .next fr => GoesOn origin fr
  | .exit _ | .raise .. => False

theorem pop_goesOn {fr} : Gives (fun taken : Value × Frame => GoesOn fr taken.2) (pop fr) := by
  unfold pop
  split
  · exact .pure ⟨rfl, rfl⟩
  · exact .fail

theorem pushing_goesOn {fr action} :
    Gives (GoesOn.Effects fr) (pushing fr action) := .after fun _ => .pure ⟨rfl, rfl⟩

/-- A straight instruction of a frame that is not resumed goes on with the next one. -/
theorem step_goesOn {call fr instr} (hs : instr.op.isStraight = true) (hr : fr.resumption = none) :
    Gives (GoesOn.Effects fr) (step call fr instr) := by
  obtain ⟨op, operand⟩ := instr
  cases op
  case createMutableBinding | createImmutableBinding =>
    exact .after fun _ => .after fun _ => .pure ⟨rfl, rfl⟩
  case initializeBinding =>
    exact .after fun _ => pop_goesOn.bind fun _ h => .after fun _ => .pure h
  case loadArg | pushUndefined | loadCallee =>
    first
      | exact .after fun _ => .pure ⟨rfl, rfl⟩
      | exact .pure ⟨rfl, rfl⟩
  case createArguments => exact pushing_goesOn
  case closure =>
    dsimp only [step]
    unfold makeClosure
    split
    · split
      · exact pushing_goesOn
      · exact .fail
    · exact .fail
  case resumeDispatch =>
    dsimp only [step]
    unfold resumeDispatch
    rw [hr]
    exact .pure ⟨rfl, rfl⟩
  all_goals cases hs

theorem suspend_exits {call fr operand} : Gives (fun effect => ∃ left, effect = .exit left)
      (step call fr ⟨.suspend, operand⟩) := by
  dsimp only [step]
  unfold suspend
  split
  · exact .after fun _ => .pure ⟨_, rfl⟩
  · exact .fail

theorem handle_eq_raise {call fr pos exception}
    (h : ∀ handler ∈ fr.code.handlers, pos < handler.start) :
    handle call fr pos exception = raise exception := by
  have hnone : fr.code.handlers.filter (fun handler => handler.covers pos) = [] := by
    rw [List.filter_eq_nil_iff]
    intro handler hm
    have := h handler hm
    unfold Code.Handler.covers
    simp
    omega
  unfold handle
  rw [hnone]

/-- An instruction that is no longer in reach of a handler either goes on by itself or not at all. -/
theorem advance_unprotected {call fr following instr m later}
    (hi : fr.code.instructions[fr.position]? = some instr)
    (hu : ∀ handler ∈ fr.code.handlers, fr.position < handler.start) {post}
    (hs : Gives post (step call (fr.jump (fr.position + 1)) instr))
    (hp : ∀ exception changed, ¬post (.raise exception changed))
    (h : advance call fr m = .ok (.next following) later) : post (.next following) := by
  have hguarded : Gives post (guardedStep call (fr.jump (fr.position + 1)) instr) :=
    .after fun _ => .choice .failed hs
  have hgives : Gives (fun progress => ∀ following, progress = .next following →
      post (.next following)) (advance call fr) := by
    unfold advance
    rw [hi]
    refine (attempt_gives hguarded).bind fun outcome ho => ?_
    split
    · exact .pure fun _ he => Progress.next.inj he ▸ ho _ rfl
    · exact .pure fun _ he => by cases he
    · exact absurd (ho _ rfl) (hp _ _)
    · rw [@handle_eq_raise _ (fr.jump (fr.position + 1)) _ _ hu]
      exact Gives.raise.bind fun _ hf => False.elim hf
  exact hgives.gives h following rfl

/-- A frame that waits leaves its prologue only by stopping. -/
theorem advance_waits {call : Caller} {fr : Frame} (h : fr.Waits) :
    Gives (fun progress => ∀ following, progress = .next following → following.Waits)
      (advance call fr) := by
  refine ⟨fun {m progress later} ha following hf => ?_⟩
  subst hf
  have hcode : following.code = fr.code := advance_stays.gives ha
  intro hk stop ho
  rw [hcode] at hk ho
  obtain ⟨hle, hr⟩ := h hk stop ho
  have hu : ∀ handler ∈ fr.code.handlers, fr.position < handler.start :=
    fun handler hm => Nat.lt_of_le_of_lt hle (ho.unprotected handler hm)
  rcases Nat.lt_or_eq_of_le hle with hlt | heq
  · have hstraight := ho.straight fr.position hlt
    obtain ⟨instr, hi⟩ : ∃ instr, fr.code.instructions[fr.position]? = some instr := by
      refine Option.isSome_iff_exists.mp (Option.isSome_iff_ne_none.mpr fun hn => ?_)
      rw [hn] at hstraight
      cases hstraight
    rw [hi] at hstraight
    have hgoes : GoesOn (fr.jump (fr.position + 1)) following :=
      advance_unprotected hi hu (step_goesOn hstraight hr) (fun _ _ hf => hf) ha
    exact ⟨hgoes.position ▸ hlt, hgoes.resumption.trans hr⟩
  · obtain ⟨_, he⟩ := advance_unprotected (heq ▸ ho.suspends) hu suspend_exits
      (fun _ _ ⟨_, he⟩ => nomatch he) ha
    cases he

end Action

theorem Frame.Waits.start {code record recv callee args} (imports : Array Value) :
    Frame.Waits { Frame.start code record recv callee args with imports } :=
  fun _ _ _ => ⟨Nat.zero_le _, rfl⟩

theorem Frame.Waits.of_async {fr : Frame} (h : fr.code.kind.isAsync = true) : fr.Waits := by
  intro hk
  rw [hk] at h
  cases h

/-- The generator whose body a call may enter: a function of the machine enters only the body of
the generator that it is called on. -/
def Heap.ownerOf (heap : Heap) (callee recv : Value) : Option ObjectRef :=
  match callee with
  | .object ref =>
    match heap.payload ref with
    | .builtin _ => recv.object?
    | _ => none
  | _ => none

namespace Action

section

variable (alarm : Action Unit)

/-- Rings the alarm before an instruction of a body, unless the owner of the body is running. -/
def supervise (owner : Option ObjectRef) (fr : Frame) : Action Unit := do
  if fr.inBody then
    unless ← look fun heap => owner.any heap.runs do alarm

mutual

/-- Runs a frame under supervision. -/
def runFor (owner : Option ObjectRef) : (n : Nat) → Frame → Action Exit
  | 0, _ => throw .exhausted
  | n + 1, fr => do
    supervise alarm owner fr
    match ← advance (callFor n) fr with
    | .next fr => runFor owner n fr
    | .exit exit => return exit

/-- Runs a frame, and the functions that take its place, under supervision. -/
def activateFor : (n : Nat) → Frame → Action Value
  | 0, _ => throw .exhausted
  | n + 1, fr => do
    match ← runFor none n fr with
    | .returned v => return v
    | .suspended .. => fail .suspendOutside
    | .tailCall callee recv args =>
      match ← look fun heap => tailTarget? heap callee with
      | some (ref, closure) =>
        let fr ← newFrame ref closure recv args
        activateFor n fr
      | none => callFor n callee recv args

/-- Calls a value under supervision. -/
def callFor : (n : Nat) → Value → Value → List Value → Action Value
  | 0, _, _, _ => throw .exhausted
  | n + 1, callee, recv, args => do
    let owner ← look fun heap => heap.ownerOf callee recv
    callValue (callFor n) (runFor owner n) (activateFor n) callee recv args

end

/-- Runs the job that waits longest under supervision. -/
def runNextFor (n : Nat) : Action Unit := do
  match ← nextJob with
  | none => pure ()
  | some job => runJob (callFor alarm n) (runFor alarm none n) job

end

variable {alarm : Action Unit}

theorem supervise_of_waits {owner : Option ObjectRef} {fr : Frame} (h : fr.Waits) :
    supervise alarm owner fr = pure () := by
  unfold supervise
  rw [h.not_inBody]
  rfl

theorem supervise_of_runs {owner : Option ObjectRef} {fr : Frame} {m : Machine}
    (h : owner.any m.heap.runs = true) : supervise alarm owner fr m = .ok () m := by
  unfold supervise
  split
  · change (if owner.any m.heap.runs = true then _ else _ : Action Unit) m = _
    rw [if_pos h]
    rfl
  · rfl

/-! ## Ways to run that agree -/

/-- Two ways to run frames do the same on machines where a generator is running. -/
def AgreeFor (owner : ObjectRef) (run further : Runner) : Prop :=
  ∀ fr m, m.heap.generator? owner = some .running →
    run fr m = further fr m

section

variable {gen : ObjectRef} {run further : Runner} (h : AgreeFor gen run further)

include h

theorem continueGenerator_agree {state m} (fr : Frame) (res : Resumption)
    (hs : m.heap.generator? gen = some state) : continueGenerator run gen fr res m =
      continueGenerator further gen fr res m := by
  let begun := { m with heap := m.heap.setPayload gen (.generator .running) }
  have hbegun : begun.heap.generator? gen = some .running := by
    rw [Heap.generator?_setPayload, if_pos ⟨rfl, Heap.lt_of_generator? hs⟩]
    rfl
  change (attempt (run (fr.resume res)) >>= _) begun =
    (attempt (further (fr.resume res)) >>= _) begun
  have he : attempt (run (fr.resume res)) begun = attempt (further (fr.resume res)) begun := by
    unfold attempt
    rw [h _ begun hbegun]
  change EStateM.bind _ _ begun = EStateM.bind _ _ begun
  unfold EStateM.bind
  rw [he]

theorem resumeState_agree {state m} (res : Resumption) (hs : m.heap.generator? gen = some state) :
    resumeState run gen res state m = resumeState further gen res state m := by
  cases state with
  | yielded fr => exact continueGenerator_agree h fr res hs
  | start fr =>
    cases res with
    | next v => exact continueGenerator_agree h fr _ hs
    | _ => rfl
  | _ => rfl

end

theorem resumeGenerator_agree {recv run further}
    (h : ∀ owner, recv.object? = some owner → AgreeFor owner run further) (res : Resumption) :
    resumeGenerator run recv res = resumeGenerator further recv res := by
  cases recv with
  | object ref =>
    funext m
    rw [resumeGenerator, resumeGenerator, payload_bind_apply, payload_bind_apply]
    cases hp : m.heap.payload ref with
    | generator state =>
      have hs : (enter m).heap.generator? ref = some state := Heap.generator?_eq_some.mpr hp
      dsimp only
      unfold nested
      rw [resumeState_agree (h ref rfl) res hs]
    | _ => rfl
  | _ => rfl

theorem callBuiltin_agree {call : Caller} {builtin : Builtin} {recv : Value} {run further : Runner}
    (h : ∀ owner, recv.object? = some owner → AgreeFor owner run further) (args : List Value) :
    callBuiltin call run builtin recv args = callBuiltin call further builtin recv args := by
  cases builtin with
  | generatorNext | generatorThrow | generatorReturn => exact resumeGenerator_agree h _
  | _ => rfl

/-- Actions that go on the same way with whatever the first one gives. -/
theorem bind_congr_gives {α β : Type} {post : α → Prop} {x : Action α} (hx : Gives post x)
    {f g : α → Action β} (h : ∀ a, post a → f a = g a) : x >>= f = x >>= g := by
  funext m
  change EStateM.bind x f m = EStateM.bind x g m
  unfold EStateM.bind
  cases he : x m with
  | ok a later => exact congrFun (h a (hx.gives he)) later
  | error stop later => rfl

theorem newFrame_waits (callee : ObjectRef) (closure : Closure) (recv : Value) (args : List Value) :
    Gives Frame.Waits (newFrame callee closure recv args) :=
  .after fun _ => .after fun _ => .pure (.start #[])

/-- Activations that wait, or that begin, run the same way. -/
theorem resumeActivation_agree {call run further act res m}
    (h : ∀ fr p, m.heap.payload act = .activation (some fr) p → run ((res.map fr.resume).getD fr) =
        further ((res.map fr.resume).getD fr)) : resumeActivation call run act res m =
      resumeActivation call further act res m := by
  rw [resumeActivation, resumeActivation, payload_bind_apply, payload_bind_apply]
  cases hp : m.heap.payload act with
  | activation fr p =>
    cases fr with
    | none => rfl
    | some fr =>
      dsimp only
      rw [h fr p hp]
  | _ => rfl

theorem startAsync_agree {call : Caller} {run further : Runner}
    (h : ∀ fr : Frame, fr.Waits → run fr = further fr) (callee : ObjectRef)
    (closure : Closure) (recv : Value) (args : List Value) :
    startAsync call run callee closure recv args =
      startAsync call further callee closure recv args := by
  unfold startAsync
  refine congrArg _ (funext fun p => ?_)
  refine bind_congr_gives (newFrame_waits callee closure recv args) fun fr hf => ?_
  funext m
  change EStateM.bind (resumeActivation call run ⟨m.heap.objects.size⟩ none) _ _ =
    EStateM.bind (resumeActivation call further ⟨m.heap.objects.size⟩ none) _ _
  unfold EStateM.bind
  rw [resumeActivation_agree fun other _ hp => ?_]
  -- The activation that was just added holds the frame.
  have halloc := (Heap.payload_alloc m.heap
    { payload := .activation (some fr) p } ⟨m.heap.objects.size⟩).trans (if_pos rfl)
  cases halloc.symm.trans hp
  exact h fr hf

theorem callClosure_agree {call : Caller} {run further : Runner}
    {activate onward : Frame → Action Value} (h : ∀ fr : Frame, fr.Waits → run fr = further fr)
    (ha : ∀ fr : Frame, fr.Waits → activate fr = onward fr) (callee : ObjectRef)
    (closure : Closure) (recv : Value) (args : List Value) :
    callClosure call run activate callee closure recv args =
      callClosure call further onward callee closure recv args := by
  have hnew := newFrame_waits callee closure recv args
  unfold callClosure
  split
  · unfold startGenerator
    rw [bind_congr_gives hnew h]
  · exact startAsync_agree h callee closure recv args
  · exact startAsync_agree h callee closure recv args
  all_goals rw [bind_congr_gives hnew ha]

/-! ## Nothing rings -/

mutual

/-- The alarm does not ring where the owner is running, nor in a prologue. -/
theorem runFor_eq : (n : Nat) → (owner : Option ObjectRef) → (fr : Frame) →
    (m : Machine) → owner.any m.heap.runs = true ∨ fr.Waits → runFor alarm owner n fr m = run n fr m
  | 0, _, _, _, _ => rfl
  | n + 1, owner, fr, m, h => by
    have hquiet : supervise alarm owner fr m = .ok () m :=
      h.elim supervise_of_runs fun hw => by rw [supervise_of_waits hw]; rfl
    rw [runFor, run, callFor_eq n]
    change EStateM.bind _ _ m = EStateM.bind _ _ m
    unfold EStateM.bind
    rw [hquiet]
    change EStateM.bind _ _ m = _
    unfold EStateM.bind
    cases he : advance (call n) fr m with
    | error stop later => rfl
    | ok progress later =>
      cases progress with
      | exit exit => rfl
      | next following =>
        have hadvance : Upholds Law.aging (advance (call n) fr) := advance_upholds fr trivial
        have hages : m.heap.Ages later.heap := (hadvance.of_ok (.lax m) he).rel
        refine runFor_eq n owner following later (h.imp hages.runs fun hw => ?_)
        exact (advance_waits hw).gives he following rfl

theorem runFor_eq_of_waits (n : Nat) {owner : Option ObjectRef} {fr : Frame}
    (h : fr.Waits) : runFor alarm owner n fr = run n fr :=
  funext fun m => runFor_eq n owner fr m (.inr h)

theorem activateFor_eq : (n : Nat) → (fr : Frame) → fr.Waits →
    activateFor alarm n fr = activate n fr
  | 0, _, _ => rfl
  | n + 1, fr, h => by
    rw [activateFor, activate, runFor_eq_of_waits n h, callFor_eq n]
    refine congrArg _ (funext fun exit => ?_)
    cases exit with
    | tailCall callee recv args =>
      dsimp only
      refine congrArg _ (funext fun target => ?_)
      split
      · exact bind_congr_gives (newFrame_waits ..) (activateFor_eq n)
      · rfl
    | _ => rfl

theorem callFor_eq : (n : Nat) → callFor alarm n = call n
  | 0 => rfl
  | n + 1 => by
    funext callee recv args m
    rw [callFor, call, callFor_eq n]
    change callValue _ (runFor alarm (m.heap.ownerOf callee recv) n) _ callee recv args m = _
    cases callee with
    | object ref =>
      unfold Heap.ownerOf callValue
      dsimp only
      rw [payload_bind_apply, payload_bind_apply]
      cases hp : m.heap.payload ref with
      | function closure =>
        dsimp only
        rw [callClosure_agree (fun fr => runFor_eq_of_waits n) (activateFor_eq n)]
      | builtin builtin =>
        dsimp only
        rw [callBuiltin_agree fun owner ho => ?_]
        intro fr m hm
        rw [ho]
        exact runFor_eq n (some owner) fr m (.inl (Heap.runs_iff.mpr hm))
      | _ => rfl
    | _ => rfl

end

end Action

end Ecma
