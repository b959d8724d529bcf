/-
The functions of a machine in tandem: conversions, properties, iterators, promises, builtin
functions and calls. Most give the same on machines that are alike; those that meet code or
frames give what is alike.
-/
import Ecma.Proofs.Tandem

namespace Ecma

open Likeness

/-- Calls that follow others on machines that are alike. -/
class Caller.Keeps (like : Likeness) (call : Caller) (more : Nat → Caller) : Prop where
  calls : ∀ callee recv args,
    like.Keeps (call callee recv args) (fun n => more n callee recv args)

attribute [instance] Caller.Keeps.calls

namespace Action

variable {like : Likeness} {α : Type}

/-! ## Objects -/

theorem alloc_keeps {one other} (h : like.Objects one other) :
    like.Keeps (alloc one) (fun _ => alloc other) :=
  .apply _ _ fun hh => hh.alloc h

theorem allocWith_keeps (like : Likeness) (prototype : ObjectRef) (payload : Payload)
    (h : payload.isPlain = true) : like.Stills (allocWith prototype payload) :=
  alloc_keeps (.plain h)

instance {record} : like.Stills (allocRecord record) :=
  .apply _ _ fun hh => hh.allocRecord record

section

variable (ref : ObjectRef) (key : PropertyKey) (v : Value)

instance : like.Stills (change fun heap => heap.defineHidden ref key v) :=
  .change _ _ fun hh => hh.defineHidden ref key v

instance : like.Stills (change fun heap => (heap.set ref key v).2) :=
  .change _ _ fun hh => (hh.set ref key v).2

instance {prop} : like.Stills (change fun heap => (heap.define ref key prop).2) :=
  .change _ _ fun hh => (hh.define ref key prop).2

theorem setPayload_keeps {one other} (h : like.Payloads one other) :
    like.Keeps (change fun heap => heap.setPayload ref one)
      (fun _ => change fun heap => heap.setPayload ref other) :=
  .change _ _ fun hh => hh.setPayload ref h

variable (like) in
theorem setPlain_keeps (payload : Payload) (h : payload.isPlain = true) :
    like.Stills (change fun heap => heap.setPayload ref payload) :=
  setPayload_keeps ref (.plain h)

/-- What comes after a look at a payload sees payloads that are alike. -/
theorem payload_bind {k : Payload → Action α} {l : Nat → Payload → Action α}
    (h : ∀ one other, like.Payloads one other → like.Keeps (k one) (fun n => l n other)) :
    like.Keeps (payload ref >>= k) (fun n => payload ref >>= l n) := by
  refine ⟨fun {m m'} hm => ?_⟩
  have hp : like.Tracks (fun one other _ => like.Payloads one other) (payload ref)
      (fun _ => payload ref) m m' :=
    .of_ok rfl (.of_eq fun _ => rfl) hm (hm.heaps.payload ref)
  exact .bind hp fun one other later later' hm hp => (h one other hp).tracks hm

end

/-! ## Errors -/

instance {kind} : like.Stills (newError kind) := by
  have := fun prototype => allocWith_keeps like prototype (.error kind []) rfl
  unfold newError
  infer_instance

instance {kind message} : like.Stills (createError kind message) := by
  unfold createError
  infer_instance

instance {cause} : like.Stills (errorOf cause) := by
  unfold errorOf
  infer_instance

instance {exception} : like.Stills (materialize exception) := by
  cases exception <;> unfold materialize <;> infer_instance

instance {ref kind suppressed} : like.Stills (recordSuppressed ref kind suppressed) := by
  have := setPlain_keeps like ref (.error kind suppressed) rfl
  have := fun prototype => allocWith_keeps like prototype (.array suppressed.toArray) rfl
  unfold recordSuppressed
  infer_instance

instance (thrown : Thrown) : like.Stills (caughtValue thrown) := by
  unfold caughtValue
  split
  · refine payload_bind _ fun one other hp => ?_
    cases hp with
    | plain _ => split <;> infer_instance
    | _ => infer_instance
  · infer_instance

/-! ## Properties -/

instance {base key} : like.Stills (getProperty base key) := by
  have := fun prototype => Keeps.query like
    (fun heap => heap.property prototype base key) fun hh => hh.property prototype base key
  unfold getProperty
  infer_instance

instance {base name} : like.Stills (getNamed base name) := by
  unfold getNamed
  infer_instance

instance {v} : like.Stills (isCallable v) :=
  .look _ _ fun hh => hh.isCallableValue v

instance {key} : like.Stills (look fun heap => heap.keyText key) :=
  .look _ _ fun hh => hh.keyText key

instance {v} : like.Stills (look fun heap => heap.describe v) :=
  .look _ _ fun hh => hh.describe v

instance {base key} : like.Stills (getMethod base key) := by
  unfold getMethod
  infer_instance

section

variable (like) (cause : Heap → Cause)
  (hc : ∀ {realm first second}, like.Heaps realm first second → cause first = cause second)

include hc

theorem failLook_keeps : like.Stills (α := α) (look cause >>= fail) := by
  have := Keeps.look _ _ hc
  infer_instance

theorem failIfStrict_keeps (strict : Bool) : like.Stills (failIfStrict strict cause) := by
  have := Keeps.look _ _ hc
  unfold failIfStrict
  infer_instance

end

instance {base key v strict} : like.Stills (putProperty base key v strict) := by
  unfold putProperty
  split
  · have := Keeps.apply like (fun heap => heap.set _ key v) fun hh =>
      hh.set ‹ObjectRef› key v
    have := failIfStrict_keeps like (fun heap => .readOnlyProperty (heap.keyText key))
      (fun hh => by rw [hh.keyText]) strict
    infer_instance
  · exact failLook_keeps _ _ fun hh => by rw [hh.describe, hh.keyText]
  · exact failLook_keeps _ _ fun hh => by rw [hh.describe, hh.keyText]
  all_goals
    exact failIfStrict_keeps _ _ (fun hh => by rw [hh.keyText, hh.typeName, hh.describe]) strict

instance {ref key v} : like.Stills (defineProperty ref key v) := by
  have := Keeps.apply like (fun heap => heap.define ref key (.data v)) fun hh =>
    hh.define ref key (.data v)
  have := Keeps.look like (fun heap => Cause.redefinition (heap.keyText key))
    fun hh => by rw [hh.keyText]
  unfold defineProperty
  infer_instance

instance {v} : like.Stills (toObject v) := by
  have := fun prototype units => allocWith_keeps like prototype (.array units) rfl
  have := fun prototype => allocWith_keeps like prototype .ordinary rfl
  unfold toObject
  split <;> infer_instance

instance {base key strict} : like.Stills (deleteProperty base key strict) := by
  have := fun ref => Keeps.apply like (fun heap => heap.delete ref key) fun hh =>
    hh.delete ref key
  have := failIfStrict_keeps like (fun heap => .undeletable (heap.keyText key))
    (fun hh => by rw [hh.keyText]) strict
  unfold deleteProperty
  infer_instance

instance {v target} : like.Stills (instanceOf v target) := by
  have := fun ref prototype => Keeps.look like
    (fun heap => (heap.chain ref).tail.contains prototype) fun hh => by rw [hh.chain]
  unfold instanceOf
  refine .next fun callable => ?_
  split
  · split
    · refine .next fun prototype => ?_
      split <;> infer_instance
    · refine .next fun _ => ?_
      refine .next fun prototype => ?_
      split <;> infer_instance
  · infer_instance

instance {v} : like.Stills (typeName v) := .look _ _ fun hh => hh.typeName v

instance {v done} : like.Stills (iterResult v done) := by
  have := fun prototype => allocWith_keeps like prototype .ordinary rfl
  unfold iterResult
  infer_instance

instance {v} : like.Stills (requireObject v) := by
  unfold requireObject
  infer_instance

instance {result} : like.Stills (iteratorComplete result) := by
  unfold iteratorComplete
  infer_instance

instance {result} : like.Stills (iteratorValue result) := by
  unfold iteratorValue
  infer_instance

instance {v} : like.Stills (enumerate v) := by
  have := fun ref => Keeps.look like (fun heap => heap.enumerableNames ref)
    fun hh => hh.enumerableNames ref
  have := fun prototype vs => allocWith_keeps like prototype (.listIterator vs 0) rfl
  unfold enumerate
  infer_instance

/-! ## Promises -/

instance {jobs} : like.Stills (enqueue jobs) := by
  refine ⟨fun hm => .of_ok rfl (.of_eq fun _ => rfl) ?_ rfl⟩
  exact ⟨hm.heaps, hm.realm, hm.limits, hm.depth, congrArg (· ++ jobs) hm.jobs, hm.output, hm.room⟩

instance {line} : like.Stills (printLine line) := by
  refine ⟨fun hm => .of_ok rfl (.of_eq fun _ => rfl) ?_ rfl⟩
  exact ⟨hm.heaps, hm.realm, hm.limits, hm.depth, hm.jobs, congrArg (·.push line) hm.output,
    hm.room⟩

instance : like.Stills newPromise := by
  have := fun prototype => allocWith_keeps like prototype (.promise (.pending [])) rfl
  unfold newPromise
  infer_instance

instance {v} : like.Stills (promise? v) :=
  .look _ _ fun hh => by simp only [(hh.payload _).promise?]

instance (p : ObjectRef) (settlement : Settlement) :
    like.Stills (settle p settlement) := by
  have := setPlain_keeps like p (.promise (.settled settlement)) rfl
  unfold settle
  refine payload_bind _ fun one other hp => ?_
  cases hp with
  | plain _ => split <;> infer_instance
  | _ => infer_instance

instance (p : ObjectRef) (reaction : Reaction) :
    like.Stills (addReaction p reaction) := by
  have := fun reactions => setPlain_keeps like p (.promise (.pending reactions)) rfl
  unfold addReaction
  refine payload_bind _ fun one other hp => ?_
  cases hp with
  | plain _ => split <;> infer_instance
  | _ => infer_instance

instance {p reason} : like.Stills (rejectPromise p reason) := by
  unfold rejectPromise
  infer_instance

instance {p v} : like.Stills (resolvePromise p v) := by
  unfold resolvePromise
  refine .next fun found => ?_
  split <;> infer_instance

instance {v} : like.Stills (promiseOf v) := by
  unfold promiseOf
  refine .next fun found => ?_
  split <;> infer_instance

instance {reason} : like.Stills (rejectedPromise reason) := by
  unfold rejectedPromise
  infer_instance

instance {v onFulfilled onRejected} : like.Stills (promiseThen v onFulfilled onRejected) := by
  unfold promiseThen
  refine .next fun found => ?_
  split <;> infer_instance

instance {p outcome} : like.Stills (settleWith p outcome) := by
  cases outcome <;> unfold settleWith <;> infer_instance

/-! ## Functions that call -/

section

variable {call : Caller} {more : Nat → Caller} [Caller.Keeps like call more]

section

variable (v a b : Value)

instance firstPrimitive_keeps : (methods : List String) →
    like.Keeps (firstPrimitive call v methods) (fun n => firstPrimitive (more n) v methods)
  | [] => inferInstanceAs (like.Stills (fail _))
  | name :: rest => by
    have := firstPrimitive_keeps rest
    unfold firstPrimitive
    infer_instance

instance {hint} : like.Keeps (toPrimitive call v hint) (fun n => toPrimitive (more n) v hint) := by
  unfold toPrimitive
  infer_instance

instance : like.Keeps (toNumber call v) (fun n => toNumber (more n) v) := by
  unfold toNumber
  infer_instance

instance : like.Keeps (toText call v) (fun n => toText (more n) v) := by
  unfold toText
  infer_instance

instance :
    like.Keeps (toPropertyKey call v) (fun n => toPropertyKey (more n) v) := by
  unfold toPropertyKey
  refine .next fun primitive => ?_
  split <;> infer_instance

instance : like.Keeps (display call v) (fun n => display (more n) v) := by
  unfold display
  refine .next fun outcome => ?_
  split <;> infer_instance

instance :
    like.Keeps (looseEquals call a b) (fun n => looseEquals (more n) a b) := by
  unfold looseEquals
  split <;> infer_instance

instance {leftFirst} :
    like.Keeps (less call a b leftFirst) (fun n => less (more n) a b leftFirst) := by
  unfold less
  infer_instance

instance :
    like.Keeps (hasProperty call a b) (fun n => hasProperty (more n) a b) := by
  have := fun ref key => Keeps.look like (fun heap => heap.has ref key) fun hh => hh.has ref key
  unfold hasProperty
  split
  · infer_instance
  · exact failLook_keeps _ _ fun hh => by rw [hh.describe, hh.describe]

instance : like.Keeps (add call a b) (fun n => add (more n) a b) := by
  unfold add
  refine .next fun x => ?_
  refine .next fun y => ?_
  split <;> infer_instance

instance : like.Keeps (concat call a b) (fun n => concat (more n) a b) := by
  unfold concat
  infer_instance

instance {op} : like.Keeps (arithmetic call op a b) (fun n => arithmetic (more n) op a b) := by
  unfold arithmetic
  infer_instance

instance {r} : like.Keeps (relation call r a b) (fun n => relation (more n) r a b) := by
  cases r <;> unfold relation <;> infer_instance

instance : like.Keeps (getIterator call v) (fun n => getIterator (more n) v) := by
  unfold getIterator
  infer_instance

instance {sent} :
    like.Keeps (iteratorNext call v sent) (fun n => iteratorNext (more n) v sent) := by
  unfold iteratorNext
  infer_instance

instance :
    like.Keeps (iteratorClose call v) (fun n => iteratorClose (more n) v) := by
  unfold iteratorClose
  infer_instance

instance {kind args} :
    like.Keeps (constructError call kind args) (fun n => constructError (more n) kind args) := by
  unfold constructError
  infer_instance

end

/-! ## Builtin functions -/

section

variable (recv : Value)

instance : like.Stills (receiverArray recv) := by
  unfold receiverArray
  split
  · refine payload_bind _ fun one other hp => ?_
    rw [hp.isArray]
    infer_instance
  · infer_instance

instance {vs} : like.Stills (arrayPush recv vs) := by
  have := fun ref => Keeps.change like (fun heap => heap.modifyObject ref fun obj =>
    obj.mapElements (· ++ vs)) fun hh => hh.modifyObject ref fun _ _ ho => ho.mapElements _
  have := fun ref => Keeps.look like (fun heap =>
    Value.number (Float.ofNat (heap.object ref).elements.size)) fun hh => by
      rw [(hh.object ref).elements]
  unfold arrayPush
  infer_instance

instance :
    like.Keeps (elementText call recv) (fun n => elementText (more n) recv) := by
  unfold elementText
  infer_instance

instance {separator} : like.Keeps (arrayJoin call recv separator)
      (fun n => arrayJoin (more n) recv separator) := by
  have := fun ref => Keeps.look like (fun heap => (heap.object ref).elements)
    fun hh => (hh.object ref).elements
  unfold arrayJoin
  infer_instance

instance : like.Stills (arrayValues recv) := by
  have := fun prototype array => allocWith_keeps like prototype (.arrayIterator array 0) rfl
  unfold arrayValues
  infer_instance

instance : like.Stills (arrayIteratorNext recv) := by
  have := fun ref array index => setPlain_keeps like ref (.arrayIterator array index) rfl
  have := fun ref vs index => setPlain_keeps like ref (.listIterator vs index) rfl
  have := fun array index => Keeps.look like (fun heap => heap.elementAt? array index)
    fun hh => hh.elementAt? array index
  unfold arrayIteratorNext
  split
  · refine payload_bind _ fun one other hp => ?_
    cases hp with
    | plain _ => split <;> infer_instance
    | _ => infer_instance
  · infer_instance

instance {ref name absent} : like.Keeps (propertyText call ref name absent)
      (fun n => propertyText (more n) ref name absent) := by
  have := Keeps.look like (fun heap => heap.get? ref (.string name))
    fun hh => hh.get? ref (.string name)
  unfold propertyText
  refine .next fun found => ?_
  split <;> infer_instance

instance :
    like.Keeps (errorToString call recv) (fun n => errorToString (more n) recv) := by
  unfold errorToString
  split <;> infer_instance

instance {vs} : like.Keeps (print call vs) (fun n => print (more n) vs) := by
  unfold print
  infer_instance

end

end

/-! ## Frames -/

section

variable {callee : ObjectRef} {closure closure' : Closure} {recv : Value} {args : List Value}

theorem receiverOf_eq (h : like.Closures closure closure') (globalObject : ObjectRef)
    (recv : Value) :
    receiverOf closure globalObject recv = receiverOf closure' globalObject recv := by
  have ha := like.agrees h.code
  unfold receiverOf
  rw [ha.kind, ha.strict, h.receiver]

theorem newFrame_tracks (h : like.Closures closure closure') {m m'} (hm : like.Machines m m') :
    like.Tracks (fun first second later => like.ready later first second)
      (newFrame callee closure recv args) (fun _ => newFrame callee closure' recv args) m m' := by
  have ha := hm.heaps.allocRecord (.declarative (some closure.record) #[])
  refine .of_ok rfl (.of_eq fun _ => rfl) (hm.withHeap (h.record ▸ ha.2)) ?_
  have hr := receiverOf_eq h m.realm.globalObject recv
  have hs : m.heap.records.size = m'.heap.records.size := by rw [hm.heaps.records]
  dsimp only
  rw [← hm.realm, ← hr, ← hs]
  refine like.fresh _ closure.record _ _ _ _ h.code ?_
  exact (Heap.record_allocRecord m.heap _ _).trans (if_pos rfl)

end

/-! ## Runs -/

/-- Ends of a run that are alike. -/
inductive Exits (like : Likeness) : Exit → Exit → Prop
  | returned {v} : Exits like (.returned v) (.returned v)
  | suspended {v first second} : like.waiting first second →
    Exits like (.suspended v first) (.suspended v second)
  | tailCall {callee recv args} :
    Exits like (.tailCall callee recv args) (.tailCall callee recv args)

end Action

/-- Runs that follow others from frames that are ready. -/
class Runner.Keeps (like : Likeness) (run : Runner) (more : Nat → Runner) : Prop where
  runs : ∀ {m m' fr fr'}, like.Machines m m' →
    like.ready m fr fr' →
    like.Tracks (fun first second _ => Action.Exits like first second) (run fr)
      (fun n => more n fr') m m'

namespace Action

variable {like : Likeness} {call : Caller} {more : Nat → Caller} {run : Runner}
  {further : Nat → Runner} [Caller.Keeps like call more] [Runner.Keeps like run further]

theorem nested_newFrame_tracks {callee closure closure' recv args}
    (h : like.Closures closure closure') {m m'} (hm : like.Machines m m') :
    like.Tracks (fun first second _ => Exits like first second)
      (nested (newFrame callee closure recv args >>= run))
      (fun n => nested (newFrame callee closure' recv args >>= further n)) m m' :=
  .nested hm (fun _ _ _ h => h) <| .bind (newFrame_tracks h hm.enter) fun _ _ _ _ hm hr =>
    Runner.Keeps.runs hm hr

/-- Both runs of frames that are ready go one call deeper. -/
theorem nested_run_tracks {fr fr' m m'} (hm : like.Machines m m') (hr : like.ready m fr fr') :
    like.Tracks (fun first second _ => Exits like first second) (nested (run fr))
      (fun n => nested (further n fr')) m m' :=
  .nested hm (fun _ _ _ h => h) (Runner.Keeps.runs hm.enter (like.keeps hr rfl rfl))

/-! ## Generators -/

instance {callee fallback} : like.Stills (prototypeOf callee fallback) :=
  .look _ _ fun hh => by rw [hh.get?]

instance {res} : like.Stills (answerCompleted res) := by
  cases res <;> unfold answerCompleted <;> infer_instance

theorem setGenerator_keeps (gen : ObjectRef) {state state'}
    (h : like.Payloads (.generator state) (.generator state')) :
    like.Keeps (setGenerator gen state) (fun _ => setGenerator gen state') :=
  setPayload_keeps gen h

theorem startGenerator_keeps {callee closure closure' recv args}
    (h : like.Closures closure closure') : like.Keeps (startGenerator run callee closure recv args)
      (fun n => startGenerator (further n) callee closure' recv args) := by
  refine ⟨fun hm => .bind (nested_newFrame_tracks h hm) fun exit exit' later later' hm he => ?_⟩
  cases he with
  | returned | tailCall => exact (Keeps.fail _).tracks hm
  | @suspended _ first second hw =>
    have objects (prototype : ObjectRef) :
        like.Objects { prototype := some prototype, payload := .generator (.start first) }
          { prototype := some prototype, payload := .generator (.start second) } :=
      ⟨rfl, rfl, .start hw, rfl⟩
    have := fun prototype => alloc_keeps (objects prototype)
    refine .of_keeps ?_ hm
    unfold allocWith
    infer_instance

theorem continueGenerator_keeps (gen : ObjectRef) {fr fr'} (res : Resumption)
    (h : like.waiting fr fr') : like.Keeps (continueGenerator run gen fr res)
      (fun n => continueGenerator (further n) gen fr' res) := by
  have running := setPlain_keeps like gen (.generator .running) rfl
  have completed : like.Stills (setGenerator gen .completed) := setPlain_keeps like _ _ rfl
  refine ⟨fun hm => .bind (running.tracks hm) fun _ _ later later' hm _ => ?_⟩
  refine .bind (Tracks.attempt (Runner.Keeps.runs hm (like.wakes later res h))) ?_
  intro outcome outcome' later later' hm ho
  refine .of_keeps ?_ hm
  cases ho with
  | error => infer_instance
  | ok he =>
    cases he with
    | returned | tailCall => infer_instance
    | suspended hw =>
      have := setGenerator_keeps gen (.yielded hw)
      infer_instance

theorem resumeState_keeps (gen : ObjectRef) (res : Resumption) {state state'}
    (h : like.Payloads (.generator state) (.generator state')) :
    like.Keeps (resumeState run gen res state)
      (fun n => resumeState (further n) gen res state') := by
  have completed : like.Stills (setGenerator gen .completed) := setPlain_keeps like _ _ rfl
  cases h with
  | @start fr fr' hw =>
    have : like.Keeps (continueGenerator run gen fr res)
        (fun n => continueGenerator (further n) gen fr' res) :=
      continueGenerator_keeps gen res hw
    unfold resumeState
    cases res <;> infer_instance
  | yielded hw => exact continueGenerator_keeps gen res hw
  | plain hp =>
    unfold resumeState
    cases state with
    | start _ => cases hp
    | yielded _ => cases hp
    | running | completed => infer_instance

instance (recv : Value) (res : Resumption) :
    like.Keeps (resumeGenerator run recv res) (fun n => resumeGenerator (further n) recv res) := by
  unfold resumeGenerator
  split
  · rename_i ref
    refine payload_bind _ fun one other hp => ?_
    have (state state' : GeneratorState) (h : like.Payloads (.generator state) (.generator state')) :
        like.Keeps (resumeState run ref res state)
          (fun n => resumeState (further n) ref res state') :=
      resumeState_keeps ref res h
    cases hp with
    | start hw =>
      have := this _ _ (.start hw)
      infer_instance
    | yielded hw =>
      have := this _ _ (.yielded hw)
      infer_instance
    | plain hp =>
      split
      · have := this _ _ (.plain hp)
        infer_instance
      · infer_instance
    | _ => infer_instance
  · infer_instance

instance {builtin recv args} : like.Keeps (callBuiltin call run builtin recv args)
      (fun n => callBuiltin (more n) (further n) builtin recv args) := by
  have := Keeps.look like (fun heap => Value.string s!"[object {heap.tag recv}]")
    fun hh => by rw [hh.tag]
  cases builtin <;> dsimp only [callBuiltin] <;> infer_instance

/-! ## Asynchronous functions -/

theorem afterActivation_keeps (act p : ObjectRef) {outcome outcome' later}
    (h : Attempts (fun first second _ => Exits like first second) outcome outcome' later) :
    like.Keeps (afterActivation call act p outcome)
      (fun n => afterActivation (more n) act p outcome') := by
  cases h with
  | error => unfold afterActivation; infer_instance
  | ok he =>
    cases he with
    | returned | tailCall => unfold afterActivation; infer_instance
    | suspended hw =>
      have := setPayload_keeps act (@Payloads.activation like _ _ p hw)
      unfold afterActivation
      refine .next fun _ => ?_
      split <;> infer_instance

instance (act : ObjectRef) (res : Resumption) :
    like.Keeps (resumeActivation call run act (some res))
      (fun n => resumeActivation (more n) (further n) act (some res)) := by
  have := fun p => setPlain_keeps like act (.activation none p) rfl
  refine payload_bind _ fun one other hp => ?_
  cases hp with
  | activation hw =>
    refine .next fun _ => ⟨fun {m _} hm => ?_⟩
    have hr := like.wakes m res hw
    refine .bind (nested_run_tracks hm hr).attempt fun outcome outcome' later later' hm ho => ?_
    exact (afterActivation_keeps act _ ho).tracks hm
  | plain hp =>
    cases one with
    | activation fr p =>
      cases fr with
      | some fr => cases hp
      | none => infer_instance
    | _ => infer_instance
  | _ => infer_instance

omit [Caller.Keeps like call more] [Runner.Keeps like run further] in
/-- A new activation is run at once, so that its first frame never waits in the heap. -/
theorem resumeActivation_alloc (call : Caller) (run : Runner) (fr : Frame) (p : ObjectRef) (m : Machine) :
    resumeActivation call run ⟨m.heap.objects.size⟩ none { m with
          heap := (m.heap.alloc { payload := .activation (some fr) p }).2 } =
      (attempt (nested (run fr)) >>= afterActivation call ⟨m.heap.objects.size⟩ p)
        { m with heap := (m.heap.alloc { payload := .activation none p }).2 } := by
  have hp : payload ⟨m.heap.objects.size⟩ { m with
          heap := (m.heap.alloc { payload := .activation (some fr) p }).2 } =
      .ok (.activation (some fr) p) { m with
          heap := (m.heap.alloc { payload := .activation (some fr) p }).2 } := by
    simp only [payload, look, Heap.object_alloc, if_true]
  unfold resumeActivation
  rw [bind_apply, hp]
  dsimp only
  rw [bind_apply]
  simp only [change, Heap.setPayload_alloc]
  rfl

omit [Caller.Keeps like call more] [Runner.Keeps like run further] in
theorem startAsync_eq (callee : ObjectRef) (closure : Closure) (recv : Value)
    (args : List Value) :
    startAsync call run callee closure recv args = (do
      let p ← newPromise
      let fr ← newFrame callee closure recv args
      let act ← alloc { payload := .activation none p }
      afterActivation call act p (← attempt (nested (run fr)))
      return .object p) := by
  refine bind_congr fun p => bind_congr fun fr => funext fun m => ?_
  have hr := resumeActivation_alloc call run fr p m
  have hf : ∀ obj, (m.heap.alloc obj).1 = ⟨m.heap.objects.size⟩ := fun _ => rfl
  simp only [bind_apply, alloc, apply, hf]
  rw [hr, bind_apply]
  cases attempt (nested (run fr)) _ <;> rfl

theorem startAsync_keeps {callee closure closure' recv args} (h : like.Closures closure closure') :
    like.Keeps (startAsync call run callee closure recv args)
      (fun n => startAsync (more n) (further n) callee closure' recv args) := by
  simp only [startAsync_eq]
  refine .next fun p => ⟨fun hm => ?_⟩
  refine .bind (newFrame_tracks h hm) fun fr fr' later later' hm hr => ?_
  have hactivation : like.Objects { payload := .activation none p }
      { payload := .activation none p } := .plain rfl
  have ha := hm.heaps.alloc hactivation
  have hready : like.Tracks (fun a b later => a = b ∧ like.ready later fr fr')
      (alloc { payload := .activation none p })
      (fun _ => alloc { payload := .activation none p }) later later' :=
    .of_ok rfl (.of_eq fun _ => rfl) (hm.withHeap ha.2) ⟨ha.1, like.keeps hr rfl rfl⟩
  refine .bind hready ?_
  rintro act _ later later' hm ⟨rfl, hr⟩
  refine .bind (nested_run_tracks hm hr).attempt fun outcome outcome' later later' hm ho => ?_
  have : like.Keeps (afterActivation call act p outcome)
      (fun n => afterActivation (more n) act p outcome') :=
    afterActivation_keeps act p ho
  exact .of_keeps inferInstance hm

/-! ## Functions -/

/-- Runs to a value that follow others. -/
class Activator.Keeps (like : Likeness) (activate : Frame → Action Value)
    (more : Nat → Frame → Action Value) : Prop where
  runs : ∀ {m m' fr fr'}, like.Machines m m' →
    like.ready m fr fr' →
    like.Tracks (fun a b _ => a = b) (activate fr) (fun n => more n fr') m m'

variable {activate : Frame → Action Value} {further' : Nat → Frame → Action Value}
  [Activator.Keeps like activate further']

theorem callClosure_keeps {callee : ObjectRef} {closure closure' : Closure} {recv : Value}
    {args : List Value} (h : like.Closures closure closure') :
    like.Keeps (callClosure call run activate callee closure recv args)
      (fun n => callClosure (more n) (further n) (further' n) callee closure' recv args) := by
  have plain : like.Keeps (nested (newFrame callee closure recv args >>= activate))
      (fun n => nested (newFrame callee closure' recv args >>= further' n)) :=
    ⟨fun hm => .nested hm (fun _ _ _ h => h) <| .bind (newFrame_tracks h hm.enter)
      fun _ _ _ _ hm hr => Activator.Keeps.runs hm hr⟩
  unfold callClosure
  rw [← (like.agrees h.code).kind]
  cases closure.code.kind with
  | generator => exact startGenerator_keeps h
  | async | asyncArrow => exact startAsync_keeps h
  | _ => exact plain

instance callValue_keeps (callee recv : Value) (args : List Value) :
    like.Keeps (callValue call run activate callee recv args)
      (fun n => callValue (more n) (further n) (further' n) callee recv args) := by
  have refused := failLook_keeps (α := Value) like
    (fun heap => .notFunction (heap.describe callee)) fun hh => by rw [hh.describe]
  unfold callValue
  dsimp only
  split
  · refine payload_bind _ fun one other hp => ?_
    cases hp with
    | function hc => exact callClosure_keeps hc
    | plain hp =>
      cases one with
      | function _ => cases hp
      | _ => infer_instance
    | _ => infer_instance
  · infer_instance

instance (callee : Value) (args : List Value) :
    like.Keeps (construct call callee args) (fun n => construct (more n) callee args) := by
  have refused := failLook_keeps (α := Value) like
    (fun heap => .notConstructor (heap.describe callee)) fun hh => by rw [hh.describe]
  have := fun prototype => allocWith_keeps like prototype .ordinary rfl
  unfold construct
  dsimp only
  split
  · refine payload_bind _ fun one other hp => ?_
    cases hp with
    | function hc =>
      dsimp only
      rw [← (like.agrees hc.code).kind]
      infer_instance
    | plain hp =>
      cases one with
      | function _ => cases hp
      | _ => infer_instance
    | _ => infer_instance
  · infer_instance

theorem createClosure_keeps {code code'} (h : like.code code code') (record : RecordRef)
    (receiver : Option Value) : like.Keeps (createClosure code record receiver)
      (fun _ => createClosure code' record receiver) := by
  have ha := like.agrees h
  have objects (prototype : ObjectRef) :
      like.Objects { prototype := some prototype, payload := .function { code, record, receiver } }
        { prototype := some prototype, payload := .function { code := code', record, receiver } } :=
    ⟨rfl, rfl, .function ⟨h, rfl, rfl⟩, rfl⟩
  have function := fun prototype => alloc_keeps (objects prototype)
  have := fun prototype => allocWith_keeps like prototype .ordinary rfl
  unfold createClosure
  rw [← ha.name, ← ha.paramCount, ← ha.kind]
  refine .next fun realm => ?_
  refine @Keeps.bind _ _ _ _ _ _ _ (function realm.functionPrototype) fun ref => ?_
  refine .next fun _ => ?_
  refine .next fun _ => ?_
  refine .next fun realm => ?_
  split <;> infer_instance

/-! ## Jobs -/

instance runJob_keeps (job : Job) :
    like.Keeps (runJob call run job) (fun n => runJob (more n) (further n) job) := by
  unfold runJob
  split <;> infer_instance

instance nextJob_keeps : like.Stills nextJob := by
  refine ⟨fun {m m'} hm => ?_⟩
  cases hj : m.jobs with
  | nil => exact .of_ok (nextJob_of_nil hj) (.of_eq fun _ => nextJob_of_nil (hm.jobs ▸ hj)) hm rfl
  | cons job jobs =>
    refine .of_ok (nextJob_of_cons hj) (.of_eq fun _ => nextJob_of_cons (hm.jobs ▸ hj)) ?_ rfl
    exact ⟨hm.heaps, hm.realm, hm.limits, hm.depth, rfl, hm.output, hm.room⟩

omit [Caller.Keeps like call more] [Runner.Keeps like run further]
  [Activator.Keeps like activate further'] in
/-- The jobs of a queue, one after the other. -/
theorem runJobs_keeps (n : Nat) : ∀ {more : Nat → Caller} {further : Nat → Runner}
    [Caller.Keeps like call more] [Runner.Keeps like run further] (count : Nat),
    like.Keeps (runJobs call run count n) (fun n => runJobs (more n) (further n) count n) := by
  induction n with
  | zero => exact fun _ => ⟨fun hm => .stop hm⟩
  | succ n ih =>
    intro more further hc hr count
    have : Caller.Keeps like call (fun n => more (n + 1)) :=
      ⟨fun callee recv args => ⟨fun hm => ((hc.calls _ _ _).tracks hm).succ⟩⟩
    have : Runner.Keeps like run (fun n => further (n + 1)) := ⟨fun hm h => (hr.runs hm h).succ⟩
    have rest := @ih (fun n => more (n + 1)) (fun n => further (n + 1)) _ _
    refine ⟨fun hm => .of_succ ?_⟩
    refine .bind (nextJob_keeps.tracks hm) fun job _ later later' hm he => ?_
    subst he
    refine .of_keeps ?_ hm
    cases job with
    | none => infer_instance
    | some job =>
      have : like.Keeps (runJob call run job)
          (fun n => runJob (more (n + 1)) (further (n + 1)) job) :=
        @runJob_keeps like call (fun n => more (n + 1)) run (fun n => further (n + 1))
          _ _ job
      infer_instance

end Action

end Ecma
