/-
Laws of a machine: relations between a machine and a later one that whole runs uphold because their
parts do. A law comes with a standard for the code that functions have and for the frames that wait
or run.
-/
import Ecma.Proofs.Calm
import Ecma.Proofs.FrameCode

namespace Ecma

open Code (Template)

variable {α β : Type}

/-! ## Standards -/

/-- What is asked of code and of frames. -/
structure Standard where
  code : Template → Prop
  frame : Frame → Prop
  /-- Whether frames that wait are to be of the kind of what holds them. -/
  kinds : Prop
  functions : ∀ {outer inner}, code outer → inner ∈ outer.functions → code inner
  start : ∀ {template} record recv callee args imports, code template →
    frame { Frame.start template record recv callee args with imports }
  resume : ∀ {waiting} res, frame waiting → frame (waiting.resume res)
  holds : ∀ {running}, frame running → code running.code
  advances : ∀ {call running}, frame running →
    Action.Gives (Action.Progress.Has frame) (Action.advance call running)
  compiles : ∀ {options : Compile.Options} {program : Syntax.Program Unit} {script},
    Compile.compile options program = .ok script → code script.template

/-- The standard that says nothing about code and frames but, maybe, that frames that wait are of
the kind of what holds them. -/
def Standard.ofKinds (kinds : Prop) : Standard where
  code _ := True
  frame _ := True
  kinds := kinds
  functions _ _ := trivial
  start _ _ _ _ _ _ := trivial
  resume _ _ := trivial
  holds _ := trivial
  advances _ := ⟨fun {_ progress _} _ => by
    cases progress with
    | next => trivial
    | exit left => cases left <;> trivial⟩
  compiles _ := trivial

/-- The standard that everything meets. -/
abbrev Standard.lax : Standard := .ofKinds False

def Standard.Admits (standard : Standard) : Payload → Prop
  | .function closure => standard.code closure.code
  | .generator (.start fr) | .generator (.yielded fr) =>
    standard.frame fr ∧ (standard.kinds → fr.code.kind = .generator)
  | .activation (some fr) _ =>
    standard.frame fr ∧ (standard.kinds → fr.code.kind.isAsync = true)
  | _ => True

/-- A machine whose objects all meet a standard. -/
structure Machine.Meets (m : Machine) (standard : Standard) : Prop where
  admits : ∀ ref, standard.Admits (m.heap.payload ref)

namespace Standard

variable {standard : Standard}

theorem admits_of_isCommon {payload} (h : payload.isCommon = true) : standard.Admits payload := by
  cases payload <;> trivial

theorem admits_of_calms {first second} (h : first.Calms second) (ha : standard.Admits first)
    : standard.Admits second := by
  obtain rfl | ⟨-, h⟩ := h
  · exact ha
  · exact admits_of_isCommon h

theorem lax_admits (payload : Payload) : lax.Admits payload := by
  unfold Admits
  split <;> first | trivial | exact ⟨trivial, nofun⟩

end Standard

namespace Machine.Meets

variable {standard : Standard} {m later : Machine}

theorem lax (m : Machine) : m.Meets .lax := ⟨fun ref => Standard.lax_admits (m.heap.payload ref)⟩

theorem of_calms (hm : m.Meets standard) (h : m.Calms later) : later.Meets standard :=
  ⟨fun ref => Standard.admits_of_calms (h.heap.payload ref) (hm.admits ref)⟩

theorem of_heap (hm : m.Meets standard) (h : later.heap = m.heap) : later.Meets standard := by
  refine ⟨fun ref => ?_⟩
  rw [h]
  exact hm.admits ref

theorem alloc (hm : m.Meets standard) {obj} (h : standard.Admits obj.payload) :
    Machine.Meets { m with heap := (m.heap.alloc obj).2 } standard := by
  refine ⟨fun ref => ?_⟩
  dsimp only
  rw [Heap.payload_alloc]
  split
  · exact h
  · exact hm.admits ref

theorem setPayload (hm : m.Meets standard) (ref : ObjectRef) {payload} (h : standard.Admits payload) :
    Machine.Meets { m with heap := m.heap.setPayload ref payload } standard := by
  refine ⟨fun other => ?_⟩
  dsimp only
  rw [Heap.payload_setPayload]
  split
  · exact h
  · exact hm.admits other

end Machine.Meets

/-! ## Natures -/

/-- What an object is once and for all. -/
inductive Payload.Nature where
  | common
  | function
  | generator
  | promise
  /-- An activation, with the promise of its result. -/
  | activation (r : ObjectRef)

/-- What an object with a payload is once and for all. -/
def Payload.nature : Payload → Payload.Nature
  | .function _ => .function
  | .generator _ => .generator
  | .promise _ => .promise
  | .activation _ r => .activation r
  | _ => .common

def Payload.Nature.At (nature : Payload.Nature) (ref : ObjectRef) (m : Machine) : Prop :=
  (m.heap.payload ref).nature = nature

theorem Payload.nature_of_isCommon {payload : Payload} (h : payload.isCommon = true) :
    payload.nature = .common := by
  cases payload <;> first | rfl | cases h

theorem Payload.nature_of_calms {first second : Payload} (h : first.Calms second) :
    second.nature = first.nature := by
  obtain rfl | ⟨h, h'⟩ := h
  · rfl
  · rw [nature_of_isCommon h, nature_of_isCommon h']

namespace Heap

/-- The objects of a heap are what they were. -/
structure Natures (first second : Heap) : Prop where
  size : first.objects.size ≤ second.objects.size
  nature : ∀ ref, ref.index < first.objects.size →
    (second.payload ref).nature = (first.payload ref).nature

/-- Only what is in a heap is of a nature of its own. -/
theorem lt_of_nature {heap : Heap} {ref : ObjectRef} (h : (heap.payload ref).nature ≠ .common) :
    ref.index < heap.objects.size := by
  refine lt_of_payload (Bool.eq_false_iff.mpr fun hc => h ?_)
  exact Payload.nature_of_isCommon hc

namespace Natures

variable {first second third : Heap}

theorem refl (heap : Heap) : heap.Natures heap := ⟨Nat.le_refl _, fun _ _ => rfl⟩

theorem trans (h : first.Natures second) (g : second.Natures third) : first.Natures third :=
  ⟨Nat.le_trans h.size g.size, fun ref hr =>
    (g.nature ref (Nat.lt_of_lt_of_le hr h.size)).trans (h.nature ref hr)⟩

theorem of_calms (h : first.Calms second) : first.Natures second :=
  ⟨h.size, fun ref _ => Payload.nature_of_calms (h.payload ref)⟩

theorem alloc (heap : Heap) (obj : Object) : heap.Natures (heap.alloc obj).2 := by
  refine ⟨by simp [size_alloc], fun ref hr => ?_⟩
  rw [payload_alloc, if_neg (Nat.ne_of_lt hr)]

theorem setPayload {heap : Heap} {ref} {payload : Payload}
    (h : payload.nature = (heap.payload ref).nature)
    : heap.Natures (heap.setPayload ref payload) := by
  refine ⟨Nat.le_of_eq (size_setPayload ..).symm, fun other _ => ?_⟩
  rw [payload_setPayload]
  split
  · next hr => rw [hr.1, h]
  · rfl

/-- An object of a nature of its own is still of that nature. -/
theorem keeps (h : first.Natures second) {ref : ObjectRef} {nature : Payload.Nature}
    (hs : (first.payload ref).nature = nature) (hc : nature ≠ .common) :
    (second.payload ref).nature = nature := by
  rw [h.nature ref (lt_of_nature (hs ▸ hc)), hs]

end Natures

end Heap

/-! ## Laws -/

/-- A relation between machines that calm changes, new functions and new generators uphold. -/
structure Law where
  standard : Standard
  rel : Machine → Machine → Prop
  refl : ∀ m, rel m m
  trans : ∀ {first second third}, rel first second → rel second third → rel first third
  nested : ∀ {m later}, rel (Action.enter m) later → rel m (Action.leave later)
  calm : ∀ {m later}, m.Calms later → rel m later
  function : ∀ (m : Machine) {obj : Object} {closure},
    obj.payload = .function closure →
      rel m { m with heap := (m.heap.alloc obj).2 }
  generator : ∀ (m : Machine) {obj : Object} {fr},
    obj.payload = .generator (.start fr) →
      rel m { m with heap := (m.heap.alloc obj).2 }

/-- A machine that meets the standard follows another one as a law asks. -/
structure Law.Follows (law : Law) (m later : Machine) : Prop where
  meets : later.Meets law.standard
  natures : m.heap.Natures later.heap
  rel : law.rel m later

namespace Law.Follows

variable {law : Law} {first second third : Machine}

theorem refl {m} (h : m.Meets law.standard) : law.Follows m m := ⟨h, .refl _, law.refl _⟩

theorem trans (h : law.Follows first second) (g : law.Follows second third) :
    law.Follows first third :=
  ⟨g.meets, h.natures.trans g.natures, law.trans h.rel g.rel⟩

theorem of_calms (hm : first.Meets law.standard) (h : first.Calms second) :
    law.Follows first second :=
  ⟨hm.of_calms h, .of_calms h.heap, law.calm h⟩

end Law.Follows

/-- The machine that an action leaves, unless it ran out of fuel. -/
def Action.reached? (action : Action α) (m : Machine) : Option Machine :=
  match action m with
  | .ok _ later | .error (.raised _) later => some later
  | .error .exhausted _ => none

namespace Action

variable {action x : Action α} {k : α → Action β} {m later : Machine}

theorem reached?_of_ok {a} (h : action m = .ok a later) : action.reached? m = some later := by
  unfold reached?
  rw [h]

theorem reached?_of_raised {exception} (h : action m = .error (.raised exception) later) :
    action.reached? m = some later := by
  unfold reached?
  rw [h]

/-- A machine that a sequence of actions leaves is left by its rest, or by its first part. -/
theorem reached?_bind (h : (x >>= k).reached? m = some later) :
    (∃ a middle, x m = .ok a middle ∧ (k a).reached? middle = some later) ∨
      ∃ exception, x m = .error (.raised exception) later := by
  unfold reached? at h
  rw [show (x >>= k) m = EStateM.bind x k m from rfl] at h
  unfold EStateM.bind at h
  cases he : x m with
  | ok a middle =>
    rw [he] at h
    exact .inl ⟨a, middle, rfl, h⟩
  | error stop middle =>
    rw [he] at h
    cases stop with
    | raised exception => cases h; exact .inr ⟨exception, rfl⟩
    | exhausted => cases h

theorem reached?_bind_of_ok {middle a} (h : x m = .ok a middle)
    : (x >>= k).reached? m = (k a).reached? middle := by
  unfold reached?
  rw [show (x >>= k) m = EStateM.bind x k m from rfl]
  unfold EStateM.bind
  rw [h]

/-- A machine that a nested action leaves is left by the action one call deeper, or it is the
first one. -/
theorem reached?_nested (h : (nested x).reached? m = some later) :
    later = m ∨ ∃ left, x.reached? (enter m) = some left ∧ later = leave left := by
  by_cases hd : m.limits.callDepth ≤ m.depth
  · unfold reached? at h
    rw [nested_of_full hd] at h
    cases h
    exact .inl rfl
  · refine .inr ?_
    unfold reached? nested at h
    rw [if_neg hd] at h
    unfold reached?
    cases he : x (enter m) with
    | ok a left => rw [he] at h; cases h; exact ⟨left, rfl, rfl⟩
    | error stop left =>
      rw [he] at h
      cases stop with
      | raised exception => cases h; exact ⟨left, rfl, rfl⟩
      | exhausted => cases h

theorem payload_bind_apply {ref : ObjectRef} {k : Payload → Action α} :
    (payload ref >>= k) m = k (m.heap.payload ref) m := rfl

theorem attempt_ne_raised {exception} : attempt x m ≠ .error (.raised exception) later := by
  unfold attempt
  split <;> nofun

theorem reached?_attempt {outcome} (h : attempt x m = .ok outcome later)
    : x.reached? m = some later := by
  unfold attempt at h
  cases he : x m with
  | ok a left => rw [he] at h; cases h; exact reached?_of_ok he
  | error stop left =>
    rw [he] at h
    cases stop with
    | raised exception => cases h; exact reached?_of_raised he
    | exhausted => cases h

end Action

/-- An action that upholds a law on machines of a kind. -/
structure UpholdsFrom (law : Law) (kind : Machine → Prop) (action : Action α) : Prop where
  upholds : ∀ {m later}, kind m → m.Meets law.standard →
    action.reached? m = some later → law.Follows m later

/-- An action that upholds a law. -/
class Upholds (law : Law) (action : Action α) : Prop where
  upholds : ∀ {m later}, m.Meets law.standard →
    action.reached? m = some later → law.Follows m later

variable {law : Law} {action x : Action α} {k : α → Action β} {m later : Machine}

namespace Upholds

theorem of_ok (h : Upholds law action) {a} (hm : m.Meets law.standard) (he : action m = .ok a later) :
    law.Follows m later :=
  h.upholds hm (Action.reached?_of_ok he)

theorem of_raised (h : Upholds law action) {exception} (hm : m.Meets law.standard)
    (he : action m = .error (.raised exception) later) : law.Follows m later :=
  h.upholds hm (Action.reached?_of_raised he)

/-- An action that changes a machine calmly, or not at all. -/
theorem of_calm (h : ∀ {m later}, action.reached? m = some later → m.Calms later) :
    Upholds law action :=
  ⟨fun hm he => .of_calms hm (h he)⟩

theorem of_same (h : ∀ {m later}, action.reached? m = some later → later = m) :
    Upholds law action :=
  of_calm fun he => h he ▸ .refl _

instance pure (a : α) : Upholds law (Pure.pure a) := of_same fun h => by cases h; rfl

instance stop (stop : Stop) : Upholds law (throw stop : Action α) :=
  of_same fun h => by cases stop <;> cases h; rfl

instance raise (exception : Exception) : Upholds law (Action.raise exception : Action α) := stop _

instance fail (cause : Cause) : Upholds law (Action.fail cause : Action α) := stop _

instance bind [hx : Upholds law x] [hk : ∀ a, Upholds law (k a)] : Upholds law (x >>= k) := by
  refine ⟨fun {m later} hm h => ?_⟩
  obtain ⟨a, middle, he, hl⟩ | ⟨exception, he⟩ := Action.reached?_bind h
  · have hfirst := hx.of_ok hm he
    exact hfirst.trans ((hk a).upholds hfirst.meets hl)
  · exact hx.of_raised hm he

theorem next {f : α → Action β} [Upholds law x] (hf : ∀ a, Upholds law (f a)) :
    Upholds law (x >>= f) := bind

/-- What comes later may rely on what the first action gives. -/
theorem bind_gives {post} (hx : Upholds law x) (hg : Action.Gives post x)
    (hk : ∀ a, post a → Upholds law (k a)) : Upholds law (x >>= k) := by
  refine ⟨fun {m later} hm h => ?_⟩
  obtain ⟨a, middle, he, hl⟩ | ⟨exception, he⟩ := Action.reached?_bind h
  · have hfirst := hx.of_ok hm he
    exact hfirst.trans ((hk a (hg.gives he)).upholds hfirst.meets hl)
  · exact hx.of_raised hm he

/-- Nothing follows a failure. -/
instance (priority := high) fail_bind (cause : Cause) : Upholds law (Action.fail cause >>= k) :=
  (fail cause : Upholds law (Action.fail cause : Action β))

instance ite {p} [Decidable p] {y} [Upholds law x] [Upholds law y] :
    Upholds law (if p then x else y) := by
  split <;> infer_instance

instance ofExcept (outcome : Except Cause α) : Upholds law (Action.ofExcept outcome) := by
  cases outcome <;> unfold Action.ofExcept <;> infer_instance

instance attempt [hx : Upholds law x] : Upholds law (Action.attempt x) := by
  refine ⟨fun {m later} hm h => ?_⟩
  cases he : Action.attempt x m with
  | ok outcome reached =>
    rw [Action.reached?_of_ok he] at h
    cases h
    exact hx.upholds hm (Action.reached?_attempt he)
  | error stop reached =>
    unfold Action.reached? at h
    rw [he] at h
    cases stop with
    | raised exception => exact absurd he Action.attempt_ne_raised
    | exhausted => cases h

instance mapM {f : α → Action β} [h : ∀ a, Upholds law (f a)] {items : List α} :
    Upholds law (items.mapM f) := by
  induction items with
  | nil => exact pure _
  | cons item rest ih =>
    rw [List.mapM_cons]
    infer_instance

instance realm : Upholds law Action.realm := of_same fun h => by cases h; rfl

instance look (f : Heap → α) : Upholds law (Action.look f) := of_same fun h => by cases h; rfl

instance get : Upholds law (MonadState.get : Action Machine) := of_same fun h => by cases h; rfl

instance query (f : Heap → Except Cause α) : Upholds law (Action.query f) := by
  refine of_same fun {m later} h => ?_
  unfold Action.reached? Action.query at h
  cases he : f m.heap with
  | ok v | error cause => rw [he] at h; cases h; rfl

instance change (f : Heap → Heap) [h : Heap.Calm f] : Upholds law (Action.change f) :=
  of_calm fun he => by cases he; exact .ofHeap (h.calms _)

instance apply (f : Heap → α × Heap) [h : Heap.CalmMove f] : Upholds law (Action.apply f) :=
  of_calm fun he => by cases he; exact .ofHeap (h.calms _)

instance update (u : Heap.Update α) [h : Heap.Update.Calm u] : Upholds law (Action.update u) := by
  refine of_calm fun {m later} he => ?_
  have hs := h.calms m.heap
  unfold Heap.Update.leaves at hs
  unfold Action.reached? at he
  cases hu : u m.heap with
  | ok v heap =>
    rw [Action.update_of_ok hu] at he
    cases he
    rw [hu] at hs
    exact .ofHeap hs
  | error cause heap =>
    rw [Action.update_of_error hu] at he
    cases he
    rw [hu] at hs
    exact .ofHeap hs

instance printLine (line : String) : Upholds law (Action.printLine line) :=
  of_calm fun h => by cases h; exact ⟨.refl _, rfl, rfl, rfl, rfl⟩

theorem payload {ref : ObjectRef} {k : Payload → Action α}
    (h : ∀ payload, law.standard.Admits payload →
      UpholdsFrom law (fun m => m.heap.payload ref = payload) (k payload)) :
    Upholds law (Action.payload ref >>= k) := by
  refine ⟨fun {m later} hm he => ?_⟩
  exact (h (m.heap.payload ref) (hm.admits ref)).upholds rfl hm he

/-- An action that upholds a law does so on machines of any kind. -/
theorem anywhere {kind} (h : Upholds law action) :
    UpholdsFrom law kind action := ⟨fun _ hm he => h.upholds hm he⟩

end Upholds

namespace UpholdsFrom

variable {kind : Machine → Prop}

theorem bind (hx : UpholdsFrom law kind x)
    (hk : ∀ a, Upholds law (k a)) : UpholdsFrom law kind (x >>= k) := by
  refine ⟨fun {m later} hm' hm h => ?_⟩
  obtain ⟨a, middle, he, hl⟩ | ⟨exception, he⟩ := Action.reached?_bind h
  · have hfirst := hx.upholds hm' hm (Action.reached?_of_ok he)
    exact hfirst.trans ((hk a).upholds hfirst.meets hl)
  · exact hx.upholds hm' hm (Action.reached?_of_raised he)

/-- What follows may rely on the nature of an object. -/
theorem bind_nature {ref} {nature : Payload.Nature} (hc : nature ≠ .common)
    (hx : UpholdsFrom law (nature.At ref) x) (hk : ∀ a, UpholdsFrom law (nature.At ref) (k a)) :
    UpholdsFrom law (nature.At ref) (x >>= k) := by
  refine ⟨fun {m later} hs hm h => ?_⟩
  obtain ⟨a, middle, he, hl⟩ | ⟨exception, he⟩ := Action.reached?_bind h
  · have hfirst := hx.upholds hs hm (Action.reached?_of_ok he)
    exact hfirst.trans ((hk a).upholds (hfirst.natures.keeps hs hc) hfirst.meets hl)
  · exact hx.upholds hs hm (Action.reached?_of_raised he)

/-- What follows may also rely on what the first action gives. -/
theorem bind_nature_gives {ref} {nature : Payload.Nature} (hc : nature ≠ .common) {post}
    (hx : Upholds law x) (hg : Action.Gives post x) (hk : ∀ a, post a →
      UpholdsFrom law (nature.At ref) (k a)) : UpholdsFrom law (nature.At ref) (x >>= k) := by
  refine ⟨fun {m later} hs hm h => ?_⟩
  obtain ⟨a, middle, he, hl⟩ | ⟨exception, he⟩ := Action.reached?_bind h
  · have hfirst := hx.of_ok hm he
    exact hfirst.trans ((hk a (hg.gives he)).upholds (hfirst.natures.keeps hs hc) hfirst.meets hl)
  · exact hx.of_raised hm he

theorem nested {deeper} (hk : ∀ m, kind m → deeper (Action.enter m)) (hx : UpholdsFrom law deeper x) :
    UpholdsFrom law kind (Action.nested x) := by
  refine ⟨fun {m later} hm' hm h => ?_⟩
  obtain rfl | ⟨left, hl, rfl⟩ := Action.reached?_nested h
  · exact .refl hm
  · have hleft := hx.upholds (hk m hm') (hm.of_heap rfl) hl
    exact ⟨hleft.meets.of_heap rfl, hleft.natures, law.nested hleft.rel⟩

theorem setCommon {ref first second} (hf : first.isCommon = true)
    (hs : second.isCommon = true ∧ second.isArray = false) :
    UpholdsFrom law (fun m => m.heap.payload ref = first)
      (Action.change fun heap => heap.setPayload ref second) := by
  refine ⟨fun {m later} hk hm h => ?_⟩
  cases h
  exact .of_calms hm (.ofHeap (.setPayload (by rw [hk, hf]) hs))

end UpholdsFrom

instance Upholds.nested [hx : Upholds law x] : Upholds law (Action.nested x) :=
  have hanywhere : UpholdsFrom law (fun _ => True) x := hx.anywhere
  ⟨fun hm h => (UpholdsFrom.nested (fun _ => id) hanywhere).upholds trivial hm h⟩

/-! ## New objects -/

/-- A payload that is common whatever its parts. -/
class Payload.Common (payload : Payload) : Prop where
  common : payload.isCommon = true

namespace Payload

instance : Common .ordinary := ⟨rfl⟩
instance {elements} : Common (.array elements) := ⟨rfl⟩
instance {kind suppressed} : Common (.error kind suppressed) := ⟨rfl⟩
instance {array index} : Common (.arrayIterator array index) := ⟨rfl⟩
instance {vs index} : Common (.listIterator vs index) := ⟨rfl⟩

end Payload

namespace Upholds

instance allocWith {prototype} {payload : Payload} [h : payload.Common] :
    Upholds law (Action.allocWith prototype payload) :=
  of_calm fun he => by cases he; exact .ofHeap (.alloc _ h.common)

instance allocRecord (record : Record) : Upholds law (Action.allocRecord record) :=
  inferInstanceAs (Upholds law (Action.apply fun heap => heap.allocRecord record))

theorem allocFunction {prototype closure} (h : law.standard.code closure.code) :
    Upholds law (Action.allocWith prototype (.function closure)) :=
  ⟨fun hm he => by cases he; exact ⟨hm.alloc h, .alloc .., law.function _ rfl⟩⟩

theorem allocGenerator {prototype fr} (h : law.standard.Admits (.generator (.start fr))) :
    Upholds law (Action.allocWith prototype (.generator (.start fr))) :=
  ⟨fun hm he => by cases he; exact ⟨hm.alloc h, .alloc .., law.generator _ rfl⟩⟩

end Upholds

/-! ## Ways to call and to run -/

/-- One way to call upholds a law. -/
class Caller.Upholds (law : Law) (call : Caller) : Prop where
  calls : ∀ callee recv args, Ecma.Upholds law (call callee recv args)

attribute [instance] Caller.Upholds.calls

/-- One way to run frames upholds a law, and keeps the standard. -/
class Runner.Upholds (law : Law) (run : Runner) : Prop where
  runs : ∀ {fr}, law.standard.frame fr → Ecma.Upholds law (run fr)
  stays : ∀ {fr}, law.standard.frame fr →
    Action.Gives (Exit.Has fun kept => law.standard.frame kept ∧ kept.code = fr.code) (run fr)

/-- One way to run frames to their end upholds a law. -/
class Activator.Upholds (law : Law) (activate : Frame → Action Value) : Prop where
  runs : ∀ {fr}, law.standard.frame fr → Ecma.Upholds law (activate fr)

/-- A law that promises, generators and asynchronous functions uphold. -/
class Law.Complete (law : Law) : Prop where
  promiseOf : ∀ v, Upholds law (Action.promiseOf v)
  rejectedPromise : ∀ reason, Upholds law (Action.rejectedPromise reason)
  promiseThen : ∀ v onFulfilled onRejected,
    Upholds law (Action.promiseThen v onFulfilled onRejected)
  resumeGenerator : ∀ {n}, Runner.Upholds law (Action.run n) → ∀ recv res,
    Upholds law (Action.resumeGenerator (Action.run n) recv res)
  startAsync : ∀ {n}, Caller.Upholds law (Action.call n) →
    Runner.Upholds law (Action.run n) → ∀ callee closure recv args,
    law.standard.code closure.code → closure.code.kind.isAsync = true →
    Upholds law (Action.startAsync (Action.call n) (Action.run n) callee closure recv
      args)

attribute [instance] Law.Complete.promiseOf Law.Complete.rejectedPromise Law.Complete.promiseThen

end Ecma

