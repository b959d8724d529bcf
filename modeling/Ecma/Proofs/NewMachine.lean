/-
The machine on which nothing ran yet: no object is a function with code, a generator, a promise or
an activation, and there is one record, the global one, which declares nothing.
-/
import Ecma.Proofs.Calm

namespace Ecma

namespace Realm.Construction

/-- A heap of common objects, with the given records. -/
structure Bare (records : Array Record) (heap : Heap) : Prop where
  common : ∀ ref, (heap.payload ref).isCommon = true
  records : heap.records = records

/-- What is common is like itself whatever codes and frames are alike. -/
theorem Bare.object {records heap} (h : Bare records heap) (like : Likeness) (ref : ObjectRef)
    : like.Objects (heap.object ref) (heap.object ref) := by
  refine .plain ?_
  have hc := h.common ref
  unfold Heap.payload at hc
  cases hp : (heap.object ref).payload <;> rw [hp] at hc <;> first | rfl | cases hc

/-- A construction that only adds and changes objects without code. -/
class Keeps {α : Type} (step : Construction α) : Prop where
  bare : ∀ {records heap}, Bare records heap → Bare records (step heap).2

variable {α β : Type}

instance Keeps.pure (a : α) : Keeps (pure a) := ⟨id⟩

instance Keeps.bind {step : Construction α} {next : α → Construction β} [hs : Keeps step]
    [hn : ∀ a, Keeps (next a)] : Keeps (step >>= next) :=
  ⟨fun {_ heap} h => (hn (step heap).1).bare (hs.bare h)⟩

/-- A construction of that kind with a fact about its result. -/
structure Makes (step : Construction α) (fact : α → Prop) : Prop where
  keeps : Keeps step
  fact : ∀ heap, fact (step heap).1

theorem Makes.pure {fact : α → Prop} {a : α} (h : fact a) : Makes (pure a) fact :=
  ⟨.pure a, fun _ => h⟩

theorem Makes.step {fact : β → Prop} {step : Construction α} {next : α → Construction β}
    [Keeps step] (hn : ∀ a, Makes (next a) fact) : Makes (step >>= next) fact :=
  have := fun a => (hn a).keeps
  ⟨.bind, fun heap => (hn (step heap).1).fact (step heap).2⟩

theorem Bare.alloc {records : Array Record} {heap : Heap} (h : Bare records heap) {obj : Object}
    (hp : obj.payload.isCommon = true) : Bare records (heap.alloc obj).2 := by
  refine ⟨fun ref => ?_, h.records⟩
  rw [Heap.payload_alloc]
  split
  · exact hp
  · exact h.common ref

theorem Bare.define {records heap} (h : Bare records heap) (target : ObjectRef) (key : PropertyKey)
    (property : Property) : Bare records (heap.define target key property).2 := by
  refine ⟨fun ref => ?_, ?_⟩
  · have hcalm := Heap.CalmMove.calms (f := fun heap => heap.define target key property) heap
    obtain hc | ⟨-, hc⟩ := hcalm.payload ref
    · rw [hc]
      exact h.common ref
    · exact hc
  · unfold Heap.define
    split <;> exact h.records

instance (prototype : Option ObjectRef) : Keeps (alloc prototype) := ⟨fun h => h.alloc rfl⟩

instance (target : ObjectRef) (key : PropertyKey) (v : Value) : Keeps (hide target key v) :=
  ⟨fun h => h.define target key _⟩

instance (target : ObjectRef) (name : String) (v : Value) : Keeps (freeze target name v) :=
  ⟨fun h => h.define target _ _⟩

instance (prototype : Option ObjectRef) (builtin : Builtin) :
    Keeps (allocWith prototype (.builtin builtin)) := ⟨fun h => h.alloc rfl⟩

instance (prototype : Option ObjectRef) (kind : ErrorKind) :
    Keeps (allocWith prototype (.errorConstructor kind)) := ⟨fun h => h.alloc rfl⟩

instance (prototype : Option ObjectRef) (elements : Array Value) :
    Keeps (allocWith prototype (.array elements)) := ⟨fun h => h.alloc rfl⟩

instance (functionPrototype : ObjectRef) (builtin : Builtin) :
    Keeps (function functionPrototype builtin) := Keeps.bind

theorem keeps_forM {step : α → Construction Unit} [∀ a, Keeps (step a)] :
    (items : List α) → Keeps (items.forM step)
  | [] => Keeps.pure ()
  | item :: rest =>
    have : Keeps (rest.forM step) := keeps_forM rest
    (inferInstance : Keeps (do step item; rest.forM step))

instance (functionPrototype target : ObjectRef) (builtins : List Builtin) :
    Keeps (methods functionPrototype target builtins) :=
  keeps_forM builtins

instance (functionPrototype globalObject parent : ObjectRef) (kind : ErrorKind) :
    Keeps (errorKind functionPrototype globalObject parent kind) := by
  have h : Makes (errorKind functionPrototype globalObject parent kind) fun _ => True := by
    unfold errorKind
    dsimp only
    split <;> (repeat refine .step fun _ => ?_) <;> exact .pure trivial
  exact h.keeps

instance (description : String) : Keeps (modifyGet fun heap => heap.addSymbol description) :=
  ⟨fun h => ⟨h.common, h.records⟩⟩

end Realm.Construction

namespace Realm

open Construction

/-- Once there is a global record, what is made is without code. -/
theorem construct_eq : ∃ rest : ObjectRef → ObjectRef → ObjectRef → RecordRef → Construction Realm,
    construct = (do
      let objectPrototype ← alloc none
      let functionPrototype ← alloc (some objectPrototype)
      let globalObject ← alloc (some objectPrototype)
      let globalRecord ← modifyGet fun heap => heap.allocRecord (.global globalObject [] [])
      rest objectPrototype functionPrototype globalObject globalRecord) ∧
    ∀ objectPrototype functionPrototype globalObject globalRecord,
      Makes (rest objectPrototype functionPrototype globalObject globalRecord) fun realm =>
        realm.globalObject = globalObject ∧ realm.globalRecord = globalRecord := by
  refine ⟨_, rfl, fun _ _ _ _ => ?_⟩
  repeat refine .step fun _ => ?_
  exact .pure ⟨rfl, rfl⟩

theorem construct_bare :
    Bare #[.global (construct.run {}).1.globalObject [] []] (construct.run {}).2 ∧
      (construct.run {}).1.globalRecord = ⟨0⟩ := by
  obtain ⟨rest, hconstruct, hrest⟩ := construct_eq
  have hempty : Bare #[] {} := ⟨fun _ => rfl, rfl⟩
  let start : Construction (ObjectRef × ObjectRef × ObjectRef) := do
    let objectPrototype ← alloc none
    let functionPrototype ← alloc (some objectPrototype)
    let globalObject ← alloc (some objectPrototype)
    return (objectPrototype, functionPrototype, globalObject)
  have hstart : Bare #[] (start {}).2 := Keeps.bare hempty
  let global := Record.global (start {}).1.2.2 [] []
  have hglobal : Bare #[global] ((start {}).2.allocRecord global).2 :=
    ⟨hstart.common, congrArg (·.push global) hstart.records⟩
  have made := hrest (start {}).1.1 (start {}).1.2.1 (start {}).1.2.2 ⟨0⟩
  let r := rest (start {}).1.1 (start {}).1.2.1 (start {}).1.2.2 ⟨0⟩
    ((start {}).2.allocRecord global).2
  have hresult : r.1.globalObject = (start {}).1.2.2 ∧ r.1.globalRecord = ⟨0⟩ :=
    made.fact _
  have hbare : Bare #[.global r.1.globalObject [] []] r.2 := by
    rw [hresult.1]
    exact made.keeps.bare hglobal
  rw [hconstruct]
  exact ⟨hbare, hresult.2⟩

end Realm

/-- The machine on which nothing ran yet holds common objects only. -/
theorem Machine.new_common (limits : Limits) (ref : ObjectRef) :
    ((Machine.new limits).heap.payload ref).isCommon = true := by
  have hbare := Realm.construct_bare.1
  unfold Machine.new
  generalize Realm.construct.run {} = made at hbare ⊢
  exact hbare.common ref

/-- The machine on which nothing ran yet is like itself. -/
theorem Likeness.Machines.new (like : Likeness) {limits} (h : like.room ≤ limits.stackSize)
    : like.Machines (.new limits) (.new limits) := by
  obtain ⟨hbare, hrecord⟩ := Realm.construct_bare
  unfold Machine.new
  generalize Realm.construct.run {} = made at hbare hrecord ⊢
  refine ⟨⟨rfl, hbare.object like, rfl, rfl, [], [], ?_, nofun⟩, rfl, rfl, rfl, rfl, rfl, h⟩
  change made.2.record made.1.globalRecord = _
  rw [hrecord, Heap.record, hbare.records]
  rfl

end Ecma
