/-
Calm changes of a machine: those in which no function, generator, promise or activation comes up,
none changes, and properties that are permanent stay. Whatever is done to properties, elements and
bindings is calm.
-/
import Ecma.Engine.Basic
import Ecma.Proofs.Tandem

namespace Ecma

variable {α β : Type}

/-! ## Payloads -/

namespace Payload

/-- Whether a payload stands for no function, generator, promise or activation. -/
def isCommon : Payload → Bool
  | .function _ | .generator _ | .promise _ | .activation .. => false
  | _ => true

/-- A payload that is kept, or a common one in the place of another. -/
def Calms (first second : Payload) : Prop :=
  second = first ∨ first.isCommon = true ∧ second.isCommon = true

namespace Calms

variable {first second third : Payload}

theorem refl (payload : Payload) : payload.Calms payload := .inl rfl

theorem trans (h : first.Calms second) (g : second.Calms third) : first.Calms third := by
  obtain rfl | ⟨h, h'⟩ := h
  · exact g
  · obtain rfl | ⟨_, g⟩ := g
    · exact .inr ⟨h, h'⟩
    · exact .inr ⟨h, g⟩

end Calms

end Payload

/-! ## Permanent properties -/

/-- A property after a change that a permanent one allows: its flags are the same, and so is its
value unless it may be written. -/
structure Property.Persists (first second : Property) : Prop where
  writable : second.writable = first.writable
  enumerable : second.enumerable = first.enumerable
  configurable : second.configurable = first.configurable
  value : first.writable = false → second.value = first.value

/-- Properties after a change in which the permanent ones persist. -/
def PropertyMap.Keeps (first second : PropertyMap) : Prop :=
  ∀ key prop, first.find? key = some prop → prop.configurable = false →
    ∃ later, second.find? key = some later ∧ prop.Persists later

namespace PropertyMap.Keeps

variable {first second third : PropertyMap}

theorem refl (map : PropertyMap) : map.Keeps map :=
  fun _ prop h _ => ⟨prop, h, rfl, rfl, rfl, fun _ => rfl⟩

theorem trans (h : first.Keeps second) (g : second.Keeps third) : first.Keeps third := by
  intro key prop hp hc
  obtain ⟨middle, hm, hw⟩ := h key prop hp hc
  obtain ⟨later, hl, hw'⟩ := g key middle hm (hw.configurable.trans hc)
  refine ⟨later, hl, hw'.writable.trans hw.writable, hw'.enumerable.trans hw.enumerable,
    hw'.configurable.trans hw.configurable, fun hn => ?_⟩
  rw [hw'.value (hw.writable.trans hn), hw.value hn]

theorem insert {map : PropertyMap} {key prop}
    (h : ∀ old, map.find? key = some old → old.configurable = false → old.Persists prop) :
    map.Keeps (map.insert key prop) := by
  intro other old ho hc
  rw [find?_insert]
  split
  · next he => exact ⟨prop, rfl, h old (he ▸ ho) hc⟩
  · exact refl map other old ho hc

theorem modify {map : PropertyMap} {key f}
    (h : ∀ old, map.find? key = some old → old.Persists (f old)) :
    map.Keeps (map.modify key f) := by
  intro other old ho hc
  rw [find?_modify]
  split
  · next he => rw [← he, ho]; exact ⟨f old, rfl, h old (he ▸ ho)⟩
  · exact refl map other old ho hc

theorem erase {map : PropertyMap} {key} (h : (map.find? key).all Property.configurable = true)
    : map.Keeps (map.erase key) := by
  intro other old ho hc
  rw [find?_erase]
  split
  · next he =>
    rw [← he, ho] at h
    cases hc.symm.trans h
  · exact refl map other old ho hc

end PropertyMap.Keeps

/-! ## Objects -/

namespace Object

/-- An object after a calm change. -/
structure Calms (first second : Object) : Prop where
  payload : first.payload.Calms second.payload
  array : second.payload.isArray = true → first.payload.isArray = true
  properties : first.properties.Keeps second.properties

theorem Calms.refl (object : Object) : object.Calms object := ⟨.refl _, id, .refl _⟩

theorem calms_mapElements (object : Object) (f : Array Value → Array Value) :
    object.Calms (object.mapElements f) := by
  unfold mapElements
  split
  · exact ⟨.inr ⟨rfl, rfl⟩, fun _ => rfl, .refl _⟩
  · exact .refl _

/-- An assignment that succeeds leaves flags alone, and writes only what may be written. -/
theorem calms_set {object : Object} {key : PropertyKey} {v : Value}
    (h : object.canSet key v = true) : object.Calms (object.set key v) := by
  unfold canSet at h
  unfold set
  cases hp : object.place key with
  | element index => exact calms_mapElements object _
  | length =>
    dsimp only
    split
    · exact calms_mapElements object _
    · exact .refl _
  | property =>
    rw [hp] at h
    dsimp only at h ⊢
    refine ⟨.refl _, id, ?_⟩
    split
    · refine .modify fun old ho => ⟨rfl, rfl, rfl, fun hw => ?_⟩
      rw [ho] at h
      exact absurd (hw.symm.trans h) Bool.false_ne_true
    · next hn => exact .insert fun old ho _ => absurd (by rw [ho]; rfl) hn

/-- A definition that succeeds replaces nothing permanent. -/
theorem calms_define {object : Object} {key : PropertyKey} (prop : Property)
    (h : object.canDefine key = true) : object.Calms (object.define key prop) := by
  have hfree (hc : (object.properties.find? key).all Property.configurable = true) :
      object.Calms { object with properties := object.properties.insert key prop } := by
    refine ⟨.refl _, id, .insert fun old ho hold => ?_⟩
    rw [ho] at hc
    cases hold.symm.trans hc
  unfold canDefine at h
  unfold define
  cases hp : object.place key with
  | element index => exact calms_set (by unfold canSet; rw [hp])
  | length | property => rw [hp] at h; exact hfree h

/-- A deletion that succeeds removes nothing permanent. -/
theorem calms_delete {object : Object} {key : PropertyKey} (h : object.canDelete key = true) :
    object.Calms (object.delete key) := by
  unfold canDelete at h
  unfold delete
  cases hp : object.place key with
  | element index => exact calms_mapElements object _
  | length => exact .refl _
  | property => rw [hp] at h; exact ⟨.refl _, id, .erase h⟩

end Object

/-! ## Heaps -/

namespace Heap

def payload (heap : Heap) (ref : ObjectRef) : Payload := (heap.object ref).payload

/-- A heap after a change in which permanent properties persist. -/
def Keeps (first second : Heap) : Prop :=
  ∀ ref, (first.object ref).properties.Keeps (second.object ref).properties

/-- Past the end of a heap there are plain objects. -/
theorem object_of_le {heap : Heap} {ref : ObjectRef} (h : heap.objects.size ≤ ref.index) :
    heap.object ref = {} := by
  unfold object
  rw [Array.getD_eq_getD_getElem?, Array.getElem?_eq_none h]
  rfl

theorem payload_of_le {heap : Heap} {ref : ObjectRef} (h : heap.objects.size ≤ ref.index) :
    heap.payload ref = .ordinary := by
  unfold payload
  rw [object_of_le h]

/-- A heap after a calm change: new objects are common. -/
structure Calms (first second : Heap) : Prop where
  size : first.objects.size ≤ second.objects.size
  object : ∀ ref : ObjectRef, ref.index < first.objects.size →
    (first.object ref).Calms (second.object ref)
  fresh : ∀ ref : ObjectRef, first.objects.size ≤ ref.index → (second.payload ref).isCommon = true

theorem Calms.payload {first second : Heap} (h : first.Calms second) (ref : ObjectRef) :
    (first.payload ref).Calms (second.payload ref) := by
  obtain hr | hr := Nat.lt_or_ge ref.index first.objects.size
  · exact (h.object ref hr).payload
  · rw [payload_of_le hr]
    exact .inr ⟨rfl, h.fresh ref hr⟩

theorem lt_of_payload {heap : Heap} {ref : ObjectRef} (h : (heap.payload ref).isCommon = false) :
    ref.index < heap.objects.size := by
  refine Nat.lt_of_not_le fun hn => ?_
  rw [payload_of_le hn] at h
  cases h

theorem payload_alloc (heap : Heap) (object : Object) (ref : ObjectRef) :
    (heap.alloc object).2.payload ref =
      if ref.index = heap.objects.size then object.payload else heap.payload ref := by
  unfold payload
  rw [object_alloc]
  split <;> rfl

theorem payload_setPayload (heap : Heap) (ref other : ObjectRef) (payload : Payload) :
    (heap.setPayload ref payload).payload other =
      if other = ref ∧ ref.index < heap.objects.size then payload else heap.payload other := by
  unfold Heap.payload setPayload
  rw [object_modifyObject]
  have he : ref.index = other.index ↔ other = ref :=
    ⟨fun h => congrArg ObjectRef.mk h.symm, fun h => by rw [h]⟩
  simp only [he]
  split <;> rfl

theorem size_setPayload (heap : Heap) (ref : ObjectRef) (payload : Payload) :
    (heap.setPayload ref payload).objects.size = heap.objects.size := by
  simp [setPayload, modifyObject]

theorem size_alloc (heap : Heap) (object : Object) :
    (heap.alloc object).2.objects.size = heap.objects.size + 1 := by
  simp [alloc]

namespace Keeps

variable {first second third : Heap}

theorem refl (heap : Heap) : heap.Keeps heap := fun _ => .refl _

theorem trans (h : first.Keeps second) (g : second.Keeps third) : first.Keeps third :=
  fun ref => (h ref).trans (g ref)

theorem of_calms (h : first.Calms second) : first.Keeps second := by
  intro ref
  obtain hr | hr := Nat.lt_or_ge ref.index first.objects.size
  · exact (h.object ref hr).properties
  · rw [object_of_le hr]
    exact nofun

theorem alloc (heap : Heap) (object : Object) : heap.Keeps (heap.alloc object).2 := by
  intro ref
  rw [object_alloc]
  split
  · next hr =>
    rw [object_of_le (Nat.le_of_eq hr.symm)]
    exact nofun
  · exact .refl _

theorem setPayload (heap : Heap) (ref : ObjectRef) (payload : Payload) :
    heap.Keeps (heap.setPayload ref payload) := by
  intro other
  unfold Heap.setPayload
  rw [object_modifyObject]
  split <;> exact .refl _

end Keeps

namespace Calms

variable {first second third : Heap}

theorem refl (heap : Heap) : heap.Calms heap :=
  ⟨Nat.le_refl _, fun _ _ => .refl _, fun ref hr => by rw [payload_of_le hr]; rfl⟩

theorem trans (h : first.Calms second) (g : second.Calms third) : first.Calms third := by
  refine ⟨Nat.le_trans h.size g.size, fun ref hr => ?_, fun ref hr => ?_⟩
  · have hg := g.object ref (Nat.lt_of_lt_of_le hr h.size)
    exact ⟨(h.payload ref).trans hg.payload, fun ha => (h.object ref hr).array (hg.array ha),
      (Keeps.of_calms h ref).trans (Keeps.of_calms g ref)⟩
  · have hc := h.fresh ref hr
    obtain he | ⟨-, he⟩ := g.payload ref
    · rwa [he]
    · exact he

theorem of_objects (h : second.objects = first.objects) : first.Calms second := by
  have ho (ref) : second.object ref = first.object ref := by rw [Heap.object, Heap.object, h]
  refine ⟨Nat.le_of_eq (by rw [h]), fun ref _ => ?_, fun ref hr => ?_⟩
  · rw [ho]
    exact .refl _
  · rw [Heap.payload, ho, object_of_le hr]
    rfl

theorem alloc (heap : Heap) {object : Object} (h : object.payload.isCommon = true) :
    heap.Calms (heap.alloc object).2 := by
  refine ⟨by simp [Heap.alloc], fun ref hr => ?_, fun ref hr => ?_⟩
  · rw [object_alloc, if_neg (Nat.ne_of_lt hr)]
    exact .refl _
  · rw [payload_alloc, payload_of_le hr]
    split
    · exact h
    · rfl

theorem modifyObject (heap : Heap) (ref : ObjectRef) {f : Object → Object}
    (h : (heap.object ref).Calms (f (heap.object ref))) : heap.Calms (heap.modifyObject ref f) := by
  refine ⟨by simp [Heap.modifyObject], fun other _ => ?_, fun other hr => ?_⟩
  · rw [object_modifyObject]
    split
    · next hr =>
      obtain rfl : ref = other := congrArg ObjectRef.mk hr.1
      exact h
    · exact .refl _
  · have hout : ¬(ref.index = other.index ∧ ref.index < heap.objects.size) := by omega
    rw [Heap.payload, object_modifyObject, if_neg hout, object_of_le hr]
    rfl

/-- One common payload in the place of another, and not of an array. -/
theorem setPayload {heap : Heap} {ref} (h : (heap.payload ref).isCommon = true) {payload : Payload}
    (hp : payload.isCommon = true ∧ payload.isArray = false) :
    heap.Calms (heap.setPayload ref payload) :=
  modifyObject heap ref
    ⟨.inr ⟨h, hp.1⟩, fun ha => absurd (hp.2.symm.trans ha) Bool.false_ne_true, .refl _⟩

end Calms

/-! ## Changes of a heap -/

/-- A calm change of the heap, with a result. -/
class CalmMove (f : Heap → α × Heap) : Prop where
  calms : ∀ heap : Heap, heap.Calms (f heap).2

section

variable (ref : ObjectRef) (key : PropertyKey)

instance (v : Value) : CalmMove fun heap => heap.set ref key v where
  calms heap := by
    unfold set
    split
    · next h => exact .modifyObject heap ref (Object.calms_set h)
    · exact .refl heap

instance (prop : Property) : CalmMove fun heap => heap.define ref key prop where
  calms heap := by
    unfold define
    split
    · next h => exact .modifyObject heap ref (Object.calms_define prop h)
    · exact .refl heap

instance : CalmMove fun heap => heap.delete ref key where
  calms heap := by
    unfold delete
    split
    · next h => exact .modifyObject heap ref (Object.calms_delete h)
    · exact .refl heap

end

instance (record : Record) : CalmMove fun heap => heap.allocRecord record :=
  ⟨fun _ => .of_objects rfl⟩

instance (ref : RecordRef) : CalmMove fun heap => heap.copyRecord ref := ⟨fun _ => .of_objects rfl⟩

instance (ref : RecordRef) (name : String) : CalmMove fun heap => heap.deleteBinding ref name where
  calms heap := by
    unfold deleteBinding
    dsimp only
    split
    · split
      · exact .of_objects rfl
      · exact .refl heap
    · exact .refl heap
    · next object _ _ =>
      have h := CalmMove.calms (f := fun heap => heap.delete object (.string name)) heap
      split
      · next later he => rw [he] at h; exact h.trans (.of_objects rfl)
      · next later he => rw [he] at h; exact h
    · exact .refl heap

/-- A calm change of the heap. -/
class Calm (f : Heap → Heap) : Prop where
  calms : ∀ heap : Heap, heap.Calms (f heap)

section

variable (ref : ObjectRef) (key : PropertyKey)

instance (f : Heap → α × Heap) [h : CalmMove f] : Calm fun heap => (f heap).2 := ⟨h.calms⟩

instance (v : Value) : Calm fun heap => heap.defineHidden ref key v :=
  ⟨fun heap => CalmMove.calms (f := fun heap => heap.define ref key (.hidden v)) heap⟩

instance (f : Array Value → Array Value) :
    Calm fun heap => heap.modifyObject ref fun object => object.mapElements f :=
  ⟨fun heap => .modifyObject heap ref (Object.calms_mapElements _ f)⟩

end

section

variable (ref : RecordRef) (name : String)

instance (f : Record → Record) : Calm fun heap => heap.modifyRecord ref f :=
  ⟨fun _ => .of_objects rfl⟩

instance (hops slot : Nat) (cell : Cell) : Calm fun heap => heap.setCellAt ref hops slot cell :=
  ⟨fun _ => .of_objects rfl⟩

instance (deletable : Bool) : Calm fun heap => heap.createMutable ref name deletable where
  calms heap := by
    unfold createMutable
    split
    · next object _ => exact CalmMove.calms (f := fun heap => heap.set object (.string name) _) heap
    all_goals exact .of_objects rfl

instance (strict : Bool) : Calm fun heap => heap.createImmutable ref name strict :=
  ⟨fun _ => .of_objects rfl⟩

end

/-- The heap that a change leaves, whether it fails or not. -/
def Update.leaves (update : Update α) (heap : Heap) : Heap :=
  match update heap with
  | .ok _ later | .error _ later => later

/-- A calm change of the heap that may fail. -/
class Update.Calm (update : Update α) : Prop where
  calms : ∀ heap : Heap, heap.Calms (update.leaves heap)

namespace Update.Calm

instance pure (a : α) : Calm (Pure.pure a) := ⟨fun heap => .refl heap⟩

instance throw (cause : Cause) : Calm (MonadExcept.throw cause : Update α) :=
  ⟨fun heap => .refl heap⟩

instance get : Calm MonadState.get := ⟨fun heap => .refl heap⟩

instance query (f : Heap → Except Cause α) : Calm (Update.query f) := by
  refine ⟨fun heap => ?_⟩
  unfold leaves Update.query
  cases f heap <;> exact .refl heap

instance change (f : Heap → Heap) [h : Heap.Calm f] : Calm (Update.change f) := ⟨h.calms⟩

instance attempt (f : Heap → Bool × Heap) [h : CalmMove f] : Calm (Update.attempt f) := ⟨h.calms⟩

instance bind {x : Update α} {k : α → Update β} [hx : Calm x] [hk : ∀ a, Calm (k a)] :
    Calm (x >>= k) := by
  refine ⟨fun heap => ?_⟩
  have h := hx.calms heap
  unfold leaves at h ⊢
  cases he : x heap with
  | error cause later =>
    have : (x >>= k) heap = .error cause later := by
      change EStateM.bind x k heap = _
      simp only [EStateM.bind, he]
    rw [he] at h
    rw [this]
    exact h
  | ok a later =>
    have : (x >>= k) heap = k a later := by
      change EStateM.bind x k heap = _
      simp only [EStateM.bind, he]
    rw [he] at h
    rw [this]
    exact h.trans ((hk a).calms later)

instance ite {p : Prop} [Decidable p] {x y : Update α} [Calm x] [Calm y] :
    Calm (if p then x else y) := by
  split <;> infer_instance

end Update.Calm

section

variable (ref : RecordRef) (name : String) (v : Value)

instance (hops slot : Nat) (strict : Bool) : Update.Calm (setSlot ref hops slot v strict) := by
  unfold setSlot
  infer_instance

instance (hops slot : Nat) : Update.Calm (initializeSlot ref hops slot v) := by
  unfold initializeSlot
  infer_instance

instance : Update.Calm (initializeBinding ref name v) := by
  unfold initializeBinding
  refine @Update.Calm.bind _ _ _ _ _ fun heap => ?_
  dsimp only
  split <;> infer_instance

instance (object : ObjectRef) (strict : Bool) : Update.Calm (putProperty object name v strict) := by
  unfold putProperty
  infer_instance

instance (strict : Bool) : Update.Calm (setBinding ref name v strict) := by
  unfold setBinding
  refine @Update.Calm.bind _ _ _ _ _ fun heap => ?_
  dsimp only
  split <;> infer_instance

instance (deletable : Bool) : Update.Calm (createGlobalVar ref name deletable) := by
  unfold createGlobalVar
  refine @Update.Calm.bind _ _ _ _ _ fun globals => ?_
  have : Calm fun heap =>
      if !heap.hasOwn globals.1 (.string name) && (heap.object globals.1).extensible then
        (heap.define globals.1 (.string name) { value := .undefined, configurable := deletable }).2
      else heap := by
    refine ⟨fun heap => ?_⟩
    split
    · exact CalmMove.calms (f := fun heap => heap.define globals.1 (.string name) _) heap
    · exact .refl heap
  infer_instance

instance (deletable : Bool) : Update.Calm (createGlobalFunction ref name v deletable) := by
  unfold createGlobalFunction
  refine @Update.Calm.bind _ _ _ _ _ fun globals => ?_
  refine @Update.Calm.bind _ _ _ _ (@Update.Calm.change _ ⟨fun heap => ?_⟩) fun _ => inferInstance
  have h := CalmMove.calms (f := fun first => first.define globals.1 (.string name)
    (functionProperty (heap.ownProperty? globals.1 (.string name)) v deletable)) heap
  dsimp only
  split
  · exact h
  · exact h.trans (CalmMove.calms (f := fun heap => heap.set globals.1 (.string name) v) _)

end

end Heap

/-! ## Machines -/

/-- A machine after a calm change. -/
structure Machine.Calms (first second : Machine) : Prop where
  heap : first.heap.Calms second.heap
  realm : second.realm = first.realm
  limits : second.limits = first.limits
  depth : second.depth = first.depth
  jobs : second.jobs = first.jobs

theorem Machine.Calms.ofHeap {m : Machine} {heap} (h : m.heap.Calms heap) :
    m.Calms { m with heap } :=
  ⟨h, rfl, rfl, rfl, rfl⟩

theorem Machine.Calms.refl (m : Machine) : m.Calms m := ⟨.refl _, rfl, rfl, rfl, rfl⟩

end Ecma
