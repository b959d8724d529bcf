/-
Properties of the global object: what the declaration of a variable or a function makes of them,
and what a new function leaves of the heap.
-/
import Ecma.Proofs.Globals
import Ecma.Proofs.Law

namespace Ecma

/-! ## Properties of an object that is no array -/

namespace Heap

variable {heap later : Heap} {object : ObjectRef} {key : PropertyKey} {property : Property}

/-- A heap with a property of an object. -/
def withProperty (heap : Heap) (object : ObjectRef) (key : PropertyKey) (property : Property) : Heap :=
  heap.modifyObject object fun old => { old with properties := old.properties.insert key property }

/-- A heap with other objects, in which one object may have other properties under some keys. -/
structure Reshapes (object : ObjectRef) (keys : List PropertyKey) (heap later : Heap) : Prop where
  size : heap.objects.size ≤ later.objects.size
  payload : ∀ ref : ObjectRef, ref.index < heap.objects.size → later.payload ref = heap.payload ref
  extensible : (later.object object).extensible = (heap.object object).extensible
  other : ∀ key, key ∉ keys → later.ownProperty? object key = heap.ownProperty? object key

namespace Reshapes

variable {keys : List PropertyKey} {last : Heap}

theorem refl (object : ObjectRef) (keys : List PropertyKey) (heap : Heap) :
    heap.Reshapes object keys heap :=
  ⟨Nat.le_refl _, fun _ _ => rfl, rfl, fun _ _ => rfl⟩

theorem trans (h : Reshapes object keys heap later) (g : Reshapes object keys later last) :
    Reshapes object keys heap last :=
  ⟨Nat.le_trans h.size g.size,
    fun ref hr => (g.payload ref (Nat.lt_of_lt_of_le hr h.size)).trans (h.payload ref hr),
    g.extensible.trans h.extensible, fun key hk => (g.other key hk).trans (h.other key hk)⟩

theorem of_objects (h : later.objects = heap.objects) : Reshapes object keys heap later := by
  have ho : ∀ ref, later.object ref = heap.object ref := fun ref => by rw [Heap.object, Heap.object, h]
  refine ⟨Nat.le_of_eq (by rw [h]), fun ref _ => ?_, ?_, fun key _ => ?_⟩
  · rw [Heap.payload, ho]; rfl
  · rw [ho]
  · rw [ownProperty?, ho]; rfl

end Reshapes

theorem ownProperty?_withProperty (hr : object.index < heap.objects.size) (other : PropertyKey) :
    (heap.withProperty object key property).ownProperty? object other =
      if other = key then some property else heap.ownProperty? object other := by
  rw [ownProperty?, withProperty, object_modifyObject, if_pos ⟨rfl, hr⟩]
  exact PropertyMap.find?_insert _ _ _ _

theorem reshapes_withProperty (hr : object.index < heap.objects.size) :
    heap.Reshapes object [key] (heap.withProperty object key property) := by
  refine ⟨by simp [withProperty, modifyObject], fun ref _ => ?_, ?_, fun other hk => ?_⟩
  · rw [payload, withProperty, object_modifyObject]
    split <;> rfl
  · rw [withProperty, object_modifyObject]
    split <;> rfl
  · rw [ownProperty?_withProperty hr, if_neg (mt List.mem_singleton.mpr hk)]

theorem modifyObject_congr {f g : Object → Object}
    (h : f (heap.object object) = g (heap.object object)) :
    heap.modifyObject object f = heap.modifyObject object g := by
  unfold modifyObject
  congr 1
  refine Array.ext (by simp) fun index hi _ => ?_
  rw [Array.getElem_modify, Array.getElem_modify]
  split
  · next he =>
    subst he
    have hi : object.index < heap.objects.size := by simpa using hi
    have ho : heap.object object = heap.objects[object.index] := by
      unfold Heap.object
      rw [Array.getD_eq_getD_getElem?, Array.getElem?_eq_getElem hi]
      rfl
    rw [← ho, h]
  · rfl

section

variable (ha : (heap.payload object).isArray = false)

include ha

theorem place_eq (key : PropertyKey) : (heap.object object).place key = .property :=
  if_neg (Bool.eq_false_iff.mp ha)

theorem hasOwn_eq : heap.hasOwn object key = (heap.ownProperty? object key).isSome := by
  rw [hasOwn, getOwn?, Object.get?, place_eq ha]
  exact Option.isSome_map

theorem define_eq : (heap.define object key property).2 =
    if (heap.ownProperty? object key).all Property.configurable then
      heap.withProperty object key property
    else heap := by
  have hd : (heap.object object).canDefine key =
      (heap.ownProperty? object key).all Property.configurable := by
    rw [Object.canDefine, place_eq ha]
    rfl
  unfold define
  rw [hd]
  split
  · refine modifyObject_congr ?_
    rw [Object.define, place_eq ha]
  · rfl

theorem set_eq {value : Value} (hp : heap.ownProperty? object key = some property)
    (hw : property.writable = true) :
    (heap.set object key value).2 = heap.withProperty object key { property with value } := by
  have hfind : (heap.object object).properties.find? key = some property := hp
  have hs : (heap.object object).canSet key value = true := by
    rw [Object.canSet, place_eq ha]
    dsimp only
    rw [hfind]
    exact hw
  unfold set
  rw [if_pos hs]
  refine modifyObject_congr ?_
  rw [Object.set, place_eq ha]
  dsimp only
  rw [hfind, Option.isSome_some, if_pos rfl, PropertyMap.modify_eq_insert hfind]

end

/-! ## Declarations -/

section

variable {ref : RecordRef} {name : String} (hr : object.index < heap.objects.size)
  (ha : (heap.payload object).isArray = false)

theorem reshapes_modifyRecord (f : Record → Record) {keys : List PropertyKey} :
    heap.Reshapes object keys (heap.modifyRecord ref f) := .of_objects rfl

include hr ha

/-- A variable that can be declared is there afterwards, as it was or undefined. -/
theorem withVar_spec (h : heap.takesVar object name = true) :
    heap.Reshapes object [.string name] (heap.withVar ref object name false) ∧
      ∃ property, (heap.withVar ref object name false).ownProperty? object (.string name) =
        some property ∧ (heap.ownProperty? object (.string name) = some property ∨
          heap.ownProperty? object (.string name) = none ∧ property.value = .undefined) := by
  unfold takesVar at h
  unfold withVar
  rw [hasOwn_eq ha] at h ⊢
  cases hp : heap.ownProperty? object (.string name) with
  | some property => exact ⟨reshapes_modifyRecord _, property, hp, .inl rfl⟩
  | none =>
    rw [hp] at h
    have he : (heap.object object).extensible = true := h
    simp only [he, Option.isSome_none, Bool.not_false, Bool.and_self, if_true]
    simp only [define_eq ha, hp, Option.all_none, if_true]
    refine ⟨(reshapes_withProperty hr).trans (reshapes_modifyRecord _),
      { value := .undefined, configurable := false }, ?_, .inr ⟨trivial, rfl⟩⟩
    exact (ownProperty?_withProperty hr _).trans (if_pos rfl)

/-- A function that can be declared is there afterwards. -/
theorem withFunction_spec (h : heap.takesFunction object name = true) (value : Value) :
    heap.Reshapes object [.string name] (heap.withFunction ref object name value false) ∧
      ∃ property, (heap.withFunction ref object name value false).ownProperty? object (.string name) =
        some property ∧ property.value = value := by
  -- A property that may be configured is replaced; any other one is written.
  have hset : ∀ (middle : Heap) (property : Property),
      heap.Reshapes object [.string name] middle →
      middle.ownProperty? object (.string name) = some property → property.writable = true →
      heap.Reshapes object [.string name] (middle.set object (.string name) value).2 ∧
        ∃ property, (middle.set object (.string name) value).2.ownProperty? object (.string name) =
          some property ∧ property.value = value := by
    intro middle property hm hp hw
    have hlt : object.index < middle.objects.size := Nat.lt_of_lt_of_le hr hm.size
    rw [set_eq ((hm.payload object hr).symm ▸ ha) hp hw]
    refine ⟨hm.trans (reshapes_withProperty hlt), { property with value }, ?_, rfl⟩
    exact (ownProperty?_withProperty hlt _).trans (if_pos rfl)
  have hnew := hset (heap.withProperty object (.string name) { value, configurable := false }) _
    (reshapes_withProperty hr) ((ownProperty?_withProperty hr _).trans (if_pos rfl)) rfl
  unfold takesFunction at h
  unfold withFunction
  dsimp only
  rw [define_eq ha]
  cases hp : heap.ownProperty? object (.string name) with
  | none =>
    simp only [functionProperty, Option.all_none, if_true, Bool.false_eq_true, if_false]
    obtain ⟨hshape, found, hf, hv⟩ := hnew
    exact ⟨hshape.trans (reshapes_modifyRecord _), found, hf, hv⟩
  | some property =>
    rw [hp] at h
    dsimp only at h
    cases hc : property.configurable with
    | true =>
      simp only [functionProperty, hc, Option.all_some, if_true, Bool.false_eq_true, if_false]
      obtain ⟨hshape, found, hf, hv⟩ := hnew
      exact ⟨hshape.trans (reshapes_modifyRecord _), found, hf, hv⟩
    | false =>
      rw [hc, Bool.false_or, Bool.and_eq_true] at h
      simp only [functionProperty, hc, Option.all_some, Bool.false_eq_true, if_false]
      obtain ⟨hshape, found, hf, hv⟩ := hset _ _ (.refl object _ heap) hp h.1
      exact ⟨hshape.trans (reshapes_modifyRecord _), found, hf, hv⟩

end

/-! ## New functions -/

/-- A heap after changes of a new function and of what is newer. -/
structure Adjoins (ref : ObjectRef) (heap later : Heap) : Prop where
  records : later.records = heap.records
  size : heap.objects.size ≤ later.objects.size
  object : ∀ other : ObjectRef, other.index < ref.index → later.object other = heap.object other
  payload : ∀ {closure}, heap.payload ref = .function closure →
    later.payload ref = .function closure

namespace Adjoins

variable {ref : ObjectRef} {last : Heap}

theorem trans (h : Adjoins ref heap later) (g : Adjoins ref later last) : Adjoins ref heap last :=
  ⟨g.records.trans h.records, Nat.le_trans h.size g.size,
    fun other ho => (g.object other ho).trans (h.object other ho), fun hp => g.payload (h.payload hp)⟩

theorem alloc (object : Object) (h : ref.index < heap.objects.size) :
    Adjoins ref heap (heap.alloc object).2 := by
  refine ⟨rfl, by simp [Heap.alloc], fun other ho => ?_, fun hp => ?_⟩
  · rw [object_alloc, if_neg (by omega)]
  · rw [payload_alloc, if_neg (Nat.ne_of_lt h), hp]

theorem define {target : ObjectRef} (key : PropertyKey) (property : Property)
    (h : ref.index ≤ target.index) : Adjoins ref heap (heap.define target key property).2 := by
  have hcalm := CalmMove.calms (f := fun heap => heap.define target key property) heap
  refine ⟨?_, hcalm.size, fun other ho => ?_, fun {closure} hp => ?_⟩
  · unfold Heap.define
    split <;> rfl
  · unfold Heap.define
    split
    · dsimp only
      rw [object_modifyObject, if_neg (by omega)]
    · rfl
  · obtain he | ⟨hc, -⟩ := hcalm.payload ref
    · exact he.trans hp
    · rw [hp] at hc
      cases hc

theorem reshapes {keys : List PropertyKey} (h : Adjoins ref heap later)
    (hr : ref.index = heap.objects.size) (ho : object.index < ref.index) :
    heap.Reshapes object keys later := by
  refine ⟨h.size, fun other hlt => ?_, by rw [h.object object ho], fun key _ => ?_⟩
  · rw [Heap.payload, h.object other (hr ▸ hlt)]
    rfl
  · rw [ownProperty?, h.object object ho]
    rfl

end Adjoins

end Heap

namespace Action

/-- The last step of making a function: the object that it offers as a prototype. -/
def offer (ref : ObjectRef) (kind : Code.FunctionKind) (offered : Option ObjectRef) :
    Action ObjectRef := do
  if let some parent := offered then
    let prototype ← allocWith parent .ordinary
    if kind = .normal then
      change fun heap => heap.defineHidden prototype (.string "constructor") (.object ref)
    change fun heap =>
      (heap.define ref (.string "prototype")
        { value := .object prototype, enumerable := false, configurable := false }).2
  return ref

theorem offer_spec {ref : ObjectRef} {m : Machine} (kind : Code.FunctionKind)
    (offered : Option ObjectRef) (h : ref.index < m.heap.objects.size) :
    ∃ heap, offer ref kind offered m = .ok ref { m with heap } ∧
      m.heap.Adjoins ref heap := by
  cases offered with
  | none => exact ⟨m.heap, rfl, rfl, Nat.le_refl _, fun _ _ => rfl, id⟩
  | some parent =>
    have halloc := Heap.Adjoins.alloc { prototype := some parent } h
    by_cases hk : kind = .normal
    · subst hk
      exact ⟨_, rfl, (halloc.trans (.define _ _ (Nat.le_of_lt h))).trans (.define _ _ (Nat.le_refl _))⟩
    · let property : Property :=
        { value := .object ⟨m.heap.objects.size⟩, enumerable := false, configurable := false }
      refine ⟨_, ?_, halloc.trans (.define (.string "prototype") property (Nat.le_refl _))⟩
      unfold offer
      simp only [if_neg hk]
      rfl

/-- A new function leaves what there was before. -/
theorem createClosure_spec (code : Code.Template) (record : RecordRef) (receiver : Option Value)
    (m : Machine) :
    ∃ heap, createClosure code record receiver m =
        .ok ⟨m.heap.objects.size⟩ { m with heap } ∧
      m.heap.Adjoins ⟨m.heap.objects.size⟩ heap ∧
      heap.payload ⟨m.heap.objects.size⟩ = .function ⟨code, record, receiver⟩ := by
  let ref : ObjectRef := ⟨m.heap.objects.size⟩
  let object : Object :=
    { prototype := some m.realm.functionPrototype
      payload := .function ⟨code, record, receiver⟩ }
  let first := (m.heap.alloc object).2
  let second := first.defineHidden ref (.string "name") (.string code.name)
  let third := second.defineHidden ref (.string "length") (.number (Float.ofNat code.paramCount))
  have hfirst : m.heap.Adjoins ref first := by
    refine ⟨rfl, by simp [first, Heap.alloc], fun other ho => ?_, fun hp => ?_⟩
    · rw [Heap.object_alloc, if_neg (Nat.ne_of_lt ho)]
    · cases hp.symm.trans (Heap.payload_of_le (Nat.le_refl _))
  have hpayload : first.payload ref = .function ⟨code, record, receiver⟩ := by
    rw [Heap.payload_alloc, if_pos rfl]
  have hthird : first.Adjoins ref third :=
    .trans (.define _ _ (Nat.le_refl _)) (.define _ _ (Nat.le_refl _))
  have hsize : ref.index < third.objects.size := by
    have hs : first.objects.size = ref.index + 1 := Heap.size_alloc ..
    exact Nat.lt_of_lt_of_le (hs ▸ Nat.lt_succ_self _) hthird.size
  have hstart : createClosure code record receiver m =
      offer ref code.kind (offeredPrototype m.realm code.kind)
        { m with heap := third } := rfl
  obtain ⟨heap, he, hoffer⟩ := @offer_spec ref { m with heap := third } code.kind
    (offeredPrototype m.realm code.kind) hsize
  exact ⟨heap, hstart.trans he, (hfirst.trans hthird).trans hoffer,
    hoffer.payload (hthird.payload hpayload)⟩

end Action

end Ecma
