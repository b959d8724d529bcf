/-
The names that enumeration visits: each once, decided by the nearest object that has it, in the order
of the objects and, within one, of its elements and then of its properties.
-/
import Mathlib.Data.List.Nodup
import Mathlib.Data.List.Perm.Subperm
import Ecma.Heap.Basic

namespace Ecma

/-! ## Prototypes -/

namespace Heap

/-- An object and its prototypes, nearest first, up to one that has none. -/
inductive Prototypes (heap : Heap) : ObjectRef → List ObjectRef → Prop
  | last {ref : ObjectRef} : (heap.object ref).prototype = none → Prototypes heap ref [ref]
  | next {ref prototype : ObjectRef} {rest : List ObjectRef} :
    (heap.object ref).prototype = some prototype → Prototypes heap prototype rest →
    Prototypes heap ref (ref :: rest)

namespace Prototypes

variable {heap : Heap} {ref : ObjectRef} {objects : List ObjectRef}

theorem chainFrom_eq (h : heap.Prototypes ref objects) {n} (hf : objects.length ≤ n) :
    heap.chainFrom n ref = objects := by
  induction h generalizing n with
  | last hp =>
    obtain ⟨n, rfl⟩ := Nat.exists_eq_add_of_le' hf
    simp [Heap.chainFrom, hp]
  | next hp _ ih =>
    obtain ⟨n, rfl⟩ := Nat.exists_eq_succ_of_ne_zero (Nat.pos_iff_ne_zero.mp (Nat.zero_lt_of_lt hf))
    rw [Heap.chainFrom, hp]
    exact congrArg _ (ih (Nat.le_of_succ_le_succ hf))

theorem unique {others} (h : heap.Prototypes ref objects) (h' : heap.Prototypes ref others)
    : objects = others :=
  (h.chainFrom_eq (Nat.le_max_left ..)).symm.trans (h'.chainFrom_eq (Nat.le_max_right ..))

theorem of_mem {other} (h : heap.Prototypes ref objects) (ho : other ∈ objects) :
    ∃ rest, heap.Prototypes other rest ∧ rest.length ≤ objects.length := by
  induction h with
  | last hp =>
    cases List.mem_singleton.mp ho
    exact ⟨_, .last hp, Nat.le_refl _⟩
  | next hp hr ih =>
    obtain rfl | ho := List.mem_cons.mp ho
    · exact ⟨_, .next hp hr, Nat.le_refl _⟩
    · obtain ⟨rest, hr, hl⟩ := ih ho
      exact ⟨rest, hr, Nat.le_succ_of_le hl⟩

/-- An object that were its own prototype would have no end of them. -/
theorem nodup (h : heap.Prototypes ref objects) : objects.Nodup := by
  induction h with
  | last => exact List.nodup_singleton _
  | next hp hr ih =>
    refine List.nodup_cons.mpr ⟨fun hm => ?_, ih⟩
    obtain ⟨rest, hrest, hl⟩ := hr.of_mem hm
    rw [hrest.unique (.next hp hr)] at hl
    exact Nat.not_succ_le_self _ hl

theorem index_lt (h : heap.Prototypes ref objects) :
    ∀ other ∈ objects.dropLast, other.index < heap.objects.size := by
  induction h with
  | last => simp
  | @next ref prototype rest hp hr ih =>
    have hne : rest ≠ [] := by rintro rfl; cases hr
    rw [List.dropLast_cons_of_ne_nil hne]
    refine List.forall_mem_cons.mpr ⟨Nat.lt_of_not_le fun hs => ?_, ih⟩
    simp [Heap.object, Array.getElem?_eq_none hs, Array.getD_eq_getD_getElem?] at hp

theorem length_le (h : heap.Prototypes ref objects) : objects.length ≤ heap.objects.size + 1 := by
  have hn : (objects.dropLast.map ObjectRef.index).Nodup :=
    (h.nodup.sublist (List.dropLast_sublist _)).map fun a b hab => by cases a; cases b; simp_all
  have hsub : objects.dropLast.map ObjectRef.index ⊆ List.range heap.objects.size := by
    intro i hi
    obtain ⟨other, ho, rfl⟩ := List.mem_map.mp hi
    exact List.mem_range.mpr (h.index_lt other ho)
  have := (hn.subperm hsub).length_le
  simp only [List.length_map, List.length_dropLast, List.length_range] at this
  omega

theorem chain_eq (h : heap.Prototypes ref objects) : heap.chain ref = objects :=
  h.chainFrom_eq h.length_le

end Prototypes

end Heap

/-! ## Names of one object -/

def PropertyKey.name? : PropertyKey → Option String
  | string name => some name
  | symbol _ => none

namespace Object

variable {obj : Object} {name : String}

/-- The string keys of an object: its elements in ascending order, and its properties as they were
added. -/
def ownNames (obj : Object) : List String :=
  (List.range obj.elements.size).map toString ++ obj.properties.keys.filterMap PropertyKey.name?

def IsElement (obj : Object) (name : String) : Prop :=
  ∃ index < obj.elements.size, toString index = name

/-- Whether a name is one of an element or of a property. -/
def HasName (obj : Object) (name : String) : Prop :=
  obj.IsElement name ∨ ∃ prop, obj.properties.find? (.string name) = some prop

/-- Whether a name is one of an element or of an enumerable property. -/
def ShowsName (obj : Object) (name : String) : Prop :=
  obj.IsElement name ∨
    ∃ prop, obj.properties.find? (.string name) = some prop ∧ prop.enumerable = true

theorem map_fst_names (obj : Object) : obj.names.map Prod.fst = obj.ownNames := by
  simp only [names, ownNames, PropertyMap.keys, List.map_append, List.map_map, List.map_filterMap,
    List.filterMap_map]
  congr 2
  funext ⟨key, prop⟩
  cases key <;> rfl

theorem lookup_eq_some_of_unique {names : List (String × Bool)} {enumerable : Bool}
    (hmem : (name, enumerable) ∈ names)
    (hunique : ∀ other, (name, other) ∈ names → other = enumerable) :
    names.lookup name = some enumerable := by
  cases h : names.lookup name with
  | none => simpa using List.lookup_eq_none_iff.mp h _ hmem
  | some other =>
    obtain ⟨before, after, rfl, -⟩ := List.lookup_eq_some_iff.mp h
    rw [hunique other (by simp)]

theorem lookup_names_of_isElement (h : obj.IsElement name) : obj.names.lookup name = some true := by
  have hfound : ((List.range obj.elements.size).map fun index =>
      (toString index, true)).lookup name = some true := by
    unfold IsElement at h
    apply lookup_eq_some_of_unique <;> grind
  rw [names, List.lookup_append, hfound]
  rfl

theorem lookup_names_of_not_isElement (h : ¬ obj.IsElement name) : obj.names.lookup name =
      (obj.properties.find? (.string name)).map Property.enumerable := by
  have hnone : ((List.range obj.elements.size).map fun index =>
      (toString index, true)).lookup name = none := by
    rw [List.lookup_eq_none_iff]
    unfold IsElement at h
    grind
  rw [names, List.lookup_append, hnone, Option.none_or]
  cases hf : obj.properties.find? (.string name) with
  | none =>
    rw [Option.map_none, List.lookup_eq_none_iff]
    grind [PropertyMap.mem_entries_iff]
  | some prop =>
    have := PropertyMap.mem_entries_iff.mpr hf
    apply lookup_eq_some_of_unique <;> grind [PropertyMap.mem_entries_iff]

theorem lookup_names_eq_none : obj.names.lookup name = none ↔ ¬ obj.HasName name := by
  by_cases h : obj.IsElement name
  · simp [lookup_names_of_isElement h, HasName, h]
  · simp [lookup_names_of_not_isElement h, HasName, h, Option.eq_none_iff_forall_ne_some]

theorem lookup_names_eq_true : obj.names.lookup name = some true ↔ obj.ShowsName name := by
  by_cases h : obj.IsElement name
  · simp [lookup_names_of_isElement h, ShowsName, h]
  · simp [lookup_names_of_not_isElement h, ShowsName, h]

end Object

/-! ## Enumeration -/

namespace Heap

theorem mem_firstNames {name enumerable seen names} : (name, enumerable) ∈ firstNames seen names ↔
      name ∉ seen ∧ names.lookup name = some enumerable := by
  induction names generalizing seen with
  | nil => simp [firstNames]
  | cons entry rest ih =>
    unfold firstNames
    grind

theorem map_fst_firstNames (seen : List String) (names : List (String × Bool)) :
    (firstNames seen names).map Prod.fst =
      ((names.map Prod.fst).filter fun name => name ∉ seen).eraseDups := by
  induction names generalizing seen with
  | nil => rfl
  | cons entry rest ih =>
    unfold firstNames
    split
    · next h => simp_all
    · next h =>
      simp_all [List.eraseDups_cons, List.filter_filter, ← Bool.beq_eq_decide_eq]

theorem nodup_firstNames (seen : List String) (names : List (String × Bool)) :
    ((firstNames seen names).map Prod.fst).Nodup := by
  induction names generalizing seen with
  | nil => exact List.nodup_nil
  | cons entry rest ih =>
    unfold firstNames
    split
    · exact ih seen
    · refine List.nodup_cons.mpr ⟨fun hm => ?_, ih _⟩
      obtain ⟨⟨_, flag⟩, he, rfl⟩ := List.mem_map.mp hm
      exact (mem_firstNames.mp he).1 List.mem_cons_self

theorem lookup_flatMap {α : Type} (f : α → List (String × Bool)) (l : List α) (name : String) :
    (l.flatMap f).lookup name = l.findSome? fun a => (f a).lookup name := by
  induction l with
  | nil => rfl
  | cons a l ih =>
    rw [List.flatMap_cons, List.lookup_append, List.findSome?_cons, ih]
    cases (f a).lookup name <;> rfl

/-- Enumeration visits each name once; it visits those that the nearest object with the name shows;
and it visits them where they stand first among the names of the objects, nearest first. -/
theorem enumerableNames_visits {heap : Heap} {ref : ObjectRef} {objects : List ObjectRef}
    (h : heap.Prototypes ref objects) :
    (heap.enumerableNames ref).Nodup ∧
      (∀ name, name ∈ heap.enumerableNames ref ↔ ∃ nearer object farther,
        objects = nearer ++ object :: farther ∧ (heap.object object).ShowsName name ∧
          ∀ other ∈ nearer, ¬ (heap.object other).HasName name) ∧
      (heap.enumerableNames ref).Sublist
        (objects.flatMap fun object => (heap.object object).ownNames).eraseDups := by
  have hsub := List.filter_sublist (p := Prod.snd)
    (l := firstNames [] (objects.flatMap fun object => (heap.object object).names)) |>.map Prod.fst
  rw [enumerableNames, h.chain_eq]
  refine ⟨(nodup_firstNames ..).sublist hsub, fun name => ?_, ?_⟩
  · simp only [List.mem_map, List.mem_filter, Prod.exists, exists_and_right, exists_eq_right]
    simp only [mem_firstNames, lookup_flatMap, List.findSome?_eq_some_iff, Object.lookup_names_eq_true,
      Object.lookup_names_eq_none]
    simp
  · rw [map_fst_firstNames, List.map_flatMap] at hsub
    simpa [Object.map_fst_names] using hsub

/-- A hidden property of an array hides one of its prototype. -/
theorem enumerableNames_visits_hidden :
    let properties := PropertyMap.insert {} (.string "b") (.data .null)
    let heap : Heap :=
      { objects := #[{ properties := properties.insert (.string "a") (.data .null) },
          { prototype := some ⟨0⟩, properties := .insert {} (.string "b") (.hidden .null),
            payload := .array #[.null] }] }
    heap.Prototypes ⟨1⟩ [⟨1⟩, ⟨0⟩] ∧ heap.enumerableNames ⟨1⟩ = ["0", "a"] ∧
      ¬ ∃ nearer object farther, [⟨1⟩, ⟨0⟩] = nearer ++ object :: farther ∧
        (heap.object object).ShowsName "b" ∧
        ∀ other ∈ nearer, ¬ (heap.object other).HasName "b" := by
  intro properties heap
  have h : heap.Prototypes ⟨1⟩ [⟨1⟩, ⟨0⟩] := .next rfl (.last rfl)
  have he : heap.enumerableNames ⟨1⟩ = ["0", "a"] := by decide +kernel
  refine ⟨h, he, ?_⟩
  rw [← (enumerableNames_visits h).2.1, he]
  decide

end Heap

end Ecma
