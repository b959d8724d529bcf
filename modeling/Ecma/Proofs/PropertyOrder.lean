/-
Maps of properties under change: however keys are added, changed and removed, the index stays in
agreement with the entries, look-up gives the property given last, and the keys stand in the order in
which they were added.
-/
import Mathlib.Data.List.Induction
import Mathlib.Data.List.Nodup
import Ecma.Heap.Property

namespace Ecma.PropertyMap

/-! ## Keys -/

theorem nodup_keys (map : PropertyMap) : map.keys.Nodup := by
  refine List.nodup_iff_injective_getElem.mpr fun ⟨i, hi⟩ ⟨j, hj⟩ h => ?_
  have hlookup (k : Nat) (hk : k < map.keys.length) : map.index.lookup map.keys[k] = some k :=
    (map.indexed _ k).mpr (List.getElem?_eq_getElem hk)
  have hi' := hlookup i hi
  have hj' := hlookup j hj
  dsimp only at h
  grind

theorem mem_keys_iff {map : PropertyMap} {key : PropertyKey} :
    key ∈ map.keys ↔ (map.find? key).isSome := by
  simp only [keys, List.mem_map, Option.isSome_iff_exists, ← mem_entries_iff]
  grind

theorem keys_modify (map : PropertyMap) (key : PropertyKey) (f : Property → Property) :
    (map.modify key f).keys = map.keys := by
  unfold modify
  split
  · exact keys_modify_snd ..
  · rfl

/-- A key that is there keeps its place, and a new one comes last. -/
theorem keys_insert (map : PropertyMap) (key : PropertyKey) (prop : Property) :
    (map.insert key prop).keys =
      if (map.find? key).isSome then map.keys else map.keys ++ [key] := by
  unfold insert
  split
  · next pos h =>
    obtain ⟨old, -, hf⟩ := entry_of_lookup h
    rw [hf]
    exact keys_modify_snd ..
  · next h =>
    rw [find?_of_lookup_none h]
    simp [keys, push]

theorem keys_erase_sublist (map : PropertyMap) (key : PropertyKey) :
    (map.erase key).keys.Sublist map.keys := by
  unfold erase
  split
  · exact (List.eraseIdx_sublist _ _).map _
  · exact List.Sublist.refl _

/-! ## Histories -/

/-- A change of a map of properties. -/
inductive Change where
  | insert (key : PropertyKey) (prop : Property)
  | modify (key : PropertyKey) (f : Property → Property)
  | erase (key : PropertyKey)

def perform (map : PropertyMap) : Change → PropertyMap
  | .insert key prop => map.insert key prop
  | .modify key f => map.modify key f
  | .erase key => map.erase key

/-- What a change makes of the property of a key. -/
def Change.property? (key : PropertyKey) (last : Option Property) : Change → Option Property
  | insert other prop => if other = key then some prop else last
  | modify other f => if other = key then last.map f else last
  | erase other => if other = key then none else last

/-- The property given last to a key since it was removed, with the changes made to it. -/
def lastProperty? (changes : List Change) (key : PropertyKey) : Option Property :=
  changes.foldl (Change.property? key) none

/-- What a change at a time makes of the time since when a key is there. -/
def Change.since? (key : PropertyKey) (since : Option Nat) : Change × Nat → Option Nat
  | (insert other _, time) => if other = key then since.or (some time) else since
  | (modify .., _) => since
  | (erase other, _) => if other = key then none else since

/-- When a key was added last, in changes made before, unless it was removed since. -/
def addedAt? (changes : List Change) (key : PropertyKey) : Option Nat :=
  changes.zipIdx.foldl (Change.since? key) none

theorem lastProperty?_snoc (changes : List Change) (change : Change) (key : PropertyKey) :
    lastProperty? (changes ++ [change]) key = change.property? key (lastProperty? changes key) := by
  simp [lastProperty?]

theorem addedAt?_snoc (changes : List Change) (change : Change) (key : PropertyKey) :
    addedAt? (changes ++ [change]) key =
      Change.since? key (addedAt? changes key) (change, changes.length) := by
  simp [addedAt?, List.zipIdx_append]

theorem find?_perform (map : PropertyMap) (change : Change) (key : PropertyKey) :
    (map.perform change).find? key = change.property? key (map.find? key) := by
  cases change with
  | insert other prop => grind [perform, Change.property?, find?_insert]
  | modify other f => grind [perform, Change.property?, find?_modify]
  | erase other => grind [perform, Change.property?, find?_erase]

/-- The map that changes make of the empty one. -/
def ofChanges (changes : List Change) : PropertyMap := changes.foldl perform {}

theorem ofChanges_snoc (changes : List Change) (change : Change) :
    ofChanges (changes ++ [change]) = (ofChanges changes).perform change :=
  List.foldl_concat ..

theorem find?_ofChanges (changes : List Change) (key : PropertyKey) :
    (ofChanges changes).find? key = lastProperty? changes key := by
  induction changes using List.reverseRecOn with
  | nil => rfl
  | append_singleton changes change ih =>
    rw [lastProperty?_snoc, ← ih, ofChanges_snoc, find?_perform]

/-- A key is there since a time iff it has a property. -/
theorem isSome_addedAt? (changes : List Change) (key : PropertyKey) :
    (addedAt? changes key).isSome = (lastProperty? changes key).isSome := by
  induction changes using List.reverseRecOn with
  | nil => rfl
  | append_singleton changes change ih =>
    rw [lastProperty?_snoc, addedAt?_snoc]
    cases change <;> grind [Change.since?, Change.property?]

theorem addedAt?_lt {changes : List Change} {key : PropertyKey} {time : Nat}
    (h : addedAt? changes key = some time) : time < changes.length := by
  induction changes using List.reverseRecOn with
  | nil => cases h
  | append_singleton changes change ih =>
    rw [addedAt?_snoc] at h
    cases hs : addedAt? changes key <;> cases change <;> grind [Change.since?]

/-- The keys stand in the order of the times when they were added. -/
theorem keys_ofChanges_pairwise (changes : List Change) :
    (ofChanges changes).keys.Pairwise fun first second =>
      addedAt? changes first < addedAt? changes second := by
  induction changes using List.reverseRecOn with
  | nil => exact .nil
  | append_singleton changes change ih =>
    rw [ofChanges_snoc]
    simp only [addedAt?_snoc]
    have hmem (key) : key ∈ (ofChanges changes).keys ↔ (addedAt? changes key).isSome := by
      rw [mem_keys_iff, isSome_addedAt?, find?_ofChanges]
    cases change with
    | insert key prop =>
      -- a key that is there has its time already, and a new one gets a later time than all
      have hkept (other) (h : other ∈ (ofChanges changes).keys) :
          Change.since? other (addedAt? changes other) (.insert key prop, changes.length) =
            addedAt? changes other := by
        obtain ⟨time, ht⟩ := Option.isSome_iff_exists.mp ((hmem other).mp h)
        simp [Change.since?, ht]
      have hold := ih.imp_of_mem fun ha hb h => by rwa [← hkept _ ha, ← hkept _ hb] at h
      rw [perform, keys_insert]
      split
      · exact hold
      · next hn =>
        refine List.pairwise_append.mpr ⟨hold, List.pairwise_singleton .., fun other ho new hnew => ?_⟩
        obtain rfl := List.mem_singleton.mp hnew
        obtain ⟨time, ht⟩ := Option.isSome_iff_exists.mp ((hmem other).mp ho)
        have hnone : addedAt? changes new = none := by
          rwa [← mem_keys_iff, hmem, Option.not_isSome_iff_eq_none] at hn
        rw [hkept other ho, ht, hnone, Change.since?, if_pos rfl]
        exact addedAt?_lt ht
    | modify key f =>
      rw [perform, keys_modify]
      exact ih
    | erase key =>
      have hkept (other) (h : other ∈ ((ofChanges changes).erase key).keys) :
          Change.since? other (addedAt? changes other) (.erase key, changes.length) =
            addedAt? changes other := by
        rw [mem_keys_iff, find?_erase] at h
        grind [Change.since?]
      exact (ih.sublist ((ofChanges changes).keys_erase_sublist key)).imp_of_mem fun ha hb h => by
        rwa [← hkept _ ha, ← hkept _ hb] at h

/-- After any changes of the empty map, the index gives each key its only position, the property
found for a key is the one given to it last since it was removed, and the keys there are listed in
the order in which they were added. -/
theorem changes_keep_order (changes : List Change) :
    (∀ key position, (ofChanges changes).index.lookup key = some position ↔
        (ofChanges changes).keys[position]? = some key) ∧
      (ofChanges changes).keys.Nodup ∧
      (∀ key, (ofChanges changes).find? key = lastProperty? changes key) ∧
      (∀ key property, (key, property) ∈ (ofChanges changes).entries ↔
        lastProperty? changes key = some property) ∧
      (∀ key, key ∈ (ofChanges changes).keys ↔ (addedAt? changes key).isSome) ∧
      (ofChanges changes).keys.Pairwise fun first second =>
        addedAt? changes first < addedAt? changes second := by
  refine ⟨(ofChanges changes).indexed, (ofChanges changes).nodup_keys, find?_ofChanges changes, ?_, ?_,
    keys_ofChanges_pairwise changes⟩
  · intro key property
    rw [mem_entries_iff, find?_ofChanges]
  · intro key
    rw [mem_keys_iff, find?_ofChanges, isSome_addedAt?]

end Ecma.PropertyMap
