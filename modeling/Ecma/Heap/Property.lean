/-
Properties, and maps of properties in the order in which their keys were added.
-/
import Ecma.Heap.Value

namespace Ecma

/-- A property: its value and what may be done with it. -/
structure Property where
  value : Value
  writable : Bool := true
  enumerable : Bool := true
  configurable : Bool := true
  deriving Repr, Inhabited

namespace Property

/-- A property made by an assignment. -/
def data (value : Value) : Property := { value }

/-- A property that enumeration skips. -/
def hidden (value : Value) : Property := { value, enumerable := false }

/-- A property that cannot be changed at all. -/
def frozen (value : Value) : Property :=
  { value, writable := false, enumerable := false, configurable := false }

end Property

theorem indexed_nil (key : PropertyKey) (position : Nat) :
    ([] : List (PropertyKey × Nat)).lookup key = some position ↔
      (([] : List (PropertyKey × Property)).map Prod.fst)[position]? = some key := by simp

/-- Properties in the order in which their keys were added, and the position of each key. -/
structure PropertyMap where
  entries : List (PropertyKey × Property) := []
  index : List (PropertyKey × Nat) := []
  indexed (key : PropertyKey) (position : Nat) :
    index.lookup key = some position ↔ (entries.map Prod.fst)[position]? = some key := by
      exact indexed_nil
  deriving Repr

namespace PropertyMap

instance : Inhabited PropertyMap := ⟨{}⟩

def keys (map : PropertyMap) : List PropertyKey := map.entries.map Prod.fst

def size (map : PropertyMap) : Nat := map.entries.length

def find? (map : PropertyMap) (key : PropertyKey) : Option Property :=
  (map.index.lookup key).bind fun position => map.entries[position]?.map Prod.snd

theorem keys_modify_snd (entries : List (PropertyKey × Property)) (position : Nat)
    (f : Property → Property) :
    (entries.modify position (Prod.map id f)).map Prod.fst = entries.map Prod.fst := by
  apply List.ext_getElem?
  intro i
  simp only [List.getElem?_map, List.getElem?_modify]
  cases entries[i]? with
  | none => rfl
  | some entry => simp only [Option.map_some]; split <;> rfl

/-- Changes the property at a position. -/
def modifyAt (map : PropertyMap) (position : Nat) (f : Property → Property) : PropertyMap where
  entries := map.entries.modify position (Prod.map id f)
  index := map.index
  indexed := by rw [keys_modify_snd]; exact map.indexed

/-- Adds a property at the end. -/
def push (map : PropertyMap) (key : PropertyKey) (property : Property)
    (absent : map.index.lookup key = none) : PropertyMap where
  entries := map.entries ++ [(key, property)]
  index := (key, map.entries.length) :: map.index
  indexed other position := by
    have hkey := map.indexed key position
    have hother := map.indexed other position
    have hend (h : map.entries.length ≤ position) :
        (map.entries.map Prod.fst)[position]? = none := by simpa using h
    simp only [List.lookup_cons, List.map_append, List.map_cons, List.map_nil, List.getElem?_append,
      List.length_map, List.getElem?_singleton]
    generalize (map.entries.map Prod.fst)[position]? = found at *
    grind

/-- Where an entry stands after the one at a position was taken out. -/
def removed (position other : Nat) : Nat := if position < other then other - 1 else other

theorem lookup_removed (key other : PropertyKey) (position : Nat)
    (index : List (PropertyKey × Nat)) :
    ((index.filter fun entry => entry.1 ≠ key).map (Prod.map id (removed position))).lookup other =
      if other = key then none else (index.lookup other).map (removed position) := by
  induction index with
  | nil => simp
  | cons entry rest ih => grind

/-- Takes out the property of a key. -/
def eraseAt (map : PropertyMap) (key : PropertyKey) (position : Nat)
    (found : map.index.lookup key = some position) : PropertyMap where
  entries := map.entries.eraseIdx position
  index := (map.index.filter fun entry => entry.1 ≠ key).map (Prod.map id (removed position))
  indexed other later := by
    have hkey := map.indexed key
    have hother := map.indexed other
    simp only [List.getElem?_map] at hkey hother
    rw [lookup_removed, List.getElem?_map, List.getElem?_eraseIdx]
    by_cases h : other = key
    · grind
    · simp only [if_neg h, Option.map_eq_some_iff (f := removed position), hother, removed]
      constructor
      · grind
      · intro hlater
        split at hlater
        · exact ⟨later, hlater, by grind⟩
        · exact ⟨later + 1, hlater, by grind⟩

/-- Adds a property, or replaces the one with its key where it stands. -/
def insert (map : PropertyMap) (key : PropertyKey) (property : Property) : PropertyMap :=
  match h : map.index.lookup key with
  | some position => map.modifyAt position fun _ => property
  | none => map.push key property h

/-- Changes the property with a key, if there is one. -/
def modify (map : PropertyMap) (key : PropertyKey) (f : Property → Property) : PropertyMap :=
  match map.index.lookup key with
  | some position => map.modifyAt position f
  | none => map

def erase (map : PropertyMap) (key : PropertyKey) : PropertyMap :=
  match h : map.index.lookup key with
  | some position => map.eraseAt key position h
  | none => map

/-! ## Look-up -/

variable {map : PropertyMap} {key : PropertyKey} {position : Nat}

theorem entry_of_lookup (h : map.index.lookup key = some position) :
    ∃ property, map.entries[position]? = some (key, property) ∧ map.find? key = some property := by
  have hkey := (map.indexed key position).mp h
  rw [List.getElem?_map, Option.map_eq_some_iff] at hkey
  obtain ⟨⟨_, property⟩, he, rfl⟩ := hkey
  exact ⟨property, he, by simp [find?, h, he]⟩

theorem find?_of_lookup_none (h : map.index.lookup key = none) : map.find? key = none := by
  rw [find?, h]; rfl

/-- What is found is what the entries hold. -/
theorem mem_entries_iff {property : Property} :
    (key, property) ∈ map.entries ↔ map.find? key = some property := by
  have hkey := map.indexed key
  simp only [find?, Option.bind_eq_some_iff, Option.map_eq_some_iff, hkey, List.getElem?_map,
    List.mem_iff_getElem?]
  grind

theorem find?_modifyAt (h : map.index.lookup key = some position) (other : PropertyKey)
    (f : Property → Property) :
    (map.modifyAt position f).find? other =
      if other = key then (map.find? key).map f else map.find? other := by
  obtain ⟨property, he, hf⟩ := entry_of_lookup h
  cases ho : map.index.lookup other with
  | none => grind [find?, modifyAt]
  | some later =>
    obtain ⟨old, ho', hf'⟩ := entry_of_lookup ho
    rw [hf, hf']
    simp only [find?, modifyAt, ho, Option.bind_some, List.getElem?_modify, ho']
    grind

theorem find?_modify (map : PropertyMap) (key other : PropertyKey) (f : Property → Property) :
    (map.modify key f).find? other =
      if other = key then (map.find? key).map f else map.find? other := by
  unfold modify
  split
  · next position h => exact find?_modifyAt h other f
  · next h => grind [find?_of_lookup_none]

/-- The property inserted last is the one found. -/
theorem find?_insert (map : PropertyMap) (key other : PropertyKey) (property : Property) :
    (map.insert key property).find? other =
      if other = key then some property else map.find? other := by
  unfold insert
  split
  · next position h =>
    obtain ⟨old, -, hf⟩ := entry_of_lookup h
    rw [find?_modifyAt h, hf]
    rfl
  · next h =>
    simp only [find?, push, List.lookup_cons]
    cases ho : map.index.lookup other with
    | none => grind
    | some later =>
      obtain ⟨old, ho', -⟩ := entry_of_lookup ho
      grind

/-- A change of a property that is there puts another one in its place. -/
theorem modify_eq_insert {property : Property} (h : map.find? key = some property)
    (f : Property → Property) : map.modify key f = map.insert key (f property) := by
  cases hl : map.index.lookup key with
  | none => cases (find?_of_lookup_none hl).symm.trans h
  | some position =>
    obtain ⟨found, he, hf⟩ := entry_of_lookup hl
    obtain rfl : found = property := Option.some.inj (hf.symm.trans h)
    have hentries : map.entries.modify position (Prod.map id f) =
        map.entries.modify position (Prod.map id fun _ => f found) := by
      refine List.ext_getElem? fun index => ?_
      rw [List.getElem?_modify, List.getElem?_modify]
      by_cases hi : position = index
      · subst hi
        simp only [he, if_true]
        rfl
      · simp only [if_neg hi]
    have hinsert : map.insert key (f found) = map.modifyAt position fun _ => f found := by
      unfold insert
      split
      · next other ho => rw [Option.some.inj (ho.symm.trans hl)]
      · next ho => cases ho.symm.trans hl
    rw [hinsert, modify, hl]
    unfold modifyAt
    simp only [hentries]

/-- A removed key is no longer found, and no other is lost. -/
theorem find?_erase (map : PropertyMap) (key other : PropertyKey) :
    (map.erase key).find? other = if other = key then none else map.find? other := by
  unfold erase
  split
  · next position h =>
    obtain ⟨property, hk, -⟩ := entry_of_lookup h
    simp only [find?, eraseAt, lookup_removed]
    by_cases he : other = key
    · simp [he]
    cases ho : map.index.lookup other with
    | none => simp [he]
    | some later =>
      obtain ⟨old, ho', -⟩ := entry_of_lookup ho
      have hne : position ≠ later := by grind
      simp only [if_neg he, Option.map_some, Option.bind_some, List.getElem?_eraseIdx, removed]
      grind
  · next h => grind [find?_of_lookup_none]

end PropertyMap

end Ecma
