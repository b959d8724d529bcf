/-
The bindings of a declarative record, seen by name and seen by slot. Whatever is created, changed and
deleted, the record answers as a map from names to bindings, a slot stands for the name that was
created in it, and a change of one binding leaves the others alone.
-/
import Mathlib.Logic.Function.Basic
import Ecma.Proofs.Likeness

namespace Ecma

/-! ## Bindings as a map -/

/-- What a name is bound to. -/
structure Bound where
  /-- Absent until the binding is initialised. -/
  value : Option Value := none
  assignable : Bool
  strict : Bool
  deletable : Bool

/-- Bindings by name, with the name that was created at each position; a name that is deleted leaves
its position empty. -/
structure Bindings where
  bound : String → Option Bound := fun _ => none
  slots : List (Option String) := []

/-- The two ways to say which binding is meant. -/
inductive Target where
  | name (name : String)
  | slot (slot : Nat)

/-- What can be done with a binding that is there. -/
inductive Use where
  | init (value : Value)
  | set (value : Value) (strict : Bool)
  | get (strict : Bool)

inductive BindingOperation where
  | createVariable (name : String) (deletable : Bool)
  | createConstant (name : String) (strict : Bool)
  | has (name : String)
  | delete (name : String)
  | use (target : Target) (use : Use)

inductive Answer where
  | done
  | value (value : Value)
  | flag (flag : Bool)

/-- What an operation answers, or why it fails. -/
def Answer.of {σ : Type} : EStateM.Result Cause σ Answer → Except Cause Answer
  | .ok answer _ => .ok answer
  | .error cause _ => .error cause

/-- What an operation leaves, also where it fails. -/
def Answer.state {σ : Type} : EStateM.Result Cause σ Answer → σ
  | .ok _ state | .error _ state => state

/-- Why there is no binding that is meant, where slots are some records out. -/
def Target.missing (hops : Nat) : Target → Cause
  | name text => .notDefined text
  | slot index => .invalidSlot hops index

/-- What becomes of the binding of a name: only a variable that is initialised takes a value. -/
def Use.respond (name : String) (bound : Bound) : Use → Except Cause (Answer × Bound)
  | init value => .ok (.done, { bound with value := some value })
  | set value strict =>
    match bound.value, bound.assignable, strict || bound.strict with
    | none, _, _ => .error (.uninitialized name)
    | some _, true, _ => .ok (.done, { bound with value := some value })
    | some _, false, true => .error .constantAssignment
    | some _, false, false => .ok (.done, bound)
  | get _ =>
    match bound.value with
    | some value => .ok (.value value, bound)
    | none => .error (.uninitialized name)

namespace Bindings

def create (names : Bindings) (name : String) (bound : Bound) : Bindings where
  bound := Function.update names.bound name (some bound)
  slots := names.slots ++ [some name]

def change (names : Bindings) (name : String) (bound : Bound) : Bindings where
  bound := Function.update names.bound name (some bound)
  slots := names.slots

def erase (names : Bindings) (name : String) : Bindings where
  bound := Function.update names.bound name none
  slots := names.slots.map fun slot => if slot = some name then none else slot

/-- The name that is meant; a slot means the name that was created in it. -/
def name? (names : Bindings) : Target → Option String
  | .name name => some name
  | .slot slot => names.slots[slot]?.join

def find? (names : Bindings) (target : Target) : Option (String × Bound) :=
  (names.name? target).bind fun name => (names.bound name).map (name, ·)

def perform (hops : Nat) : BindingOperation → EStateM Cause Bindings Answer
  | .createVariable name deletable, names =>
    .ok .done (names.create name { assignable := true, strict := false, deletable })
  | .createConstant name strict, names =>
    .ok .done (names.create name { assignable := false, strict, deletable := false })
  | .has name, names => .ok (.flag (names.bound name).isSome) names
  | .delete name, names =>
    match names.bound name with
    | some bound =>
      if bound.deletable then .ok (.flag true) (names.erase name) else .ok (.flag false) names
    | none => .ok (.flag true) names
  | .use target use, names =>
    match names.find? target with
    | some (name, bound) =>
      match use.respond name bound with
      | .ok (answer, bound) => .ok answer (names.change name bound)
      | .error cause => .error cause names
    | none => .error (target.missing hops) names

/-- The name whose binding an operation is about. -/
def subject? (names : Bindings) : BindingOperation → Option String
  | .createVariable name _ | .createConstant name _ | .has name | .delete name => some name
  | .use target _ => names.name? target

/-- Names are not empty, only names that are not bound are created, and slots are not used after
their name was deleted. -/
def Allows (names : Bindings) : BindingOperation → Prop
  | .createVariable name _ | .createConstant name _ => name ≠ "" ∧ names.bound name = none
  | .has name | .delete name | .use (.name name) _ => name ≠ ""
  | .use (.slot slot) _ => names.slots[slot]? ≠ some none

/-- Operations in a row, each allowed when it comes. -/
def AllowsAll (hops : Nat) (names : Bindings) : List BindingOperation → Prop
  | [] => True
  | operation :: rest =>
    names.Allows operation ∧ AllowsAll hops (Answer.state (perform hops operation names)) rest

/-- The map after operations in a row. -/
def after (hops : Nat) (names : Bindings) (history : List BindingOperation) : Bindings :=
  history.foldl (fun names operation => Answer.state (perform hops operation names)) names

theorem allowsAll_append {hops history rest} {names : Bindings} :
    names.AllowsAll hops (history ++ rest) ↔
      names.AllowsAll hops history ∧ (names.after hops history).AllowsAll hops rest := by
  induction history generalizing names with
  | nil => simp [AllowsAll, after]
  | cons operation history ih => simp [AllowsAll, after, ih, and_assoc]

/-- A binding has stayed as it was, in its slot. -/
def Keeps (names later : Bindings) (name : String) : Prop :=
  later.bound name = names.bound name ∧
    ∀ slot : Nat, later.slots[slot]? = some (some name) ↔ names.slots[slot]? = some (some name)

/-- An operation concerns one binding. -/
theorem keeps_perform (hops) {operation name} {names : Bindings}
    (hn : names.subject? operation ≠ some name) :
    names.Keeps (Answer.state (perform hops operation names)) name := by
  have hself : names.Keeps names name := ⟨rfl, fun _ => .rfl⟩
  have hcreate {other} (ho : other ≠ name) (bound) : names.Keeps (names.create other bound) name :=
    ⟨by simp [create, ho.symm], fun slot => by simp only [create, List.getElem?_append]; grind⟩
  cases operation with
  | createVariable other deletable | createConstant other strict =>
    exact hcreate (fun he => hn (congrArg some he)) _
  | has other => exact hself
  | delete other =>
    have ho : other ≠ name := fun he => hn (congrArg some he)
    have herase : names.Keeps (names.erase other) name :=
      ⟨by simp [erase, ho.symm], fun slot => by simp only [erase, List.getElem?_map]; grind⟩
    rw [perform]
    split
    · split
      · exact herase
      · exact hself
    · exact hself
  | use target use =>
    rw [perform]
    split
    · next other bound hf =>
      obtain ⟨found, hname, hb⟩ := Option.bind_eq_some_iff.mp hf
      obtain ⟨_, -, he⟩ := Option.map_eq_some_iff.mp hb
      have ho : other ≠ name := fun ho => hn (by grind [subject?])
      split
      · exact ⟨by simp [change, Answer.state, ho.symm], fun _ => .rfl⟩
      · exact hself
    · exact hself

end Bindings

/-! ## Operations on a record -/

namespace Heap

/-- An operation on a record, whose slots are reached from another some records further in. -/
def operate (ref origin : RecordRef) (hops : Nat) : BindingOperation → Update Answer
  | .createVariable name deletable => do
    Update.change fun heap => heap.createMutable ref name deletable
    return .done
  | .createConstant name strict => do
    Update.change fun heap => heap.createImmutable ref name strict
    return .done
  | .has name => return .flag ((← get).hasBinding ref name)
  | .delete name => return .flag (← Update.attempt fun heap => heap.deleteBinding ref name)
  | .use (.name name) (.init value) => do initializeBinding ref name value; return .done
  | .use (.name name) (.set value strict) => do setBinding ref name value strict; return .done
  | .use (.name name) (.get strict) =>
    return .value (← Update.query fun heap => heap.getBinding ref name strict)
  | .use (.slot slot) (.init value) => do initializeSlot origin hops slot value; return .done
  | .use (.slot slot) (.set value strict) => do setSlot origin hops slot value strict; return .done
  | .use (.slot slot) (.get _) =>
    return .value (← Update.query fun heap => heap.getSlot origin hops slot)

/-- The heap after operations in a row. -/
def afterOperations (ref origin : RecordRef) (hops : Nat) (heap : Heap)
    (history : List BindingOperation) : Heap :=
  history.foldl (fun heap operation => Answer.state (operate ref origin hops operation heap)) heap

/-- The slot and the cell of a name in a declarative record. -/
def binding? (heap : Heap) (ref : RecordRef) (name : String) : Option (Nat × Cell) :=
  match heap.record ref with
  | .declarative _ cells => (Record.slot? cells name).bind fun slot => cells[slot]?.map (slot, ·)
  | .object .. | .global .. => none

end Heap

/-! ## Cells and the map -/

namespace Record

variable {cells : Array Cell}

theorem lastIndex?_eq_some_iff {name : String} {count index : Nat} :
    lastIndex? cells name count = some index ↔
      index < count ∧ (∃ cell, cells[index]? = some cell ∧ cell.name = name) ∧
        ∀ later cell, index < later → later < count → cells[later]? = some cell → cell.name ≠ name := by
  induction count with
  | zero => simp [lastIndex?]
  | succ count ih =>
    rw [lastIndex?]
    split
    · next h => grind
    · next h => grind

/-- The slot and the cell that are meant. -/
def meant? (cells : Array Cell) : Target → Option (Nat × Cell)
  | .name name => (slot? cells name).bind fun slot => cells[slot]?.map (slot, ·)
  | .slot slot => cells[slot]?.map (slot, ·)

theorem getElem?_of_meant {target slot cell} (h : meant? cells target = some (slot, cell)) :
    cells[slot]? = some cell := by
  cases target with
  | name name =>
    obtain ⟨found, -, h⟩ := Option.bind_eq_some_iff.mp h
    obtain ⟨_, hc, ⟨⟩⟩ := Option.map_eq_some_iff.mp h
    exact hc
  | slot index =>
    obtain ⟨_, hc, ⟨⟩⟩ := Option.map_eq_some_iff.mp h
    exact hc

end Record

/-- What a cell becomes where its binding is used. -/
def Use.apply (cell : Cell) : Use → Except Cause (Answer × Cell)
  | init value => .ok (.done, cell.withValue value)
  | set value strict => (cell.write value strict).map (Answer.done, ·)
  | get _ => cell.read.map (Answer.value ·, cell)

def Bound.ofCell (cell : Cell) : Bound := ⟨cell.value, cell.assignable, cell.strict, cell.deletable⟩

theorem Use.respond_ofCell (cell : Cell) (use : Use) : use.respond cell.name (.ofCell cell) =
        (use.apply cell).map (fun (answer, later) => (answer, .ofCell later)) ∧
      ∀ answer later, use.apply cell = .ok (answer, later) → later.name = cell.name := by
  cases use with
  | init value => exact ⟨rfl, by rintro _ _ ⟨⟩; rfl⟩
  | set value strict =>
    unfold respond apply Cell.write
    cases hv : cell.value <;> cases ha : cell.assignable <;> cases strict <;>
      cases hs : cell.strict <;> simp [Bound.ofCell, Except.map, hv, ha, hs]
  | get strict =>
    unfold respond apply Cell.read
    cases hv : cell.value <;> simp [Bound.ofCell, Except.map, hv]

/-- The cells of a record show a map: no name has two cells, and a cell without a name is what a
deleted binding leaves. -/
structure Bindings.Shown (names : Bindings) (cells : Array Cell) : Prop where
  slots : ∀ slot : Nat, names.slots[slot]? =
    cells[slot]?.map fun (cell : Cell) => if cell.name = "" then none else some cell.name
  bound : ∀ name bound, name ≠ "" → (names.bound name = some bound ↔
    ∃ (slot : Nat) (cell : Cell), cells[slot]? = some cell ∧ cell.name = name ∧ bound = .ofCell cell)
  unique : ∀ (slot other : Nat) (cell cell' : Cell), cells[slot]? = some cell →
    cells[other]? = some cell' → cell.name ≠ "" → cell.name = cell'.name → slot = other

namespace Bindings.Shown

variable {names : Bindings} {cells : Array Cell} {name : String} {slot : Nat} {cell old : Cell}

theorem slot?_eq_some_iff (h : names.Shown cells) (hn : name ≠ "") :
    Record.slot? cells name = some slot ↔ names.slots[slot]? = some (some name) := by
  rw [Record.slot?, Record.lastIndex?_eq_some_iff, h.slots]
  constructor
  · rintro ⟨-, ⟨cell, hc, rfl⟩, -⟩
    simp [hc, hn]
  · intro hs
    obtain ⟨cell, hc, hl⟩ := Option.map_eq_some_iff.mp hs
    have hname : cell.name = name := by grind
    refine ⟨(Array.getElem?_eq_some_iff.mp hc).1, ⟨cell, hc, hname⟩, fun later other hl _ ho he => ?_⟩
    have := h.unique slot later cell other hc ho (hname ▸ hn) (hname.trans he.symm)
    omega

theorem length_slots (h : names.Shown cells) : names.slots.length = cells.size := by
  have hle : names.slots[cells.size]? = none := by simp [h.slots]
  have hge : cells[names.slots.length]? = none := by simpa using (h.slots names.slots.length).symm
  simp only [List.getElem?_eq_none_iff, Array.getElem?_eq_none_iff] at hle hge
  omega

theorem create (h : names.Shown cells) (cell : Cell) (hn : cell.name ≠ "")
    (hb : names.bound cell.name = none) :
    (names.create cell.name (.ofCell cell)).Shown (cells.push cell) := by
  have hnew (slot : Nat) (other : Cell) (ho : cells[slot]? = some other) : other.name ≠ cell.name :=
    fun he => by
      have := (h.bound cell.name (.ofCell other) hn).mpr ⟨slot, other, ho, he, rfl⟩
      rw [hb] at this
      cases this
  refine ⟨fun slot => ?_, fun name bound hname => ?_, fun slot other one two ho ht hne he => ?_⟩
  · have hs := h.slots slot
    have hlen := h.length_slots
    simp only [Bindings.create, List.getElem?_append, Array.getElem?_push]
    grind
  · have hold := h.bound name bound hname
    simp only [Bindings.create, Function.update_apply, Array.getElem?_push]
    split
    · next he =>
      subst he
      refine ⟨fun hb => ⟨cells.size, cell, by simp, rfl, (Option.some.inj hb).symm⟩, ?_⟩
      rintro ⟨slot, other, ho, he, rfl⟩
      grind
    · next hne =>
      rw [hold]
      refine ⟨fun ⟨slot, other, ho, he⟩ => ⟨slot, other, by grind, he⟩, ?_⟩
      rintro ⟨slot, other, ho, rfl, he⟩
      exact ⟨slot, other, by grind, rfl, he⟩
  · have := h.unique
    rw [Array.getElem?_push] at ho ht
    grind

/-- A cell is replaced by one of its name, or by what is left when it is deleted. -/
theorem replace (h : names.Shown cells) (ho : cells[slot]? = some old) (hn : old.name ≠ "")
    (hc : cell.name = old.name ∨ cell.name = "") :
    (if cell.name = "" then names.erase old.name else names.change old.name (.ofCell cell)).Shown
      (cells.setIfInBounds slot cell) := by
  have hu := h.unique
  have hb := h.bound
  have hs := h.slots
  have hlt := (Array.getElem?_eq_some_iff.mp ho).1
  -- The cells as a function of their slots.
  obtain ⟨place, hp⟩ : ∃ place : Nat → Option Cell, ∀ index : Nat, cells[index]? = place index :=
    ⟨(cells[·]?), fun _ => rfl⟩
  have hset (index : Nat) : (cells.setIfInBounds slot cell)[index]? =
      if slot = index then some cell else place index := by
    simp [Array.getElem?_setIfInBounds, hlt, hp]
  simp only [hp] at ho hu hb hs
  refine ⟨fun other => ?_, fun name bound hname => ?_, fun one two first second h₁ h₂ hne he => ?_⟩ <;>
    simp only [hset] at * <;> clear hp hset h
  · split <;> simp only [Bindings.erase, Bindings.change, List.getElem?_map, hs] <;> clear hs <;>
      cases hother : place other <;> grind
  · have := hb name bound hname
    split <;> simp only [Bindings.erase, Bindings.change, Function.update_apply] <;> grind
  · grind

theorem label (h : names.Shown cells) (hc : cells[slot]? = some cell)
    (hu : names.slots[slot]? ≠ some none) :
    cell.name ≠ "" ∧ names.slots[slot]? = some (some cell.name) := by
  have hl := h.slots slot
  rw [hc, Option.map_some] at hl
  by_cases hn : cell.name = ""
  · exact absurd (hl.trans (congrArg some (if_pos hn))) hu
  · exact ⟨hn, hl.trans (congrArg some (if_neg hn))⟩

theorem entry (h : names.Shown cells) {target use} (hu : names.Allows (.use target use))
    (he : Record.meant? cells target = some (slot, cell)) :
    cells[slot]? = some cell ∧ cell.name ≠ "" ∧ names.name? target = some cell.name := by
  have hc := Record.getElem?_of_meant he
  cases target with
  | name name =>
    obtain ⟨found, hf, hm⟩ := Option.bind_eq_some_iff.mp he
    obtain ⟨_, -, ⟨⟩⟩ := Option.map_eq_some_iff.mp hm
    have hs := (h.slot?_eq_some_iff hu).mp hf
    obtain ⟨hn, hl⟩ := h.label hc (by simp [hs])
    exact ⟨hc, hn, Option.some.inj (hs.symm.trans hl)⟩
  | slot index =>
    obtain ⟨_, -, ⟨⟩⟩ := Option.map_eq_some_iff.mp he
    obtain ⟨hn, hl⟩ := h.label hc hu
    exact ⟨hc, hn, by rw [name?, hl]; rfl⟩

theorem bound_eq (h : names.Shown cells) (hn : name ≠ "") :
    names.bound name = (Record.meant? cells (.name name)).map fun found => .ofCell found.2 := by
  refine Option.ext fun bound => ?_
  rw [h.bound name bound hn]
  simp only [Record.meant?, Option.map_eq_some_iff, Option.bind_eq_some_iff, h.slot?_eq_some_iff hn,
    h.slots]
  grind

theorem find?_eq (h : names.Shown cells) {target use} (hu : names.Allows (.use target use)) :
    names.find? target = (Record.meant? cells target).map fun found => (found.2.name, .ofCell found.2) := by
  unfold find?
  cases he : Record.meant? cells target with
  | some found =>
    obtain ⟨hc, hn, hname⟩ := h.entry hu he
    simp [hname, (h.bound found.2.name (.ofCell found.2) hn).mpr ⟨found.1, found.2, hc, rfl, rfl⟩]
  | none =>
    cases target with
    | name name => simp [name?, h.bound_eq hu, he]
    | slot slot =>
      have hc : cells[slot]? = none := by simpa [Record.meant?] using he
      simp [name?, h.slots, hc]

end Bindings.Shown

/-! ## Operations and the map -/

namespace Heap

/-- A declarative record with some cells, reached from another some records further in. -/
structure HasCells (ref origin : RecordRef) (hops : Nat) (heap : Heap) (cells : Array Cell) : Prop where
  there : ref.index < heap.records.size
  record : ∃ parent, heap.record ref = .declarative parent cells
  route : heap.recordAt origin hops = ref

variable {heap : Heap} {ref origin : RecordRef} {hops : Nat} {cells : Array Cell} {names : Bindings}

theorem recordAt_modifyRecord {f : Record → Record}
    (hf : (f (heap.record ref)).parent? = (heap.record ref).parent?) (origin : RecordRef) (hops : Nat) :
    (heap.modifyRecord ref f).recordAt origin hops = heap.recordAt origin hops := by
  have hp (other : RecordRef) :
      ((heap.modifyRecord ref f).record other).parent? = (heap.record other).parent? := by
    rw [record_modifyRecord]
    split
    · next h =>
      obtain rfl : ref = other := by cases ref; cases other; simp_all
      exact hf
    · rfl
  induction hops generalizing origin with
  | zero => rfl
  | succ hops ih =>
    unfold recordAt
    rw [hp]
    split
    · rfl
    · exact ih _

theorem HasCells.modify (h : HasCells ref origin hops heap cells) {f : Record → Record} {later}
    (hf : ∀ parent, f (.declarative parent cells) = .declarative parent later) :
    HasCells ref origin hops (heap.modifyRecord ref f) later := by
  obtain ⟨parent, hr⟩ := h.record
  have hlater : f (heap.record ref) = .declarative parent later := by rw [hr, hf]
  refine ⟨by simpa [modifyRecord] using h.there, ⟨parent, ?_⟩, ?_⟩
  · rw [record_modifyRecord, if_pos ⟨rfl, h.there⟩, hlater]
  · rw [recordAt_modifyRecord (by rw [hlater, hr]; rfl), h.route]

theorem HasCells.cellAt (h : HasCells ref origin hops heap cells) (slot : Nat) :
    heap.cellAt origin hops slot = match cells[slot]? with
      | some cell => .ok cell
      | none => .error (.invalidSlot hops slot) := by
  obtain ⟨parent, hr⟩ := h.record
  cases hc : cells[slot]? <;> simp [Heap.cellAt, h.route, hr, hc]

theorem HasCells.cell? (h : HasCells ref origin hops heap cells) (name : String) :
    (heap.record ref).cell? name = (Record.meant? cells (.name name)).map Prod.snd ∧
      (heap.record ref).object? = none := by
  obtain ⟨parent, hr⟩ := h.record
  rw [hr]
  refine ⟨?_, rfl⟩
  simp only [Record.cell?, Record.meant?]
  cases Record.slot? cells name with
  | none => rfl
  | some slot => cases hc : cells[slot]? <;> simp [hc]

/-- A cell that is replaced by its name is replaced in its slot. -/
theorem HasCells.setCell (h : HasCells ref origin hops heap cells) {name : String} {slot old}
    (he : Record.meant? cells (.name name) = some (slot, old)) (cell : Cell) :
    HasCells ref origin hops (heap.modifyRecord ref fun record => record.setCell name cell)
      (cells.setIfInBounds slot cell) := by
  obtain ⟨found, hf, hm⟩ := Option.bind_eq_some_iff.mp he
  obtain ⟨_, -, ⟨⟩⟩ := Option.map_eq_some_iff.mp hm
  exact h.modify fun parent => by simp only [Record.setCell, hf]

/-- What the use of a binding comes to in the record, by name and by slot. -/
inductive Used (ref origin : RecordRef) (hops : Nat) (heap : Heap) (cells : Array Cell) (target : Target)
    (use : Use) : EStateM.Result Cause Heap Answer → Prop
  | ok {slot cell answer later heap'} (he : Record.meant? cells target = some (slot, cell))
      (hu : use.apply cell = .ok (answer, later))
      (hh : HasCells ref origin hops heap' (cells.setIfInBounds slot later)) :
      Used ref origin hops heap cells target use (.ok answer heap')
  | refused {slot cell cause} (he : Record.meant? cells target = some (slot, cell))
      (hu : use.apply cell = .error cause) :
      Used ref origin hops heap cells target use (.error cause heap)
  | missing (he : Record.meant? cells target = none) :
      Used ref origin hops heap cells target use (.error (target.missing hops) heap)

theorem get_apply (heap : Heap) : (get : Update Heap) heap = .ok heap heap := rfl

theorem attempt_apply (f : Heap → Bool × Heap) (heap : Heap) :
    Update.attempt f heap = .ok (f heap).1 (f heap).2 := rfl

theorem HasCells.used (h : HasCells ref origin hops heap cells) (target : Target) (use : Use) :
    Used ref origin hops heap cells target use (operate ref origin hops (.use target use) heap) := by
  have hsame {slot : Nat} {cell : Cell} (hc : cells[slot]? = some cell) :
      HasCells ref origin hops heap (cells.setIfInBounds slot cell) := by
    have : cells.setIfInBounds slot cell = cells := by
      refine Array.ext_getElem? fun index => ?_
      rw [Array.getElem?_setIfInBounds]
      split
      · next he => rw [← he, if_pos (Array.getElem?_eq_some_iff.mp hc).1, hc]
      · rfl
    rwa [this]
  cases target with
  | name name =>
    have hcell := h.cell? name
    cases he : Record.meant? cells (.name name) with
    | none =>
      rw [he] at hcell
      cases use <;> simp only [operate, initializeBinding, setBinding, getBinding, bind, EStateM.bind,
        get_apply, Update.query, hcell] <;> exact .missing he
    | some found =>
      rw [he] at hcell
      cases use with
      | init value =>
        simp only [operate, initializeBinding, bind, EStateM.bind, get_apply, hcell]
        exact .ok he rfl (h.setCell he _)
      | set value strict =>
        simp only [operate, setBinding, bind, EStateM.bind, get_apply, hcell, Option.map_some,
          Update.query]
        cases hw : found.2.write value strict with
        | ok later => exact .ok he (by simp [Use.apply, hw, Except.map]) (h.setCell he _)
        | error cause => exact .refused he (by simp [Use.apply, hw, Except.map])
      | get strict =>
        simp only [operate, getBinding, bind, EStateM.bind, Update.query, hcell, Option.map_some]
        cases hr : found.2.read with
        | ok value =>
          exact .ok he (by simp [Use.apply, hr, Except.map]) (hsame (Record.getElem?_of_meant he))
        | error cause => exact .refused he (by simp [Use.apply, hr, Except.map])
  | slot slot =>
    have hset (cell : Cell) : HasCells ref origin hops (heap.setCellAt origin hops slot cell)
        (cells.setIfInBounds slot cell) := by
      unfold setCellAt
      rw [h.route]
      exact h.modify fun _ => rfl
    have hcell := h.cellAt slot
    cases hc : cells[slot]? with
    | none =>
      have he : Record.meant? cells (.slot slot) = none := by simp [Record.meant?, hc]
      rw [hc] at hcell
      cases use <;> simp only [operate, initializeSlot, Heap.setSlot, getSlot, bind, EStateM.bind,
        Update.query, hcell, Except.bind] <;> exact .missing he
    | some cell =>
      have he : Record.meant? cells (.slot slot) = some (slot, cell) := by simp [Record.meant?, hc]
      rw [hc] at hcell
      cases use with
      | init value =>
        simp only [operate, initializeSlot, bind, EStateM.bind, Update.query, hcell]
        exact .ok he rfl (hset _)
      | set value strict =>
        simp only [operate, Heap.setSlot, bind, EStateM.bind, Update.query, hcell, Except.bind]
        cases hw : cell.write value strict with
        | ok later => exact .ok he (by simp [Use.apply, hw, Except.map]) (hset _)
        | error cause => exact .refused he (by simp [Use.apply, hw, Except.map])
      | get strict =>
        simp only [operate, getSlot, bind, EStateM.bind, Update.query, hcell, Except.bind]
        cases hr : cell.read with
        | ok value => exact .ok he (by simp [Use.apply, hr, Except.map]) (hsame hc)
        | error cause => exact .refused he (by simp [Use.apply, hr, Except.map])

/-- A heap and a map after one operation: the same answer, and a record that shows the map. -/
def Agree (ref origin : RecordRef) (hops : Nat) (r : EStateM.Result Cause Heap Answer)
    (r' : EStateM.Result Cause Bindings Answer) : Prop :=
  Answer.of r = Answer.of r' ∧ ∃ cells, HasCells ref origin hops (Answer.state r) cells ∧
    (Answer.state r').Shown cells

theorem HasCells.agree (hh : HasCells ref origin hops heap cells) (hs : names.Shown cells)
    {operation} (ha : names.Allows operation) :
    Agree ref origin hops (operate ref origin hops operation heap)
      (Bindings.perform hops operation names) := by
  have hadd (cell : Cell) : HasCells ref origin hops (heap.modifyRecord ref (·.addCell cell))
      (cells.push cell) := hh.modify fun _ => rfl
  cases operation with
  | createVariable name deletable =>
    obtain ⟨parent, hr⟩ := hh.record
    refine ⟨rfl, _, ?_, hs.create (.forVariable name deletable) ha.1 ha.2⟩
    change HasCells ref origin hops (heap.createMutable ref name deletable) _
    simp only [createMutable, hr]
    exact hadd _
  | createConstant name strict => exact ⟨rfl, _, hadd _, hs.create (.forConstant name strict) ha.1 ha.2⟩
  | has name =>
    have hb : (names.bound name).isSome = heap.hasBinding ref name := by
      rw [hs.bound_eq ha, hasBinding, (hh.cell? name).1, (hh.cell? name).2]
      simp
    rw [Bindings.perform, hb]
    exact ⟨rfl, _, hh, hs⟩
  | delete name =>
    simp only [operate, deleteBinding, bind, EStateM.bind, attempt_apply, hh.cell? name]
    rw [Bindings.perform, hs.bound_eq ha]
    cases he : Record.meant? cells (.name name) with
    | none => exact ⟨rfl, _, hh, hs⟩
    | some found =>
      obtain ⟨hc, hn, hname⟩ := hs.entry (show names.Allows (.use (.name name) (.get true)) from ha) he
      cases hname
      dsimp only [Option.map_some, Bound.ofCell]
      have hd : found.2.deleted.name = "" := rfl
      have hl := hs.replace hc hn (.inr hd)
      rw [if_pos hd] at hl
      split
      · exact ⟨rfl, _, hh.setCell he _, hl⟩
      · exact ⟨rfl, _, hh, hs⟩
  | use target use =>
    have hf := hs.find?_eq ha
    have hu := hh.used target use
    generalize operate ref origin hops (.use target use) heap = r at hu
    rw [Bindings.perform]
    cases hu with
    | @ok slot cell answer later heap' he hu hh' =>
      obtain ⟨hc, hn, -⟩ := hs.entry ha he
      obtain ⟨hr, hname⟩ := use.respond_ofCell cell
      have hl := hs.replace hc hn (.inl (hname _ _ hu))
      rw [if_neg (hname _ _ hu ▸ hn)] at hl
      rw [hf, he]
      simp only [Option.map_some, hr, hu, Except.map]
      exact ⟨rfl, _, hh', hl⟩
    | @refused slot cell cause he hu =>
      obtain ⟨hr, -⟩ := use.respond_ofCell cell
      rw [hf, he]
      simp only [Option.map_some, hr, hu, Except.map]
      exact ⟨rfl, _, hh, hs⟩
    | missing he =>
      rw [hf, he]
      exact ⟨rfl, _, hh, hs⟩

theorem HasCells.after (hh : HasCells ref origin hops heap cells) (hs : names.Shown cells) {history}
    (ha : names.AllowsAll hops history) :
    ∃ cells, HasCells ref origin hops (heap.afterOperations ref origin hops history) cells ∧
      (names.after hops history).Shown cells := by
  induction history generalizing heap cells names with
  | nil => exact ⟨cells, hh, hs⟩
  | cons operation rest ih =>
    obtain ⟨-, later, hh', hs'⟩ := hh.agree hs ha.1
    exact ih hh' hs' ha.2

theorem HasCells.binding?_eq_some_iff (hh : HasCells ref origin hops heap cells)
    (hs : names.Shown cells) {name slot cell} (hn : name ≠ "") :
    heap.binding? ref name = some (slot, cell) ↔ names.slots[slot]? = some (some name) ∧
      names.bound name = some (.ofCell cell) ∧ cell.name = name := by
  obtain ⟨parent, hr⟩ := hh.record
  have hentry : heap.binding? ref name = Record.meant? cells (.name name) := by rw [binding?, hr]; rfl
  have hb := hs.bound_eq hn
  have hl := hs.slots slot
  rw [hentry]
  constructor
  · intro he
    obtain ⟨hc, hne, hname⟩ := hs.entry (show names.Allows (.use (.name name) (.get true)) from hn) he
    cases hname
    exact ⟨by simp [hl, hc, hne], by simp [hb, he], rfl⟩
  · rintro ⟨hslot, hbound, rfl⟩
    obtain ⟨other, hc, hlabel⟩ := Option.map_eq_some_iff.mp (hl.symm.trans hslot)
    have he : Record.meant? cells (.name cell.name) = some (slot, other) := by
      simp [Record.meant?, (hs.slot?_eq_some_iff hn).mpr hslot, hc]
    rw [hb, he] at hbound
    simp only [Option.map_some, Bound.ofCell, Option.some.injEq, Bound.mk.injEq] at hbound
    have : other = cell := by cases other; cases cell; grind
    rw [he, this]

/-- On a new record, whatever was created, changed and deleted in it by name and by slot: each
operation answers as on the map, a name has the slot that it was created in, with the cell that the
map gives it, and the bindings of other names stay as they are, in their slots. -/
theorem record_refines_map {parent : Option RecordRef} (ht : ref.index < heap.records.size)
    (hr : heap.record ref = .declarative parent #[]) (ho : heap.recordAt origin hops = ref)
    (history : List BindingOperation) (operation : BindingOperation)
    (ha : Bindings.AllowsAll hops {} (history ++ [operation])) :
    let names := Bindings.after hops {} history
    let before := heap.afterOperations ref origin hops history
    let result := operate ref origin hops operation before
    Answer.of result = Answer.of (Bindings.perform hops operation names) ∧
      (∀ name slot cell, name ≠ "" → (before.binding? ref name = some (slot, cell) ↔
        names.slots[slot]? = some (some name) ∧ names.bound name = some (.ofCell cell) ∧
          cell.name = name)) ∧
      ∀ name, name ≠ "" → names.subject? operation ≠ some name →
        (Answer.state result).binding? ref name = before.binding? ref name := by
  intro names before result
  obtain ⟨ha, hop⟩ := Bindings.allowsAll_append.mp ha
  obtain ⟨cells, hh, hs⟩ := HasCells.after ⟨ht, ⟨parent, hr⟩, ho⟩ ⟨by simp, by simp, by simp⟩ ha
  obtain ⟨hanswer, later, hh', hs'⟩ := hh.agree hs hop.1
  refine ⟨hanswer, fun name slot cell hn => hh.binding?_eq_some_iff hs hn, fun name hn hne => ?_⟩
  obtain ⟨hb, hl⟩ := Bindings.keeps_perform hops hne
  refine Option.ext fun ⟨slot, cell⟩ => ?_
  rw [hh.binding?_eq_some_iff hs hn, hh'.binding?_eq_some_iff hs' hn, hb, hl]

/-- A name that was deleted and created again, used by its new slot. -/
theorem record_refines_map_recreated :
    Answer.of (operate ⟨0⟩ ⟨0⟩ 0 (.use (.slot 1) (.init .undefined))
      (afterOperations ⟨0⟩ ⟨0⟩ 0 { records := #[.declarative none #[]] }
        [.createVariable "x" true, .delete "x", .createConstant "x" true])) = .ok .done := by
  have hr : ({ records := #[.declarative none #[]] } : Heap).record ⟨0⟩ = .declarative none #[] := rfl
  have ho : ({ records := #[.declarative none #[]] } : Heap).recordAt ⟨0⟩ 0 = ⟨0⟩ := rfl
  have h := record_refines_map (by decide) hr ho
    [.createVariable "x" true, .delete "x", .createConstant "x" true]
    (.use (.slot 1) (.init .undefined))
    ⟨⟨by decide, rfl⟩, show "x" ≠ "" by decide, ⟨by decide, rfl⟩, nofun, trivial⟩
  exact h.1.trans rfl

end Heap
end Ecma
