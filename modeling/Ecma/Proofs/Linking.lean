/-
Finished code. The template of a function has all the code that was made on the way to
it, with every label replaced by its position.
-/
import Ecma.Compile.Body
import Ecma.Proofs.Growth

namespace Ecma.Compile

open Code

/-! ## Lists of results -/

theorem getElem?_of_leading {α : Type} {xs ys : Array α} (h : xs.toList <+: ys.toList) {index : Nat}
    {x : α} (hx : xs[index]? = some x) : ys[index]? = some x := by
  obtain ⟨rest, hr⟩ := h
  have hlt := (Array.getElem?_eq_some_iff.mp hx).1
  rw [← Array.getElem?_toList] at hx ⊢
  rw [← hr, List.getElem?_append_left (by simpa using hlt), hx]

theorem mapM_ok_getElem? {α β ε : Type} {f : α → Except ε β} : {xs : List α} → {ys : List β} →
    xs.mapM f = .ok ys → ∀ {index : Nat} {x : α}, xs[index]? = some x →
    ∃ y, f x = .ok y ∧ ys[index]? = some y
  | [], _, _, index, _, hx => by simp at hx
  | first :: rest, ys, h, index, x, hx => by
    rw [List.mapM_cons] at h
    cases hf : f first with
    | error error =>
      rw [hf] at h
      cases h
    | ok y =>
      rw [hf] at h
      cases hr : rest.mapM f with
      | error error =>
        rw [hr] at h
        cases h
      | ok others =>
        rw [hr] at h
        cases h
        cases index with
        | zero =>
          obtain rfl := Option.some.inj hx
          exact ⟨y, hf, rfl⟩
        | succ index => exact mapM_ok_getElem? hr hx

/-! ## Code in a template -/

/-- An instruction with its label replaced by a position. -/
def toward (target : Label → Nat) (instr : Instruction) : Instruction :=
  match instr.operand with
  | some (.label label) => { instr with operand := some (.jump (target label)) }
  | _ => instr

/-! ## Units that stand apart -/

def withUnit (draft : Draft) (unit : Label × List Instruction) : Draft :=
  { draft.place unit.1 with instructions := (draft.place unit.1).instructions ++ unit.2 }

/-- A draft with units at its end keeps what it had. -/
structure Appended (draft whole : Draft) (units : List (Label × List Instruction)) : Prop where
  instructions : draft.instructions.toList <+: whole.instructions.toList
  labels : ∀ label, label ∉ units.map Prod.fst → whole.labels[label]? = draft.labels[label]?
  constants : whole.constants = draft.constants
  functions : whole.functions = draft.functions
  resume : whole.resume = draft.resume
  units : whole.units = draft.units
  tables : whole.tables = draft.tables
  handlers : whole.handlers = draft.handlers
  registers : whole.registers = draft.registers

theorem appended : (units : List (Label × List Instruction)) → (draft : Draft) →
    Appended draft (units.foldl withUnit draft) units
  | [], draft => ⟨List.prefix_rfl, fun _ _ => rfl, rfl, rfl, rfl, rfl, rfl, rfl, rfl⟩
  | unit :: rest, draft => by
    have ih := appended rest (withUnit draft unit)
    refine ⟨?_, fun label hl => ?_, ih.constants, ih.functions, ih.resume, ih.units, ih.tables,
      ih.handlers, ih.registers⟩
    · refine List.IsPrefix.trans ?_ ih.instructions
      simp [withUnit, Draft.place]
    · rw [List.map_cons, List.mem_cons, not_or] at hl
      rw [List.foldl_cons, ih.labels label hl.2]
      simp only [withUnit, Draft.place, Array.getElem?_setIfInBounds]
      rw [if_neg (Ne.symm hl.1)]

/-- The position of a label. -/
def placedAt (draft : Draft) (label : Label) : Nat := (draft.labels[label]?.getD none).getD 0

theorem except_bind_ok {α β ε : Type} {x : Except ε α} {f : α → Except ε β} {b : β} :
    (x >>= f) = .ok b ↔ ∃ a, x = .ok a ∧ f a = .ok b := by
  cases x with
  | error error => exact ⟨nofun, nofun⟩
  | ok a =>
    constructor
    · exact fun h => ⟨a, rfl, h⟩
    · rintro ⟨_, h, hf⟩
      cases h
      exact hf

theorem positionOf_eq_ok {draft : Draft} {label : Label} {position : Nat} :
    draft.positionOf label = .ok position ↔ draft.labels[label]? = some (some position) := by
  unfold Draft.positionOf
  split
  · next h => simp [h]
  · next h => exact ⟨nofun, fun hp => absurd hp (h position)⟩

theorem linkInstruction_ok {draft : Draft} {instr found}
    (h : draft.linkInstruction instr = .ok found) : found = toward (placedAt draft) instr := by
  obtain ⟨op, _ | operand⟩ := instr
  · cases h
    rfl
  · cases operand with
    | label label =>
      obtain ⟨position, hp, h⟩ := except_bind_ok.mp h
      cases h
      simp only [toward, placedAt, positionOf_eq_ok.mp hp, Option.getD_some]
    | _ =>
      cases h
      rfl

/-- Linking replaces labels and keeps the rest. -/
theorem link_ok {draft : Draft} (h : draft.link = .ok template) :
    (∃ instructions, draft.instructions.toList.mapM draft.linkInstruction = .ok instructions ∧
      template.instructions = instructions.toArray) ∧
    template.constants = draft.constants ∧ template.functions = draft.functions.toList := by
  simp only [Draft.link, except_bind_ok] at h
  obtain ⟨instructions, hi, resume, -, units, -, tables, -, handlers, -, hr⟩ := h
  cases hr
  exact ⟨⟨instructions, hi, rfl⟩, rfl, rfl⟩

end Ecma.Compile
