/-
The steps of code making. What one of them adds lies after what was there, and it leaves the labels
that have a position where they are.
-/
import Ecma.Compile.Control

namespace Ecma.Compile

open Code

/-! ## Code making that succeeds -/

section

variable {α β : Type} {ctx : Context} {em after : Emitter}

theorem bind_ok {x : Emit α} {f : α → Emit β} {b : β} : (x >>= f) ctx em = .ok (b, after) ↔
      ∃ a mid, x ctx em = .ok (a, mid) ∧ f a ctx mid = .ok (b, after) := by
  change (x ctx em >>= fun p => f p.1 ctx p.2) = .ok (b, after) ↔ _
  cases x ctx em with
  | error error => exact ⟨nofun, nofun⟩
  | ok p =>
    constructor
    · exact fun h => ⟨p.1, p.2, rfl, h⟩
    · rintro ⟨a, mid, h, hf⟩
      cases h
      exact hf

theorem pure_ok {a b} : (pure a : Emit α) ctx em = .ok (b, after) ↔ a = b ∧ em = after := by
  change (Except.ok (a, em) : Except CompileError _) = _ ↔ _
  simp

theorem throw_ok {error b} : (throw error : Emit α) ctx em = .ok (b, after) ↔ False :=
  ⟨nofun, nofun⟩

theorem read_ok {b} : (read : Emit Context) ctx em = .ok (b, after) ↔ ctx = b ∧ em = after := by
  change (Except.ok (ctx, em) : Except CompileError _) = _ ↔ _
  simp

theorem modify_ok {f b} : (modify f : Emit PUnit) ctx em = .ok (b, after) ↔ f em = after := by
  change (Except.ok (PUnit.unit, f em) : Except CompileError _) = _ ↔ _
  simp

theorem modifyGet_ok {f b} :
    (modifyGet f : Emit α) ctx em = .ok (b, after) ↔ f em = (b, after) := by
  change (Except.ok (f em) : Except CompileError _) = _ ↔ _
  simp

end

/-! ## Steps of code making -/

namespace Emitter

/-- The position of the next instruction. -/
def position (em : Emitter) : Nat := em.draft.position

/-- One more instruction. -/
def emit (em : Emitter) (instr : Instruction) : Emitter :=
  { em with draft := em.draft.emit instr }

/-- One more label. -/
def label (em : Emitter) : Emitter := { em with draft := em.draft.newLabel.2 }

def nextLabel (em : Emitter) : Label := em.draft.labels.size

def placing (em : Emitter) (label : Label) : Emitter :=
  { em with draft := em.draft.place label }

/-- A name among the constants. -/
def naming (em : Emitter) (name : String) : Emitter :=
  { em with draft := (em.draft.addName name).2 }

end Emitter

section

variable {ctx : Context} {em after : Emitter}

theorem op_ok {operation u} :
    op operation ctx em = .ok (u, after) ↔ em.emit ⟨operation, none⟩ = after :=
  modify_ok

theorem opWith_ok {operation operand u} : opWith operation operand ctx em = .ok (u, after) ↔
      em.emit ⟨operation, some operand⟩ = after :=
  modify_ok

theorem onDraft_ok {α : Type} {f : Draft → α × Draft} {a : α} : onDraft f ctx em = .ok (a, after) ↔
      (f em.draft).1 = a ∧ { em with draft := (f em.draft).2 } = after := by
  simp only [onDraft, modifyGet_ok, Prod.mk.injEq]

theorem scopeAt_ok {id : ScopeId} {scope : Scope} : scopeAt id ctx em = .ok (scope, after) ↔
      ctx.scopes.scope id = scope ∧ em = after := by
  simp only [scopeAt, bind_ok, read_ok, pure_ok]
  constructor
  · rintro ⟨_, _, ⟨rfl, rfl⟩, rfl, rfl⟩
    exact ⟨rfl, rfl⟩
  · rintro ⟨rfl, rfl⟩
    exact ⟨_, _, ⟨rfl, rfl⟩, rfl, rfl⟩

end

/-! ## Growth -/

namespace Emitter

/-- An emitter whose code begins with that of another. -/
structure Extends (em after : Emitter) : Prop where
  instructions : em.draft.instructions.toList <+: after.draft.instructions.toList
  constants : em.draft.constants.toList <+: after.draft.constants.toList
  functions : em.draft.functions.size ≤ after.draft.functions.size
  resume : em.draft.resume.toList <+: after.draft.resume.toList
  tables : em.draft.tables.toList <+: after.draft.tables.toList
  apart : em.apart <+: after.apart

theorem Extends.refl (em : Emitter) : em.Extends em :=
  ⟨List.prefix_rfl, List.prefix_rfl, Nat.le_refl _, List.prefix_rfl, List.prefix_rfl,
    List.prefix_rfl⟩

theorem Extends.trans {a b c : Emitter} (h : a.Extends b) (g : b.Extends c) :
    a.Extends c where
  instructions := h.instructions.trans g.instructions
  constants := h.constants.trans g.constants
  functions := Nat.le_trans h.functions g.functions
  resume := h.resume.trans g.resume
  tables := h.tables.trans g.tables
  apart := h.apart.trans g.apart

variable {em : Emitter}

@[simp] theorem position_emit (em : Emitter) (instr : Instruction) :
    (em.emit instr).position = em.position + 1 := by
  simp [position, emit, Draft.position, Draft.emit]

@[simp] theorem position_label (em : Emitter) : em.label.position = em.position := rfl

@[simp] theorem position_placing (em : Emitter) (label : Label) :
    (em.placing label).position = em.position := rfl

theorem Extends.emit (em : Emitter) (instr : Instruction) : em.Extends (em.emit instr) :=
  { Extends.refl em with instructions := by simp [Emitter.emit, Draft.emit] }

theorem Extends.label (em : Emitter) : em.Extends em.label := { Extends.refl em with }

theorem labels_label (em : Emitter) (found : Label) : em.label.draft.labels[found]? =
      if found = em.nextLabel then some none else em.draft.labels[found]? := by
  simp only [label, Draft.newLabel, nextLabel, Array.getElem?_push]
  rfl

theorem labels_label_of_lt {found} (h : found < em.nextLabel) :
    em.label.draft.labels[found]? = em.draft.labels[found]? := by
  rw [labels_label, if_neg (Nat.ne_of_lt h)]

/-- A new label moves none of those that are placed. -/
theorem labels_label_of_placed {found pos : Nat} (h : em.draft.labels[found]? = some (some pos)) :
    em.label.draft.labels[found]? = some (some pos) := by
  rw [labels_label_of_lt (Array.getElem?_eq_some_iff.mp h).1, h]

theorem labels_placing (em : Emitter) (label found : Label) :
    (em.placing label).draft.labels[found]? =
      if found = label ∧ label < em.draft.labels.size then some (some em.position)
      else em.draft.labels[found]? := by
  simp only [placing, Draft.place, Array.getElem?_setIfInBounds, position]
  grind

/-- Placing a label moves none of those that are placed. -/
theorem labels_placing_of_placed {label found pos : Nat}
    (hn : em.draft.labels[label]? = some none) (h : em.draft.labels[found]? = some (some pos)) :
    (em.placing label).draft.labels[found]? = some (some pos) := by
  rw [labels_placing, if_neg, h]
  rintro ⟨rfl, -⟩
  simp [hn] at h

end Emitter

end Ecma.Compile
