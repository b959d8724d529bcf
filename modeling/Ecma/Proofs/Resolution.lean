/-
Labels over the whole making of a draft. Whatever additions have made it, a draft is linked exactly
if every label that they aim at was placed, and then every target is where its label was placed
last.
-/
import Ecma.Proofs.Finishing

namespace Ecma.Code

open Compile (Placed placedAt toward AllPlaced Linked HandlerPlaced TablePlaced except_bind_ok
  positionOf_eq_ok mapM_ok_getElem? forall₂_getElem?)

/-! ## Histories -/

/-- An addition to a draft. -/
inductive Addition where
  | emit (instr : Instruction)
  | newLabel
  | place (label : Label)
  | addResume (label : Label)
  | addUnit (label : Label)
  | addTable (table : DraftTable)
  | addHandler (handler : DraftHandler)

namespace Addition

def apply (draft : Draft) : Addition → Draft
  | emit instr => draft.emit instr
  | newLabel => draft.newLabel.2
  | place label => draft.place label
  | addResume label => (draft.addResume label).2
  | addUnit label => (draft.addUnit label).2
  | addTable table => (draft.addTable table).2
  | addHandler handler => draft.addHandler handler

def isNewLabel : Addition → Bool
  | newLabel => true
  | _ => false

def instruction? : Addition → Option Instruction
  | emit instr => some instr
  | _ => none

def resume? : Addition → Option Label
  | addResume label => some label
  | _ => none

def unit? : Addition → Option Label
  | addUnit label => some label
  | _ => none

def table? : Addition → Option DraftTable
  | addTable table => some table
  | _ => none

/-- A handler that protects something. -/
def handler? : Addition → Option DraftHandler
  | addHandler handler => if handler.start < handler.stop then some handler else none
  | _ => none

/-- An addition refers to a label. Of the handlers, those that protect something and take control
do. -/
inductive AimsAt (addition : Addition) : Label → Prop
  | instruction {instr label} : addition.instruction? = some instr →
    instr.operand = some (.label label) → AimsAt addition label
  | resume {label} : addition.resume? = some label → AimsAt addition label
  | unit {label} : addition.unit? = some label → AimsAt addition label
  | case {table case} : addition.table? = some table → case ∈ table.cases → AimsAt addition case.2
  | default {table} : addition.table? = some table → AimsAt addition table.default
  | handler {handler} : addition.handler? = some handler → handler.kind.takesControl = true →
    AimsAt addition handler.target

end Addition

abbrev History := List Addition

namespace History

open Addition (isNewLabel instruction? resume? unit? table? handler?)

/-- The draft that a history has made. -/
def draft (history : History) : Draft := history.foldl Addition.apply {}

/-- A label that was handed out before was placed at a position, and not placed again. -/
def LastPlaced (history : History) (label : Label) (position : Nat) : Prop :=
  ∃ before after, history = before ++ .place label :: after ∧ .place label ∉ after ∧
    label < before.countP isNewLabel ∧ position = (before.filterMap instruction?).length

/-- The tables of a history each have keys of one kind. -/
def Uniform (history : History) : Prop :=
  ∀ table ∈ history.filterMap table?, ∀ case ∈ table.cases, ∀ case' ∈ table.cases,
    Compile.SwitchKey.sameKind case.1 case'.1 = true

/-- A template in which every label that a history aims at has become its position. -/
structure Resolved (history : History) (target : Label → Nat) (code : Template) : Prop where
  placed : ∀ addition ∈ history, ∀ label, addition.AimsAt label →
    LastPlaced history label (target label) ∧ target label ≤ code.instructions.size
  instructions : code.instructions.toList = (history.filterMap instruction?).map (toward target)
  unlabelled : ∀ instr ∈ code.instructions.toList, ∀ label, instr.operand ≠ some (.label label)
  resume : ∀ (before : History) label after, history = before ++ .addResume label :: after →
    code.resume[(before.draft.addResume label).1]? = some (target label)
  units : ∀ (before : History) label after, history = before ++ .addUnit label :: after →
    code.units[(before.draft.addUnit label).1]? = some (target label)
  tables : ∀ (before : History) table after, history = before ++ .addTable table :: after →
    ∃ linked, code.tables[(before.draft.addTable table).1]? = some linked ∧
      TablePlaced target table linked ∧
      ∀ v, linked.target v = target (landing table.cases table.default v)
  handlers : List.Forall₂ (HandlerPlaced target) (history.filterMap handler?) code.handlers

variable {history : History} {draft : Draft} {addition : Addition} {label : Label} {position : Nat}

/-! ## Drafts of histories -/

theorem lastPlaced_concat : LastPlaced (history ++ [addition]) label position ↔
    (addition = .place label ∧ label < history.countP isNewLabel ∧
      position = (history.filterMap instruction?).length) ∨
    addition ≠ .place label ∧ LastPlaced history label position := by
  constructor
  · rintro ⟨before, after, he, hn, hl, hp⟩
    obtain rfl | ⟨after, last, rfl⟩ := after.eq_nil_or_concat
    · obtain ⟨rfl, ha⟩ := List.append_inj' he rfl
      exact .inl ⟨List.head_eq_of_cons_eq ha, hl, hp⟩
    · rw [List.concat_eq_append] at he hn
      rw [← List.cons_append, ← List.append_assoc] at he
      obtain ⟨rfl, ha⟩ := List.append_inj' he rfl
      obtain rfl := List.head_eq_of_cons_eq ha
      rw [List.mem_append, List.mem_singleton, not_or] at hn
      exact .inr ⟨Ne.symm hn.2, before, after, rfl, hn.1, hl, hp⟩
  · rintro (⟨rfl, hl, hp⟩ | ⟨hne, before, after, rfl, hn, hl, hp⟩)
    · exact ⟨history, [], rfl, List.not_mem_nil, hl, hp⟩
    · exact ⟨before, after ++ [addition], by simp, by simp [hn, Ne.symm hne], hl, hp⟩

theorem LastPlaced.le (h : LastPlaced history label position) :
    position ≤ (history.filterMap instruction?).length := by
  obtain ⟨before, after, rfl, -, -, rfl⟩ := h
  rw [List.filterMap_append, List.length_append]
  exact Nat.le_add_right ..

theorem labels_apply : (addition.apply draft).labels[label]? = some (some position) ↔
    (addition = .place label ∧ label < draft.labels.size ∧ position = draft.position) ∨
    addition ≠ .place label ∧ draft.labels[label]? = some (some position) := by
  cases addition with
  | newLabel =>
    simp only [Addition.apply, Draft.newLabel, Array.getElem?_push]
    grind
  | place target =>
    simp only [Addition.apply, Draft.place, Array.getElem?_setIfInBounds, Addition.place.injEq]
    by_cases he : target = label
    · subst he
      simp [eq_comm]
    · simp [he]
  | addHandler handler => simp [Addition.apply, Draft.addHandler, apply_ite]
  | _ => simp [Addition.apply, Draft.emit, Draft.addResume, Draft.addUnit, Draft.addTable]

/-- What a draft has of its history. -/
structure Made (history : History) (draft : Draft) : Prop where
  instructions : draft.instructions.toList = history.filterMap instruction?
  resume : draft.resume.toList = history.filterMap resume?
  units : draft.units.toList = history.filterMap unit?
  tables : draft.tables.toList = history.filterMap table?
  handlers : draft.handlers.toList = history.filterMap handler?
  size : draft.labels.size = history.countP isNewLabel
  labels : ∀ label position,
    draft.labels[label]? = some (some position) ↔ LastPlaced history label position

theorem Made.apply (h : Made history draft) (addition : Addition) :
    Made (history ++ [addition]) (addition.apply draft) := by
  constructor
  case labels =>
    intro label position
    rw [labels_apply, lastPlaced_concat, h.labels, h.size, ← h.instructions]
    rfl
  all_goals cases addition with
  | addHandler handler =>
    by_cases hp : handler.start < handler.stop <;>
      simp [Addition.apply, Draft.addHandler, hp, instruction?, resume?, unit?, table?, handler?,
        isNewLabel, List.filterMap_cons, h.instructions, h.resume, h.units, h.tables, h.handlers,
        h.size]
  | _ =>
    simp [Addition.apply, Draft.emit, Draft.newLabel, Draft.place, Draft.addResume, Draft.addUnit,
      Draft.addTable, instruction?, resume?, unit?, table?, handler?, isNewLabel,
      List.filterMap_cons, h.instructions, h.resume, h.units, h.tables, h.handlers, h.size]

theorem Made.foldl {past : History} : (history : History) → {draft : Draft} → Made past draft →
    Made (past ++ history) (history.foldl Addition.apply draft)
  | [], _, h => (List.append_nil past).symm ▸ h
  | addition :: rest, _, h => by
    have hrest := Made.foldl rest (h.apply addition)
    rwa [List.append_assoc] at hrest

theorem made (history : History) : Made history history.draft := by
  refine @Made.foldl [] history _ ⟨rfl, rfl, rfl, rfl, rfl, rfl, fun _ _ => ⟨nofun, ?_⟩⟩
  rintro ⟨before, after, he, -⟩
  cases before <;> cases he

/-- What an addition has put into a draft stands where the draft ended before. -/
theorem getElem?_added {α : Type} {view : Addition → Option α} {xs ys : List α} {a : α}
    {before after : History} (hy : ys = (before ++ addition :: after).filterMap view)
    (hx : xs = before.filterMap view) (ha : view addition = some a) : ys[xs.length]? = some a := by
  rw [hy, List.filterMap_append, List.filterMap_cons_some ha, ← hx,
    List.getElem?_append_right (Nat.le_refl _), Nat.sub_self, List.getElem?_cons_zero]

theorem Made.allPlaced_iff (h : Made history draft) (hu : history.Uniform) : AllPlaced draft ↔
    ∀ addition ∈ history, ∀ label, addition.AimsAt label → Placed draft label := by
  have mem {α : Type} {view : Addition → Option α} {xs : List α} (he : xs = history.filterMap view)
      (a : α) : a ∈ xs ↔ ∃ addition ∈ history, view addition = some a := he ▸ List.mem_filterMap
  constructor
  · rintro hp addition hm _ (⟨hv, hl⟩ | hv | hv | ⟨hv, hc⟩ | hv | ⟨hv, hk⟩)
    · exact hp.code _ ((mem h.instructions _).mpr ⟨_, hm, hv⟩) _ hl
    · exact hp.resume _ ((mem h.resume _).mpr ⟨_, hm, hv⟩)
    · exact hp.units _ ((mem h.units _).mpr ⟨_, hm, hv⟩)
    · exact (hp.tables _ ((mem h.tables _).mpr ⟨_, hm, hv⟩)).cases _ hc
    · exact (hp.tables _ ((mem h.tables _).mpr ⟨_, hm, hv⟩)).default
    · exact hp.handlers _ ((mem h.handlers _).mpr ⟨_, hm, hv⟩) hk
  · refine fun hp => ⟨fun instr hi label hl => ?_, fun label hl => ?_, fun label hl => ?_,
      fun table ht => ?_, fun handler hh hk => ?_⟩
    · obtain ⟨addition, hm, hv⟩ := (mem h.instructions _).mp hi
      exact hp addition hm label (.instruction hv hl)
    · obtain ⟨addition, hm, hv⟩ := (mem h.resume _).mp hl
      exact hp addition hm label (.resume hv)
    · obtain ⟨addition, hm, hv⟩ := (mem h.units _).mp hl
      exact hp addition hm label (.unit hv)
    · obtain ⟨addition, hm, hv⟩ := (mem h.tables _).mp ht
      exact ⟨fun case hc => hp addition hm case.2 (.case hv hc),
        hp addition hm table.default (.default hv), hu table (h.tables ▸ ht)⟩
    · obtain ⟨addition, hm, hv⟩ := (mem h.handlers _).mp hh
      exact hp addition hm handler.target (.handler hv hk)

/-! ## Linking -/

theorem placed_of_bind {α : Type} {k : Nat → Except LinkError α} {a : α}
    (h : (draft.positionOf label >>= k) = .ok a) : Placed draft label := by
  obtain ⟨position, hp, -⟩ := except_bind_ok.mp h
  exact ⟨position, positionOf_eq_ok.mp hp⟩

theorem mapM_ok_mem {α β ε : Type} {f : α → Except ε β} {xs : List α} {ys : List β}
    (h : xs.mapM f = .ok ys) {x} (hx : x ∈ xs) : ∃ y, f x = .ok y := by
  obtain ⟨index, hi⟩ := List.getElem?_of_mem hx
  obtain ⟨y, hy, -⟩ := mapM_ok_getElem? h hi
  exact ⟨y, hy⟩

theorem placed_of_linkTable {table linked} (h : draft.linkTable table = .ok linked) :
    (∀ case ∈ table.cases, Placed draft case.2) ∧ Placed draft table.default := by
  unfold Draft.linkTable at h
  dsimp only at h
  split at h
  · obtain ⟨_, hc, h⟩ := except_bind_ok.mp h
    refine ⟨fun ⟨key, label⟩ hm => ?_, placed_of_bind h⟩
    obtain ⟨_, hl⟩ := mapM_ok_mem hc hm
    cases key with
    | number => cases hl
    | string => exact placed_of_bind hl
  · obtain ⟨_, hc, h⟩ := except_bind_ok.mp h
    refine ⟨fun ⟨key, label⟩ hm => ?_, placed_of_bind h⟩
    obtain ⟨_, hl⟩ := mapM_ok_mem hc hm
    cases key with
    | number => exact placed_of_bind hl
    | string => cases hl

/-- What is linked has a place for everything that is aimed at. -/
theorem allPlaced_of_link {code} (h : draft.link = .ok code)
    (hu : ∀ table ∈ draft.tables.toList, ∀ case ∈ table.cases, ∀ case' ∈ table.cases,
      Compile.SwitchKey.sameKind case.1 case'.1 = true) : AllPlaced draft := by
  simp only [Draft.link, except_bind_ok] at h
  obtain ⟨instructions, hi, resume, hr, units, hn, tables, ht, handlers, hh, -⟩ := h
  have hplaced {label position} (hp : draft.positionOf label = .ok position) : Placed draft label :=
    ⟨position, positionOf_eq_ok.mp hp⟩
  refine ⟨fun instr hm label hl => ?_, fun label hm => ?_, fun label hm => ?_, fun table hm => ?_,
    fun handler hm hk => ?_⟩
  · obtain ⟨_, hf⟩ := mapM_ok_mem hi hm
    unfold Draft.linkInstruction at hf
    rw [hl] at hf
    exact placed_of_bind hf
  · obtain ⟨_, hp⟩ := mapM_ok_mem hr hm
    exact hplaced hp
  · obtain ⟨_, hp⟩ := mapM_ok_mem hn hm
    exact hplaced hp
  · obtain ⟨_, hf⟩ := mapM_ok_mem ht hm
    obtain ⟨hc, hd⟩ := placed_of_linkTable hf
    exact ⟨hc, hd, hu table hm⟩
  · obtain ⟨_, hf⟩ := mapM_ok_mem hh hm
    unfold Draft.linkHandler at hf
    rw [if_pos hk] at hf
    exact placed_of_bind hf

theorem toward_ne_label (target : Label → Nat) (instr : Instruction) (label : Label) :
    (toward target instr).operand ≠ some (.label label) := by
  obtain ⟨op, _ | operand⟩ := instr
  · nofun
  · cases operand <;> nofun

theorem resolved {code} (hu : history.Uniform) (hp : AllPlaced history.draft)
    (h : Linked history.draft code) : Resolved history (placedAt history.draft) code := by
  have hmade := made history
  have hi := hmade.instructions ▸ h.instructions
  refine ⟨fun addition hm label hl => ?_, hi, ?_, ?_, ?_, ?_, hmade.handlers ▸ h.handlers⟩
  · obtain ⟨position, hplace⟩ := (hmade.allPlaced_iff hu).mp hp addition hm label hl
    have hlast := (hmade.labels label position).mp hplace
    rw [placedAt, hplace, ← Array.length_toList, hi, List.length_map]
    exact ⟨hlast, hlast.le⟩
  · rw [hi]
    exact List.forall_mem_map.mpr fun instr _ => toward_ne_label _ instr
  · rintro before label after rfl
    have hat := getElem?_added hmade.resume (made before).resume rfl
    rw [← Array.getElem?_toList, h.resume, List.getElem?_map]
    exact congrArg _ hat
  · rintro before label after rfl
    have hat := getElem?_added hmade.units (made before).units rfl
    rw [← Array.getElem?_toList, h.units, List.getElem?_map]
    exact congrArg _ hat
  · rintro before table after rfl
    have hat := getElem?_added hmade.tables (made before).tables rfl
    obtain ⟨linked, hl, htable⟩ := forall₂_getElem? h.tables hat
    rw [Array.getElem?_toList] at hl
    exact ⟨linked, hl, htable, htable.target⟩

/-- Whatever additions have made a draft, it is linked exactly if every label that they aim at was
placed, and then it is resolved. -/
theorem link_resolves (h : history.Uniform) :
    ((∃ code, history.draft.link = .ok code) ↔ ∀ addition ∈ history, ∀ label,
      addition.AimsAt label → ∃ position, LastPlaced history label position) ∧
    ∀ code, history.draft.link = .ok code → ∃ target, Resolved history target code := by
  have hmade := made history
  have hplaced {code} (hc : history.draft.link = .ok code) : AllPlaced history.draft :=
    allPlaced_of_link hc (hmade.tables ▸ h)
  refine ⟨?_, fun code hc => ?_⟩
  · simp only [← hmade.labels]
    refine Iff.trans ⟨fun ⟨_, hc⟩ => hplaced hc, fun hp => ?_⟩ (hmade.allPlaced_iff h)
    obtain ⟨code, hc, -⟩ := hp.link
    exact ⟨code, hc⟩
  · obtain ⟨code', hc', hl⟩ := (hplaced hc).link
    obtain rfl := Except.ok.inj (hc.symm.trans hc')
    exact ⟨_, resolved h (hplaced hc) hl⟩

/-- A label that is placed twice, and one that only handlers without a target name. -/
def placedTwice : History :=
  [.newLabel, .newLabel, .place 0, .emit ⟨.jump, some (.label 0)⟩,
    .addTable ⟨[(.string "a", 0), (.string "a", 0)], 0⟩, .addHandler ⟨1, 1, 1, .catches⟩,
    .addHandler ⟨0, 1, 1, .closes 0⟩, .place 0]

theorem link_resolves_placedTwice : placedTwice.Uniform ∧
    ∃ code, placedTwice.draft.link = .ok code ∧
    code.instructions = #[⟨.jump, some (.jump 1)⟩] ∧ ∃ target, Resolved placedTwice target code :=
  have h : placedTwice.Uniform := by
    unfold Uniform
    decide
  ⟨h, _, rfl, rfl, (link_resolves h).2 _ rfl⟩

end History

end Ecma.Code
