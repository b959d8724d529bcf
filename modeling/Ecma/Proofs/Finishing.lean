/-
Finished code in step. Emitters that end abreast, with every label in its place, are both linked,
and the points of their drafts are the points of their templates.
-/
import Mathlib.Data.Set.List
import Ecma.Proofs.Options.SwitchDispatch

namespace Ecma.Compile

open Code (Template Instruction Constant Handler HandlerKind SwitchKey SwitchTable SwitchCases Label
  Draft DraftTable DraftHandler FunctionKind InStep landing)

/-! ## Tables -/

/-- A first match is not lost with later elements of the same key. -/
theorem find?_kept {α κ : Type} [BEq κ] [LawfulBEq κ] {key : α → κ} {p : κ → Bool} (xs kept : List α) :
    (xs.foldl (fun kept x => if kept.any (fun y => key y == key x) then kept else kept ++ [x])
      kept).find? (fun x => p (key x)) = (kept ++ xs).find? fun x => p (key x) := by
  induction xs generalizing kept with
  | nil => rw [List.foldl_nil, List.append_nil]
  | cons x xs ih =>
    rw [List.foldl_cons, ih]
    split
    · next h =>
      obtain ⟨y, hy, he⟩ := List.any_eq_true.mp h
      rw [List.find?_append, List.find?_append, List.find?_cons]
      cases hp : p (key x) with
      | false => rfl
      | true =>
        have hfound : (kept.find? fun x => p (key x)).isSome := by
          rw [List.find?_isSome]
          exact ⟨y, hy, eq_of_beq he ▸ hp⟩
        obtain ⟨found, hf⟩ := Option.isSome_iff_exists.mp hfound
        rw [hf]
        rfl
    · rw [List.append_assoc]
      rfl

theorem landing_firstKeys (cases : List (SwitchKey × Label)) (otherwise : Nat) (v : Value) :
    landing (firstKeys cases) otherwise v = landing cases otherwise v :=
  congrArg (fun found => (found.map Prod.snd).getD otherwise)
    (find?_kept (p := fun key : SwitchKey => key.matches v) cases [])

theorem lookup_eq_find? {β : Type} {κ : Type} [BEq κ] [LawfulBEq κ] (v : κ) (cases : List (κ × β)) :
    cases.lookup v = (cases.find? fun case => v == case.1).map Prod.snd := by
  induction cases with
  | nil => rfl
  | cons case rest ih =>
    rw [List.lookup_cons, List.find?_cons]
    cases h : v == case.1 with
    | true => rfl
    | false => exact ih

theorem lookup_firstOfEach (v : String) (cases : List (String × Nat)) :
    (Draft.firstOfEach cases).lookup v = cases.lookup v := by
  have hdrops : ∀ (kept : List (String × Nat)) (case : String × Nat),
      (kept.lookup case.1).isSome = kept.any fun other => other.1 == case.1 := by
    intro kept case
    rw [lookup_eq_find?, Option.isSome_map, Bool.eq_iff_iff, List.find?_isSome, List.any_eq_true]
    simp only [beq_iff_eq, @eq_comm _ case.1]
  have hfold : Draft.firstOfEach cases = cases.foldl (fun kept case =>
      if kept.any fun other => other.1 == case.1 then kept else kept ++ [case]) [] := by
    simp only [Draft.firstOfEach, hdrops]
  rw [lookup_eq_find?, lookup_eq_find?, hfold]
  exact congrArg _ (find?_kept (p := fun key => v == key) cases [])

/-- A case with its label replaced by a position. -/
def placedCase (place : Label → Nat) (case : SwitchKey × Label) : SwitchKey × Nat :=
  (case.1, place case.2)

theorem mapM_eq_ok {α β ε : Type} {f : α → Except ε β} {g : α → β} {xs : List α}
    (h : ∀ x ∈ xs, f x = .ok (g x)) : xs.mapM f = .ok (xs.map g) := by
  induction xs with
  | nil => rfl
  | cons x rest ih =>
    rw [List.mapM_cons, h x (.head _), ih fun y hy => h y (.tail _ hy)]
    rfl

def Placed (draft : Draft) (label : Label) : Prop :=
  ∃ position, draft.labels[label]? = some (some position)

theorem Placed.positionOf {draft : Draft} {label : Label} (h : Placed draft label) :
    draft.positionOf label = .ok (placedAt draft label) := by
  obtain ⟨position, h⟩ := h
  simp only [positionOf_eq_ok, placedAt, h, Option.getD_some]

theorem landing_placed (place : Label → Nat) (cases : List (SwitchKey × Label)) (otherwise : Label)
    (v : Value) : landing (cases.map (placedCase place)) (place otherwise) v =
      place (landing cases otherwise v) := by
  rw [landing, landing, List.find?_map, Option.map_map]
  change (Option.map _ (cases.find? fun case => case.1.matches v)).getD _ = _
  cases cases.find? fun case => case.1.matches v <;> rfl

/-- The key that asks for a value. -/
def keyFor? : Value → Option SwitchKey
  | .number v => (Number.integerIn? Number.minInt32 Number.maxInt32 v).map .number
  | .string v => some (.string v)
  | _ => none

theorem matches_eq (key : SwitchKey) (v : Value) : key.matches v = (keyFor? v == some key) := by
  rw [Bool.eq_iff_iff]
  cases key <;> cases v <;> simp [SwitchKey.matches, keyFor?, @eq_comm String]

theorem landing_eq_lookup (cases : List (SwitchKey × Label)) (otherwise : Label) (v : Value) :
    landing cases otherwise v = ((keyFor? v).bind fun key => cases.lookup key).getD otherwise := by
  simp only [landing, matches_eq]
  cases keyFor? v with
  | none =>
    rw [List.find?_eq_none.mpr (by simp)]
    rfl
  | some key =>
    simp only [Option.some_beq_some]
    rw [Option.bind_some, lookup_eq_find?]

/-- The position of a key. -/
def SwitchCases.lookup : SwitchCases → SwitchKey → Option Nat
  | .numbers cases, .number key => cases.lookup key
  | .strings cases, .string key => cases.lookup key
  | _, _ => none

theorem target_eq_lookup (table : SwitchTable) (v : Value) :
    table.target v = ((keyFor? v).bind (SwitchCases.lookup table.cases)).getD table.default := by
  obtain ⟨cases | cases, default⟩ := table <;> cases v
  case numbers.number v =>
    simp only [SwitchTable.target, SwitchTable.numberTarget, keyFor?]
    cases Number.integerIn? Number.minInt32 Number.maxInt32 v <;> rfl
  case strings.number v =>
    simp only [SwitchTable.target, SwitchTable.numberTarget, keyFor?]
    cases Number.integerIn? Number.minInt32 Number.maxInt32 v <;> rfl
  all_goals rfl

/-- A table with its labels replaced by positions. -/
structure TablePlaced (place : Label → Nat) (table : DraftTable) (linked : SwitchTable) : Prop where
  default : linked.default = place table.default
  entry : ∀ key, SwitchCases.lookup linked.cases key = (table.cases.lookup key).map place

theorem TablePlaced.target {place table linked} (h : TablePlaced place table linked) (v : Value) :
    linked.target v = place (landing table.cases table.default v) := by
  rw [target_eq_lookup, landing_eq_lookup, h.default]
  cases keyFor? v with
  | none => rfl
  | some key =>
    rw [Option.bind_some, Option.bind_some, h.entry]
    cases table.cases.lookup key <;> rfl

theorem lookup_map {α β κ κ' : Type} [BEq κ] [LawfulBEq κ] [BEq κ'] [LawfulBEq κ'] {f : κ → κ'}
    (hf : f.Injective) (g : α → β) (key : κ) (cases : List (κ × α)) :
    (cases.map fun case => (f case.1, g case.2)).lookup (f key) = (cases.lookup key).map g := by
  induction cases with
  | nil => rfl
  | cons case rest ih =>
    rw [List.map_cons, List.lookup_cons, List.lookup_cons, ih]
    by_cases h : key = case.1
    · simp [h]
    · simp [beq_false_of_ne h, beq_false_of_ne fun he => h (hf he)]

/-- A case whose key is of one kind. -/
def kindCase {κ : Type} (kind : κ → SwitchKey) (case : κ × Label) : SwitchKey × Label :=
  (kind case.1, case.2)

/-- Keys of one kind are all strings or all numbers. -/
theorem strings_or_numbers {cases}
    (h : ∀ case ∈ cases, ∀ case' ∈ cases, SwitchKey.sameKind case.1 case'.1 = true) :
    (∃ text texts, cases = List.map (kindCase .string) (text :: texts)) ∨
      ∃ numbers, cases = List.map (kindCase .number) numbers := by
  cases cases with
  | nil => exact .inr ⟨[], rfl⟩
  | cons first rest =>
    have hfirst := fun case hm => h first (.head _) case (.tail _ hm)
    obtain ⟨number | text, label⟩ := first
    · have hrest : rest ∈ Set.range (List.map (kindCase .number)) := by
        rw [Set.range_list_map]
        rintro ⟨number | text, label⟩ hm
        · exact ⟨(number, label), rfl⟩
        · cases hfirst _ hm
      obtain ⟨numbers, rfl⟩ := hrest
      exact .inr ⟨(number, label) :: numbers, rfl⟩
    · have hrest : rest ∈ Set.range (List.map (kindCase .string)) := by
        rw [Set.range_list_map]
        rintro ⟨number | text, label⟩ hm
        · cases hfirst _ hm
        · exact ⟨(text, label), rfl⟩
      obtain ⟨texts, rfl⟩ := hrest
      exact .inl ⟨(text, label), texts, rfl⟩

section

variable {κ : Type} {kind : κ → SwitchKey} {cases : List (κ × Label)}

theorem lookup_kind [BEq κ] [LawfulBEq κ] (hk : kind.Injective) (place : Label → Nat) (key : κ) :
    (cases.map fun case => (case.1, place case.2)).lookup key =
      ((cases.map (kindCase kind)).lookup (kind key)).map place :=
  (lookup_map Function.injective_id place key cases).trans
    (congrArg (Option.map place) ((lookup_map hk id key cases).trans Option.map_id_apply).symm)

theorem lookup_otherKind {key : SwitchKey} (h : ∀ other, kind other ≠ key) :
    (cases.map (kindCase kind)).lookup key = none :=
  List.lookup_eq_none_iff.mpr fun _ hm => by
    obtain ⟨case, -, rfl⟩ := List.mem_map.mp hm
    exact bne_iff_ne.mpr (h case.1).symm

theorem mapM_kind {draft : Draft} {link : SwitchKey × Label → Except Code.LinkError (κ × Nat)}
    (hl : ∀ key label, link (kind key, label) = do return (key, ← draft.positionOf label))
    (hp : ∀ case ∈ cases.map (kindCase kind), Placed draft case.2) :
    (cases.map (kindCase kind)).mapM link =
      .ok (cases.map fun case => (case.1, placedAt draft case.2)) := by
  rw [List.mapM_map]
  refine mapM_eq_ok fun case hm => (hl case.1 case.2).trans ?_
  have hcase : Placed draft case.2 := hp _ (List.mem_map_of_mem hm)
  rw [hcase.positionOf]
  rfl

end

theorem linkTable_ok {draft : Draft} {table : DraftTable} {known : Label → Prop}
    (h : TableKnown known table) (hp : ∀ label, known label → Placed draft label) :
    ∃ linked, draft.linkTable table = .ok linked ∧ TablePlaced (placedAt draft) table linked := by
  obtain ⟨cases, default⟩ := table
  have hdefault := (hp default h.default).positionOf
  have hplaced : ∀ case ∈ cases, Placed draft case.2 := fun case hm => hp case.2 (h.cases case hm)
  unfold Draft.linkTable
  obtain ⟨text, texts, rfl⟩ | ⟨numbers, rfl⟩ := strings_or_numbers h.uniform
  · rw [mapM_kind (fun _ _ => rfl) hplaced, hdefault]
    refine ⟨_, rfl, rfl, ?_⟩
    rintro (number | text)
    · exact (congrArg (Option.map _) (lookup_otherKind nofun)).symm
    · exact (lookup_firstOfEach ..).trans (lookup_kind (fun _ _ => SwitchKey.string.inj) _ text)
  · rw [mapM_kind (fun _ _ => rfl) hplaced, hdefault]
    refine ⟨⟨.numbers (numbers.map fun case => (case.1, placedAt draft case.2)), _⟩,
      by cases numbers <;> rfl, rfl, ?_⟩
    rintro (number | text)
    · exact lookup_kind (fun _ _ => SwitchKey.number.inj) _ number
    · exact (congrArg (Option.map _) (lookup_otherKind nofun)).symm

/-! ## Linking -/

theorem mapM_ok_of {α β ε : Type} {f : α → Except ε β} {r : α → β → Prop} {xs : List α}
    (h : ∀ x ∈ xs, ∃ y, f x = .ok y ∧ r x y) : ∃ ys, xs.mapM f = .ok ys ∧ List.Forall₂ r xs ys := by
  induction xs with
  | nil => exact ⟨[], rfl, .nil⟩
  | cons x rest ih =>
    obtain ⟨y, hy, hr⟩ := h x (.head _)
    obtain ⟨ys, hys, hrs⟩ := ih fun x hx => h x (.tail _ hx)
    refine ⟨y :: ys, ?_, .cons hr hrs⟩
    rw [List.mapM_cons, hy, hys]
    rfl

theorem forall₂_getElem? {α β : Type} {r : α → β → Prop} {xs ys} (h : List.Forall₂ r xs ys) {index : Nat}
    {x} (hx : xs[index]? = some x) : ∃ y, ys[index]? = some y ∧ r x y := by
  induction h generalizing index with
  | nil => cases hx
  | cons hr _ ih =>
    cases index with
    | zero =>
      obtain rfl := Option.some.inj hx
      exact ⟨_, rfl, hr⟩
    | succ index => exact ih hx

/-- A handler with its label replaced by a position, if it takes control. -/
structure HandlerPlaced (place : Label → Nat) (handler : DraftHandler) (linked : Handler) : Prop where
  start : linked.start = handler.start
  stop : linked.stop = handler.stop
  kind : linked.kind = handler.kind
  target : handler.kind.takesControl = true → linked.target = place handler.target

/-- A template that has all of a draft, with every label replaced by its position. -/
structure Linked (draft : Draft) (template : Template) : Prop where
  instructions : template.instructions.toList =
    draft.instructions.toList.map (toward (placedAt draft))
  constants : template.constants = draft.constants
  functions : template.functions = draft.functions.toList
  resume : template.resume.toList = draft.resume.toList.map (placedAt draft)
  units : template.units.toList = draft.units.toList.map (placedAt draft)
  tables : List.Forall₂ (TablePlaced (placedAt draft)) draft.tables.toList template.tables.toList
  handlers : List.Forall₂ (HandlerPlaced (placedAt draft)) draft.handlers.toList template.handlers
  registers : template.registers = draft.registers

/-- A draft in which everything that is aimed at has its place. -/
structure AllPlaced (draft : Draft) : Prop where
  code : ∀ instr ∈ draft.instructions.toList, ∀ label,
    instr.operand = some (.label label) → Placed draft label
  resume : ∀ label ∈ draft.resume.toList, Placed draft label
  units : ∀ label ∈ draft.units.toList, Placed draft label
  tables : ∀ table ∈ draft.tables.toList, TableKnown (Placed draft) table
  handlers : ∀ handler ∈ draft.handlers.toList, handler.kind.takesControl = true →
    Placed draft handler.target

theorem linkInstruction_placed {draft : Draft} {instr : Instruction}
    (h : ∀ label, instr.operand = some (.label label) → Placed draft label) :
    draft.linkInstruction instr = .ok (toward (placedAt draft) instr) := by
  obtain ⟨op, _ | operand⟩ := instr
  · rfl
  · cases operand with
    | label label =>
      change (draft.positionOf label >>= fun position => _) = _
      rw [(h label rfl).positionOf]
      rfl
    | _ => rfl

theorem linkHandler_placed {draft : Draft} {handler : DraftHandler}
    (h : handler.kind.takesControl = true → Placed draft handler.target) :
    ∃ linked, draft.linkHandler handler = .ok linked ∧
      HandlerPlaced (placedAt draft) handler linked := by
  unfold Draft.linkHandler
  cases hk : handler.kind.takesControl with
  | true =>
    rw [if_pos rfl, (h hk).positionOf]
    exact ⟨_, rfl, rfl, rfl, rfl, fun _ => rfl⟩
  | false => exact ⟨_, rfl, rfl, rfl, rfl, fun ht => absurd (hk ▸ ht) Bool.false_ne_true⟩

/-- A draft in which everything has its place is linked. -/
theorem AllPlaced.link {draft : Draft} (h : AllPlaced draft) :
    ∃ template, draft.link = .ok template ∧ Linked draft template := by
  have hresume := mapM_eq_ok fun label hl => (h.resume label hl).positionOf
  have hunits := mapM_eq_ok fun label hl => (h.units label hl).positionOf
  have hcode := mapM_eq_ok fun instr hi => linkInstruction_placed (h.code instr hi)
  obtain ⟨tables, htables, ht⟩ := mapM_ok_of fun table hm =>
    linkTable_ok (h.tables table hm) fun _ hp => hp
  obtain ⟨handlers, hhandlers, hh⟩ := mapM_ok_of fun handler hm =>
    linkHandler_placed (h.handlers handler hm)
  refine ⟨{ draft.unlinked with
    instructions := (draft.instructions.toList.map (toward (placedAt draft))).toArray
    handlers
    resume := (draft.resume.toList.map (placedAt draft)).toArray
    units := (draft.units.toList.map (placedAt draft)).toArray
    tables := tables.toArray }, ?_, ⟨rfl, rfl, rfl, rfl, rfl, ht, hh, rfl⟩⟩
  unfold Draft.link
  rw [hcode, hresume, hunits, htables, hhandlers]
  rfl

/-! ## Units at the end -/

def Emitter.whole (em : Emitter) : Draft := em.apart.foldl withUnit em.draft

def Holding (draft : Draft) (position : Nat) (code : List Instruction) : Prop :=
  ∀ index, index < code.length → draft.instructions[position + index]? = code[index]?

theorem instructions_withUnit (draft : Draft) (unit : Label × List Instruction) :
    (withUnit draft unit).instructions.toList = draft.instructions.toList ++ unit.2 := by
  simp [withUnit, Draft.place]

theorem unit_placed : (units : List (Label × List Instruction)) → (draft : Draft) →
    (units.map Prod.fst).Nodup → (∀ label ∈ units.map Prod.fst, label < draft.labels.size) →
    ∀ unit ∈ units, ∃ position, (units.foldl withUnit draft).labels[unit.1]? = some (some position) ∧
      draft.position ≤ position ∧ Holding (units.foldl withUnit draft) position unit.2
  | [], _, _, _, _, hm => by cases hm
  | first :: rest, draft, hn, hb, unit, hm => by
    have hrest := appended rest (withUnit draft first)
    rw [List.map_cons, List.nodup_cons] at hn
    have hlater : draft.position ≤ (withUnit draft first).position := by
      simp only [Draft.position, ← Array.length_toList, instructions_withUnit, List.length_append]
      exact Nat.le_add_right ..
    rw [List.foldl_cons]
    obtain rfl | hm := List.mem_cons.mp hm
    · refine ⟨draft.position, ?_, Nat.le_refl _, fun index hi => ?_⟩
      · rw [hrest.labels _ hn.1]
        simp only [withUnit, Draft.place, Array.getElem?_setIfInBounds]
        rw [if_pos trivial, if_pos (hb _ (.head _))]
      · have hx : (withUnit draft unit).instructions[draft.position + index]? =
            some unit.2[index] := by
          rw [← Array.getElem?_toList, instructions_withUnit, Draft.position, ← Array.length_toList,
            List.getElem?_append_right (Nat.le_add_right ..), Nat.add_sub_cancel_left,
            List.getElem?_eq_getElem hi]
        rw [getElem?_of_leading hrest.instructions hx, List.getElem?_eq_getElem hi]
    · obtain ⟨position, hp, hle, hh⟩ := unit_placed rest (withUnit draft first) hn.2
        (fun label hl => by simpa [withUnit, Draft.place] using hb label (.tail _ hl))
        unit hm
      exact ⟨position, hp, Nat.le_trans hlater hle, hh⟩

theorem mem_withUnits {units : List (Label × List Instruction)} {draft : Draft}
    {instr : Instruction} (h : instr ∈ (units.foldl withUnit draft).instructions.toList) :
    instr ∈ draft.instructions.toList ∨ ∃ unit ∈ units, instr ∈ unit.2 := by
  induction units generalizing draft with
  | nil => exact .inl h
  | cons unit rest ih =>
    obtain h | ⟨found, hf, hi⟩ := ih h
    · rw [instructions_withUnit, List.mem_append] at h
      exact h.imp_right fun hi => ⟨unit, List.mem_cons_self .., hi⟩
    · exact .inr ⟨found, List.mem_cons_of_mem _ hf, hi⟩

namespace Emitter.Side

variable {em : Emitter} {marked : List Label} {known : Label → Prop} (h : em.Side marked known)

include h

theorem labels_whole {label position : Nat} (hl : em.draft.labels[label]? = some (some position)) :
    em.whole.labels[label]? = some (some position) := by
  have hne : label ∉ em.apart.map Prod.fst := by
    intro hm
    have hu := h.unplaced label (List.mem_append_right _ hm)
    rw [hu] at hl
    cases hl
  rw [Emitter.whole, (appended em.apart em.draft).labels label hne, hl]

theorem unit_whole {unit : Label × List Instruction} (hu : unit ∈ em.apart) :
    ∃ position, em.whole.labels[unit.1]? = some (some position) ∧
      em.position ≤ position ∧ Holding em.whole position unit.2 := by
  refine unit_placed em.apart em.draft (List.nodup_append.mp h.fresh).2.1 ?_ unit hu
  intro label hl
  exact (Array.getElem?_eq_some_iff.mp (h.unplaced label (List.mem_append_right _ hl))).1

/-- An emitter of which everything that is known has its place is linked. -/
theorem allPlaced (hk : ∀ label, known label → Placed em.draft label)
    (hh : ∀ handler ∈ em.draft.handlers.toList, handler.kind.takesControl = true →
      known handler.target) : AllPlaced em.whole := by
  have hwhole := appended em.apart em.draft
  have hplaced : ∀ label, known label → Placed em.whole label := by
    intro label hl
    obtain ⟨position, hp⟩ := hk label hl
    exact ⟨position, h.labels_whole hp⟩
  refine ⟨fun instr hi label hl => ?_, ?_, ?_, ?_, ?_⟩
  · obtain hi | ⟨unit, hu, hi⟩ := mem_withUnits hi
    · exact hplaced label (h.code instr hi label hl)
    · exact absurd hl (h.apartCode unit hu instr hi label)
  · rw [Emitter.whole, hwhole.resume]
    exact fun label hl => hplaced label (h.resume label hl)
  · rw [Emitter.whole, hwhole.units, h.units]
    intro label hl
    obtain ⟨unit, hu, rfl⟩ := List.mem_map.mp hl
    obtain ⟨position, hp, -⟩ := h.unit_whole hu
    exact ⟨position, hp⟩
  · rw [Emitter.whole, hwhole.tables]
    intro table ht
    have hknown := h.tables table ht
    exact ⟨fun case hc => hplaced _ (hknown.cases case hc), hplaced _ hknown.default,
      hknown.uniform⟩
  · rw [Emitter.whole, hwhole.handlers]
    exact fun handler hm hc => hplaced _ (hh handler hm hc)

end Emitter.Side

/-! ## Code of a template -/

theorem toward_of_not_label {place instr} (h : ∀ label, instr.operand ≠ some (.label label))
    : toward place instr = instr := by
  obtain ⟨op, _ | operand⟩ := instr
  · rfl
  · cases operand with
    | label label => exact absurd rfl (h label)
    | _ => rfl

theorem Linked.instruction {draft : Draft} {template : Template} (h : Linked draft template)
    {position : Nat} {instr : Instruction} (hi : draft.instructions[position]? = some instr) :
    template.instructions[position]? = some (toward (placedAt draft) instr) := by
  rw [← Array.getElem?_toList] at hi ⊢
  rw [h.instructions, List.getElem?_map, hi]
  rfl

theorem Linked.holds {draft} {template : Template} (h : Linked draft template) {position code}
    (hc : Holding draft position code)
    (hl : ∀ instr ∈ code, ∀ label, instr.operand ≠ some (.label label)) :
    template.Holds position code := by
  intro index hi
  have hx := hc index hi
  rw [List.getElem?_eq_getElem hi] at hx ⊢
  rw [h.instruction hx, toward_of_not_label (hl _ (List.getElem_mem hi))]

namespace Emitter.Side

variable {em : Emitter} {marked : List Label} {known : Label → Prop} {template : Template}
  (hs : em.Side marked known) (hl : Linked em.whole template)

include hl

theorem instruction {position : Nat} {instr : Instruction}
    (hi : em.draft.instructions[position]? = some instr) :
    template.instructions[position]? = some (toward (placedAt em.whole) instr) :=
  hl.instruction (getElem?_of_leading (appended em.apart em.draft).instructions hi)

theorem constant {index : Nat} {constant : Constant}
    (hc : em.draft.constants[index]? = some constant) :
    template.constants[index]? = some constant := by
  rw [hl.constants, Emitter.whole, (appended em.apart em.draft).constants, hc]

include hs in
theorem stands {position next : Nat} {code : List Instruction} (h : em.Stands position code next)
    (hn : ∀ instr ∈ code, ∀ label, instr.operand ≠ some (.label label)) :
    template.Stands position code next := by
  cases h with
  | inline h =>
    refine .inline (hl.holds (fun index hi => ?_) hn)
    have hx := h index hi
    rw [List.getElem?_eq_getElem hi] at hx ⊢
    exact getElem?_of_leading (appended em.apart em.draft).instructions hx
  | @apart unit entry hi ha =>
    have hm := List.mem_of_getElem? ha
    obtain ⟨start, hp, -, hh⟩ := hs.unit_whole hm
    refine @Template.Stands.apart _ _ _ _ start (instruction hl hi) ?_ (hl.holds hh (hs.apartCode _ hm))
    rw [← Array.getElem?_toList, hl.units, Emitter.whole,
      (appended em.apart em.draft).units, hs.units, List.getElem?_map, List.getElem?_map, ha]
    exact congrArg some (by rw [← Emitter.whole, placedAt, hp]; rfl)

theorem tests {reg position otherwise} {cases : List (SwitchKey × Label)}
    (h : em.Tests reg otherwise position cases) :
    template.Tests reg (placedAt em.whole otherwise) position
      (cases.map (placedCase (placedAt em.whole))) := by
  induction h with
  | done h => exact .done (instruction hl h)
  | case h0 h1 hc hk h2 h3 _ ih =>
    exact .case (instruction hl h0) (instruction hl h1) (constant hl hc) hk (instruction hl h2)
      (instruction hl h3) ih

theorem dispatches {reg position need : Nat} {otherwise : Label} {cases : List (SwitchKey × Label)}
    (h : em.Dispatches reg position cases otherwise need) :
    template.Dispatches reg position (cases.map (placedCase (placedAt em.whole)))
      (placedAt em.whole otherwise) need := by
  cases h with
  | tests h => exact .tests (tests hl h)
  | @table index h0 h1 ht =>
    have ht : em.whole.tables.toList[index]? = some ⟨firstKeys cases, otherwise⟩ := by
      rw [Emitter.whole, (appended em.apart em.draft).tables, Array.getElem?_toList, ht]
    obtain ⟨linked, hlinked, htable⟩ := forall₂_getElem? hl.tables ht
    refine @Template.Dispatches.table _ _ _ _ _ _ linked (instruction hl h0) (instruction hl h1) ?_
      fun v => ?_
    · rw [← Array.getElem?_toList, hlinked]
    · rw [htable.target, landing_placed, landing_firstKeys]

end Emitter.Side

/-! ## Points of templates -/

theorem takesControl_iff (kind : HandlerKind) :
    kind.takesControl = true ↔ ∃ height, kind.entryHeight? = some height := by
  cases kind <;> simp [HandlerKind.takesControl, HandlerKind.entryHeight?]

/-- Two emitters that end abreast, and their templates. -/
structure Finished (room : Nat) (kind : FunctionKind) (fs : List Fact) (stage : Stage)
    (first second : Template) : Prop where
  abreast : Abreast room kind fs stage
  ends : stage.here = none
  settled : ∀ l m height, Fact.label l m (some height) ∉ fs
  one : Linked stage.one.whole first
  other : Linked stage.other.whole second
  kind : first.kind = kind

namespace Finished

variable {room : Nat} {kind : FunctionKind} {fs : List Fact} {stage : Stage}
  {first second : Template} (h : Finished room kind fs stage first second)
  {p q : Nat} {shape : Shape}

include h

theorem leads_of_reaches (hr : stage.Reaches p q shape) : stage.ledger.point.Leads p q shape := by
  cases hr with
  | point hp hf => exact ⟨_, hp, hf⟩
  | next _ _ hh _ =>
    rw [h.ends] at hh
    cases hh

theorem leads_of_target {l m : Label} (ht : stage.ledger.target l m shape) :
    stage.ledger.point.Leads (placedAt stage.one.whole l) (placedAt stage.other.whole m) shape := by
  obtain ⟨p, q, hp, hq, hr⟩ | ⟨height, -, hf⟩ := h.abreast.labelled.target ht
  · rw [placedAt, placedAt, h.abreast.labelled.one.labels_whole hp,
      h.abreast.labelled.other.labels_whole hq]
    exact h.leads_of_reaches hr
  · exact absurd hf (h.settled l m height)

theorem share {a b : Nat} {constant : Constant} (hs : stage.Share a b constant) :
    first.Share second a b constant :=
  ⟨Emitter.Side.constant h.one hs.1, Emitter.Side.constant h.other hs.2⟩

theorem goes {one other} (hg : (stage.around kind p q).goes one other shape) :
    ∃ l m, one = .label l ∧ other = .label m ∧ (first.around second stage.ledger.point p q).goes
      (.jump (placedAt stage.one.whole l)) (.jump (placedAt stage.other.whole m)) shape := by
  obtain ⟨l, m, ho, hm, ht⟩ := hg
  exact ⟨l, m, ho, hm, _, _, rfl, rfl, h.leads_of_target ht⟩

theorem rests {state height} (hr : (stage.around kind p q).rests state height) :
    (first.around second stage.ledger.point p q).rests state height := by
  obtain ⟨hk, l, m, hl, hm, ht⟩ := hr
  have hresume : ∀ {em : Emitter} {template : Template} {label : Label},
      Linked em.whole template → em.draft.resume[state]? = some label →
      template.resume[state]? = some (placedAt em.whole label) := by
    intro em template label hlinked hlabel
    rw [← Array.getElem?_toList, hlinked.resume, Emitter.whole,
      (appended em.apart em.draft).resume, List.getElem?_map, Array.getElem?_toList, hlabel]
    rfl
  refine ⟨h.kind ▸ hk, _, _, hresume h.one hl, hresume h.other hm, h.leads_of_target ht⟩

/-- Instructions that do the same do so with their labels replaced. -/
theorem alike {i j : Instruction} (ha : Instruction.Alike (stage.around kind p q) shape i j) :
    Instruction.Alike (first.around second stage.ledger.point p q) shape
      (toward (placedAt stage.one.whole) i) (toward (placedAt stage.other.whole) j) := by
  have falls : ∀ {found}, (stage.around kind p q).falls found →
      (first.around second stage.ledger.point p q).falls found := fun hf => h.leads_of_reaches hf
  cases ha with
  | plain hp hs hf =>
    rw [toward_of_not_label fun label => (hs.not_label label).1,
      toward_of_not_label fun label => (hs.not_label label).2]
    exact .plain hp (hs.mono fun _ _ _ => h.share) (falls hf)
  | clear hf => exact .clear (falls hf)
  | enter hf => exact .enter (falls hf)
  | begin hs hf => exact .begin hs (falls hf)
  | bind hb hs hc hf => exact .bind hb (h.share hs) hc (falls hf)
  | function hf => exact .function (falls hf)
  | checkLexical hs hc hf => exact .checkLexical (h.share hs) hc (falls hf)
  | checkVar hs hc hf => exact .checkVar (h.share hs) hc (falls hf)
  | check hc hs hf => exact .check hc (h.share hs) (falls hf)
  | declareLexical hs hc hn hv hf => exact .declareLexical (h.share hs) hc hn hv (falls hf)
  | declareVar hs hc hn hv hf => exact .declareVar (h.share hs) hc hn hv (falls hf)
  | declareFunction hs hc hn hv hf => exact .declareFunction (h.share hs) hc hn hv (falls hf)
  | jump hg =>
    obtain ⟨l, m, rfl, rfl, hto⟩ := h.goes hg
    exact .jump hto
  | branch hb hg hf =>
    obtain ⟨l, m, rfl, rfl, hto⟩ := h.goes hg
    exact .branch hb hto (falls hf)
  | resumed hb hg hf =>
    obtain ⟨l, m, rfl, rfl, hto⟩ := h.goes hg
    exact .resumed hb hto (falls hf)
  | finish hg hf =>
    obtain ⟨l, m, rfl, rfl, hto⟩ := h.goes hg
    exact .finish hto (falls hf)
  | leave hl hs =>
    rw [toward_of_not_label fun label => (hs.not_label label).1,
      toward_of_not_label fun label => (hs.not_label label).2]
    exact .leave hl (hs.mono fun _ _ _ => h.share)
  | suspend hr => exact .suspend (h.rests hr)

/-- The handlers over positions that correspond pair off. -/
theorem handlersAlike (hs : stage.ledger.seam p q) :
    Code.HandlersAlike first second stage.ledger.point p q := by
  have hcourse := h.abreast.course
  have hone := h.one.handlers
  have hother := h.other.handlers
  rw [Emitter.whole, (appended stage.one.apart stage.one.draft).handlers, ← Emitter.whole] at hone
  rw [Emitter.whole, (appended stage.other.apart stage.other.draft).handlers, ← Emitter.whole] at hother
  have hpairs := h.abreast.stored.handlers
  unfold Code.HandlersAlike
  generalize stage.one.draft.handlers.toList = ones at hone hpairs
  generalize stage.other.draft.handlers.toList = others at hother hpairs
  generalize first.handlers = firsts at hone
  generalize second.handlers = seconds at hother
  induction hpairs generalizing firsts seconds with
  | nil =>
    cases hone
    cases hother
    exact .nil
  | @cons one other _ _ hp _ ih =>
    cases hone with
    | @cons _ linked _ _ hl hone =>
      cases hother with
      | @cons _ linked' _ _ hl' hother =>
        have hcovers : linked.covers p = linked'.covers q := by
          have hstart := hcourse.order hs hp.start
          have hstop := hcourse.order hs hp.stop
          simp only [Handler.covers, hl.start, hl.stop, hl'.start, hl'.stop, ← Nat.not_lt, hstart,
            hstop]
        rw [List.filter_cons, List.filter_cons, ← hcovers]
        have ih := ih _ hone _ hother
        cases hc : linked.covers p with
        | false => exact ih
        | true =>
          refine .cons ⟨?_, fun height hh => ?_⟩ ih
          · rw [hl.kind, hl'.kind, hp.kind]
          · rw [hl.kind] at hh
            rw [hl.target ((takesControl_iff _).mpr ⟨height, hh⟩),
              hl'.target ((takesControl_iff _).mpr ⟨height, hp.kind ▸ hh⟩)]
            exact h.leads_of_target (hp.target height hh)

/-- Points of the drafts are points of the templates. -/
theorem aligned (hroom : 1 ≤ room) (hp : stage.ledger.point p q shape) :
    Code.Aligned room first second stage.ledger.point p q shape := by
  have hone := h.abreast.labelled.one
  have hother := h.abreast.labelled.other
  cases h.abreast.course.sound hp with
  | step hi hj ha =>
    exact .step (Emitter.Side.instruction h.one hi) (Emitter.Side.instruction h.other hj)
      (h.alike ha) (h.handlersAlike (h.abreast.course.seam hp).1)
  | declare hshape hne hd hst hst' hr =>
    obtain ⟨hl, hl'⟩ := declares_not_label hd
    refine .declare hroom hshape hne (hd.mono h.share (Nat.le_of_eq ?_)) (hone.stands h.one hst hl)
      (hother.stands h.other hst' hl') (h.leads_of_reaches hr)
    rw [h.one.functions, Emitter.whole, (appended stage.one.apart stage.one.draft).functions,
      Array.length_toList]
  | dispatch hn hn' hheight hd hd' hc ho =>
    refine .dispatch hn hn' hheight (Emitter.Side.dispatches h.one hd)
      (Emitter.Side.dispatches h.other hd') ?_ (h.leads_of_target ho)
    rw [List.forall₂_map_left_iff, List.forall₂_map_right_iff]
    exact hc.imp fun _ _ hc => ⟨hc.1, h.leads_of_target hc.2⟩

theorem inside (hp : stage.ledger.point p q shape) :
    (∀ entry ∈ first.units, p < entry) ∧ ∀ entry ∈ second.units, q < entry := by
  have hunit : ∀ {em : Emitter} {template : Template} {marked : List Label}
      {known : Label → Prop} {position : Nat}, em.Side marked known →
      Linked em.whole template → position < em.position →
      ∀ entry ∈ template.units, position < entry := by
    intro em template marked known position hs hl hlt entry he
    rw [← Array.mem_toList_iff, hl.units, Emitter.whole,
      (appended em.apart em.draft).units, hs.units, ← Emitter.whole, List.map_map] at he
    obtain ⟨unit, hu, rfl⟩ := List.mem_map.mp he
    obtain ⟨start, hstart, hle, -⟩ := hs.unit_whole hu
    have hat : placedAt em.whole unit.1 = start := by
      rw [placedAt, hstart]
      rfl
    rw [Function.comp_apply, hat]
    exact Nat.lt_of_lt_of_le hlt hle
  obtain ⟨hseam, hlt⟩ := h.abreast.course.seam hp
  have hlt' := (h.abreast.course.order hseam h.abreast.course.current).mp hlt
  exact ⟨hunit h.abreast.labelled.one h.one hlt, hunit h.abreast.labelled.other h.other hlt'⟩

end Finished

/-! ## The end of code making -/

theorem finish_ok {ctx name paramCount em template} (h : em.whole.link = .ok template) :
    finish ctx name paramCount em =
      .ok { template with name, kind := ctx.kind, paramCount, strict := ctx.strict } := by
  unfold finish
  dsimp only
  split
  · rename_i linked hl
    cases h.symm.trans hl
    rfl
  · rename_i error hl
    cases h.symm.trans hl

/-- Emitters that end abreast are both finished, and their templates are in step. -/
theorem finish_inStep {opts : Choices} {ctx : Context} {fs} {stage : Stage}
    (h : Abreast opts.room ctx.kind fs stage) (hends : stage.here = none)
    (hsettled : ∀ l m height, Fact.label l m (some height) ∉ fs)
    (hentry : Fact.entry ctx.kind.entry ∈ fs)
    (hbegins : ctx.kind.isResumable = true → Fact.begins ∈ fs) (name : String) (paramCount : Nat) :
    ∃ first second, finish (opts.first ctx) name paramCount stage.one = .ok first ∧
      finish (opts.second ctx) name paramCount stage.other = .ok second ∧
      InStep opts.room first second := by
  have hplaced : ∀ {l m shape}, stage.ledger.target l m shape →
      Placed stage.one.draft l ∧ Placed stage.other.draft m := by
    intro l m shape ht
    obtain ⟨p, q, hp, hq, -⟩ | ⟨height, -, hf⟩ := h.labelled.target ht
    · exact ⟨⟨p, hp⟩, ⟨q, hq⟩⟩
    · exact absurd hf (hsettled l m height)
  have hone : AllPlaced stage.one.whole := by
    refine h.labelled.one.allPlaced (fun _ ⟨_, _, ht⟩ => (hplaced ht).1) fun handler hm hc => ?_
    obtain ⟨other, -, hh⟩ := exists_twin h.stored.handlers hm
    obtain ⟨height, hheight⟩ := (takesControl_iff _).mp hc
    exact ⟨_, _, hh.target height hheight⟩
  have hother : AllPlaced stage.other.whole := by
    refine h.labelled.other.allPlaced (fun _ ⟨_, _, ht⟩ => (hplaced ht).2) fun handler hm hc => ?_
    obtain ⟨one, -, hh⟩ := exists_twin h.stored.handlers.flip hm
    obtain ⟨height, hheight⟩ := (takesControl_iff _).mp hc
    exact ⟨_, _, hh.target height (hh.kind ▸ hheight)⟩
  obtain ⟨first, hfirst, hlinked⟩ := hone.link
  obtain ⟨second, hsecond, hlinked'⟩ := hother.link
  refine ⟨_, _, finish_ok hfirst, finish_ok hsecond, ?_⟩
  have hf : Finished opts.room ctx.kind fs stage
      { first with name, kind := ctx.kind, paramCount, strict := ctx.strict }
      { second with name, kind := ctx.kind, paramCount, strict := ctx.strict } :=
    ⟨h, hends, hsettled, ⟨hlinked.1, hlinked.2, hlinked.3, hlinked.4, hlinked.5, hlinked.6, hlinked.7,
      hlinked.8⟩, ⟨hlinked'.1, hlinked'.2, hlinked'.3, hlinked'.4, hlinked'.5, hlinked'.6, hlinked'.7,
      hlinked'.8⟩, rfl⟩
  have hfunctions := h.stored.functions
  have hfirstFunctions : first.functions = stage.one.draft.functions.toList := by
    rw [hlinked.functions, Emitter.whole, (appended stage.one.apart stage.one.draft).functions]
  have hsecondFunctions : second.functions = stage.other.draft.functions.toList := by
    rw [hlinked'.functions, Emitter.whole, (appended stage.other.apart stage.other.draft).functions]
  have hregisters : first.registers = second.registers := by
    rw [hlinked.registers, hlinked'.registers, Emitter.whole, Emitter.whole,
      (appended stage.one.apart stage.one.draft).registers,
      (appended stage.other.apart stage.other.draft).registers, h.stored.registers]
  have hlead := hf.leads_of_reaches (h.holds _ hentry)
  refine .intro stage.ledger.point ⟨⟨rfl, rfl, rfl, rfl, hregisters⟩, ?_, hlead,
    fun hp => hf.aligned opts.declares hp, fun hp => hf.inside hp, fun hk => ?_⟩ ?_
  · change first.functions.length = second.functions.length
    rw [hfirstFunctions, hsecondFunctions, hfunctions.length_eq]
  · obtain ⟨hb, hb'⟩ := h.holds _ (hbegins hk)
    obtain ⟨shape, hp, -⟩ := hlead
    exact ⟨Emitter.Side.instruction hf.one hb, Emitter.Side.instruction hf.other hb',
      hf.handlersAlike (h.course.seam hp).1⟩
  · intro index one other ho hm
    change first.functions[index]? = some one at ho
    change second.functions[index]? = some other at hm
    rw [hfirstFunctions] at ho
    rw [hsecondFunctions] at hm
    obtain ⟨hlt, rfl⟩ := List.getElem?_eq_some_iff.mp ho
    obtain ⟨hlt', rfl⟩ := List.getElem?_eq_some_iff.mp hm
    exact hfunctions.get hlt hlt'

end Ecma.Compile
