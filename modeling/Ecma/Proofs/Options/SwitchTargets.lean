/-
Where a switch goes by its table: to the first clause whose literal is strictly equal to the
value, else to the default clause wherever it stands, else behind the switch.
-/
import Ecma.Proofs.Options.Trees

namespace Ecma.Compile

open Code (SwitchKey Label)
open Syntax (Case Literal)

def literalValue : Literal → Value
  | .boolean v => .boolean v
  | .number v => .number v
  | .string v => .string v
  | .null => .null

/-- Whether a clause has a literal that is strictly equal to a value. -/
def asksFor {σ : Type} (clause : Case σ) (v : Value) : Bool :=
  match clause.test with
  | some (.literal literal) => v.strictEquals (literalValue literal)
  | _ => false

/-- The label at which a switch with the given labels for its clauses and for its end goes on. -/
def switchTarget {σ : Type} (cases : List (Case σ)) (entries : List Label) (finish : Label)
    (v : Value) : Label :=
  match (cases.zip entries).find? fun case => asksFor case.1 v with
  | some case => case.2
  | none => ((cases.zip entries).find? fun case => case.1.test.isNone).elim finish Prod.snd

/-- The label that a switch goes to if no clause asks for the value. -/
def otherwiseOf (clauses : List Clause) (entries : List Label) (finish : Label) : Label :=
  ((clauses.findIdx? fun clause => clause.test.isNone).bind fun index => entries[index]?).getD finish

theorem matches_of_switchKey? {σ : Type} {test key} (h : switchKey? test = some key)
    (consequent : List (Syntax.Stmt σ)) (v : Value) :
    key.matches v = asksFor ⟨some test, consequent⟩ v := by
  unfold switchKey? at h
  split at h
  · obtain ⟨number, hn, rfl⟩ := Option.map_eq_some_iff.mp h
    exact (SwitchKey.strictEquals_toValue (.number hn) v).symm
  · cases h
    exact (SwitchKey.strictEquals_toValue .string v).symm
  · cases h

/-- The first clause that asks for a value has the first key that matches it. -/
theorem find?_keyedCases {σ : Type} (v : Value) : (cases : List (Case σ)) → (entries : List Label) →
    (∀ clause ∈ cases, ∀ test ∈ clause.test, ∃ key, switchKey? test = some key) →
    ((keyedCases (cases.map fun clause => clause.test.bind switchKey?) entries).find?
      fun case => case.1.matches v).map Prod.snd =
    ((cases.zip entries).find? fun case => asksFor case.1 v).map Prod.snd
  | [], _, _ | _ :: _, [], _ => rfl
  | ⟨none, consequent⟩ :: rest, entry :: entries, h =>
    find?_keyedCases v rest entries (List.forall_mem_cons.mp h).2
  | ⟨some test, consequent⟩ :: rest, entry :: entries, h => by
    obtain ⟨hfirst, hrest⟩ := List.forall_mem_cons.mp h
    obtain ⟨key, hkey⟩ := hfirst test rfl
    have ih := find?_keyedCases v rest entries hrest
    have hmatch := matches_of_switchKey? hkey consequent v
    simp only [keyedCases, List.map_cons, List.zip_cons_cons, List.filterMap_cons, Option.bind_some,
      hkey, Option.map_some, List.find?_cons, hmatch]
    cases asksFor ⟨some test, consequent⟩ v with
    | true => rfl
    | false => exact ih

theorem otherwiseOf_clauses (finish : Label) : (cases : List (Case (Option ScopeId))) →
    (entries : List Label) → otherwiseOf (clauses cases) entries finish =
      ((cases.zip entries).find? fun case => case.1.test.isNone).elim finish Prod.snd
  | [], _ => rfl
  | cases, [] => by
    rw [List.zip_nil_right]
    cases h : (clauses cases).findIdx? fun clause => clause.test.isNone <;> simp [otherwiseOf, h]
  | ⟨none, _⟩ :: _, entry :: _ => rfl
  | ⟨some test, _⟩ :: rest, entry :: entries => by
    have ih := otherwiseOf_clauses finish rest entries
    have hsome : (Option.map storedOf (expr? (some test))).isNone = false := rfl
    unfold otherwiseOf at ih ⊢
    rw [clauses, List.findIdx?_cons]
    dsimp only
    rw [hsome, if_neg Bool.false_ne_true, Option.bind_map]
    exact ih

/-- The table of a switch leads every value where it belongs, if the labels have their places. -/
theorem tableDispatch_lands {cases keys} (hk : switchKeys? cases = some keys) {entries}
    (hl : entries.length = cases.length) (finish : Label) (reg : Nat) (ctx : Context) (em : Emitter) :
    ∃ table after, tableDispatch reg keys entries
        (otherwiseOf (clauses cases) entries finish) ctx em = .ok ((), after) ∧
      after.draft.tables = em.draft.tables.push table ∧
      after.draft.instructions = (em.draft.instructions.push ⟨.loadReg, some (.register reg)⟩).push
        ⟨.switchTable, some (.table em.draft.tables.size)⟩ ∧
      ∀ draft, (∀ label ∈ finish :: entries, Placed draft label) →
        ∃ linked, draft.linkTable table = .ok linked ∧ ∀ v, linked.target v =
          placedAt draft (switchTarget cases entries finish v) := by
  obtain ⟨htests, rfl, huniform⟩ := switchKeys?_ok hk
  have hl' : entries.length = (cases.map fun clause => clause.test.bind switchKey?).length := by
    rw [hl, List.length_map]
  refine ⟨_, _, tableDispatch_eq reg hl' _ ctx em, rfl, rfl, fun draft hp => ?_⟩
  rw [otherwiseOf_clauses]
  have hknown : TableKnown (· ∈ finish :: entries)
      ⟨firstKeys (keyedCases (cases.map fun clause => clause.test.bind switchKey?) entries),
        ((cases.zip entries).find? fun case => case.1.test.isNone).elim finish Prod.snd⟩ := by
    refine ⟨fun case hm => ?_, ?_, uniform_firstKeys hl' huniform⟩
    · obtain ⟨pair, hpair, hcase⟩ := List.mem_filterMap.mp (mem_of_mem_firstKeys hm)
      obtain ⟨key, -, rfl⟩ := Option.map_eq_some_iff.mp hcase
      exact List.mem_cons_of_mem _ (List.of_mem_zip hpair).2
    · cases hfind : (cases.zip entries).find? fun case => case.1.test.isNone with
      | none => exact List.mem_cons_self ..
      | some case =>
        exact List.mem_cons_of_mem _ (List.of_mem_zip (List.mem_of_find?_eq_some hfind)).2
  obtain ⟨linked, hlinked, htable⟩ := linkTable_ok hknown hp
  refine ⟨linked, hlinked, fun v => ?_⟩
  rw [htable.target, landing_firstKeys, Code.landing, find?_keyedCases v cases entries htests,
    switchTarget]
  cases (cases.zip entries).find? fun case => asksFor case.1 v <;> rfl

/-! ## Numbers -/

abbrev int32? (x : Float) : Option Int := Number.integerIn? Number.minInt32 Number.maxInt32 x

section

variable {σ : Type} {cases : List (Case σ)}
  (h : ∀ clause ∈ cases, ∀ test ∈ clause.test, ∃ key, switchKey? test = some key)

include h

theorem asksFor_number {clause} (hm : clause ∈ cases) (x : Float) :
    asksFor clause (.number x) = true →
      ∃ key, int32? x = some key ∧ ∀ y, int32? y = some key → asksFor clause (.number y) = true := by
  obtain ⟨test, consequent⟩ := clause
  cases test with
  | none => nofun
  | some test =>
    obtain ⟨key, hkey⟩ := h _ hm test rfl
    have hmatch := matches_of_switchKey? hkey consequent
    simp only [← hmatch]
    cases key with
    | string text => nofun
    | number key =>
      intro hx
      exact ⟨key, beq_iff_eq.mp hx, fun y hy => beq_iff_eq.mpr hy⟩

/-- What a switch does with a number depends on the integer that it is. -/
theorem switchTarget_congr (entries : List Label) (finish : Label) {x y} (hxy : int32? x = int32? y) :
    switchTarget cases entries finish (.number x) = switchTarget cases entries finish (.number y) := by
  have hsame : ∀ case ∈ cases.zip entries,
      asksFor case.1 (.number x) = asksFor case.1 (.number y) := by
    intro case hm
    have hm := (List.of_mem_zip hm).1
    refine Bool.eq_iff_iff.mpr ⟨fun hx => ?_, fun hy => ?_⟩
    · obtain ⟨key, hkey, hall⟩ := asksFor_number h hm x hx
      exact hall y (hxy ▸ hkey)
    · obtain ⟨key, hkey, hall⟩ := asksFor_number h hm y hy
      exact hall x (hxy ▸ hkey)
  have hfind : ((cases.zip entries).find? fun case => asksFor case.1 (.number x)) =
      (cases.zip entries).find? fun case => asksFor case.1 (.number y) := by
    rw [← List.head?_filter, List.filter_congr hsame, List.head?_filter]
  rw [switchTarget, switchTarget, hfind]

/-- A number that is no such integer is asked for by no clause. -/
theorem switchTarget_of_none (entries : List Label) (finish : Label) {x} (hx : int32? x = none)
    : switchTarget cases entries finish (.number x) =
      ((cases.zip entries).find? fun case => case.1.test.isNone).elim finish Prod.snd := by
  have hnone : ((cases.zip entries).find? fun case => asksFor case.1 (.number x)) = none := by
    refine List.find?_eq_none.mpr fun case hm hasks => ?_
    obtain ⟨key, hkey, -⟩ := asksFor_number h (List.of_mem_zip hm).1 x hasks
    rw [hx] at hkey
    cases hkey
  rw [switchTarget, hnone]

end

end Ecma.Compile
