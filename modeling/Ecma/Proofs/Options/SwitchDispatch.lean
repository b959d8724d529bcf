/-
Switches at one pace. One code may go by a table where the other tests one case after the other:
both go to the first case with the key that is asked for.
-/
import Ecma.Proofs.Options.BlockDeclarations

namespace Ecma.Compile

open Code (Instruction Constant SwitchKey Label DraftTable)

variable {opts : Choices} {ctx : Context} {hulls : List Hull} {es es' : List Exit}
  {fs fs' : List Fact} {here here' : Option Shape} {α β : Type}
  {clauses : List Clause} {keyed : List (Option SwitchKey)} {entries : List Label}

/-! ## Labels of clauses -/

/-- Labels that may be aimed at, once they have their place or before. -/
def Targeted (fs : List Fact) (l m : Label) : Prop :=
  Fact.aim l m 0 ∈ fs ∨ Fact.label l m (some 0) ∈ fs

theorem Targeted.holds {l m stage} (h : Targeted fs l m) (hf : ∀ fact ∈ fs, fact.Holds stage)
    : stage.ledger.target l m ⟨0, .any⟩ :=
  h.elim (hf _) (hf _)

theorem Targeted.target {l m} (h : Targeted fs l m) : Pace.Target l m 0 fs fs := by
  obtain h | h := h
  · exact .aim h
  · obtain ⟨before, after, rfl⟩ := List.append_of_mem h
    exact .label before after (.inr rfl)

/-- Something will aim at a label. -/
theorem Pace.expect {l m : Label} {x : Emit α} {y : Emit β} {after : After α β} (height : Nat)
    (h : Pace opts ctx hulls es (.label l m (some height) :: fs) here x y after) :
    Pace opts ctx hulls es (.label l m none :: fs) here x y after := by
  intro cs one other hh hs
  obtain ⟨ledger, ha⟩ := hs.abreast
  exact h cs one other hh
    ⟨⟨_, ha.aim ((Aims.label (.inl rfl) [] fs).append_right _)⟩, hs.one, hs.other⟩

theorem newLabels_paced (xs : List α) : Pace opts ctx hulls [] fs here
    (xs.mapM fun _ => newLabel) (xs.mapM fun _ => newLabel) fun ls ms fs' here' =>
      ∃ pairs : List (Label × Label), ls = pairs.map Prod.fst ∧ ms = pairs.map Prod.snd ∧
        pairs.length = xs.length ∧ fs' = pairs.map (mark true) ++ fs ∧ here' = here := by
  induction xs generalizing fs with
  | nil => exact .pure ⟨[], rfl, rfl, rfl, rfl, rfl⟩
  | cons x rest ih =>
    rw [List.mapM_cons]
    refine .withLabel fun l m => .expect 0 (.lead ih ?_)
    rintro _ _ _ _ ⟨pairs, rfl, rfl, hl, rfl, rfl⟩
    refine .retain (.of_perm List.perm_middle.symm) (.pure ⟨(l, m) :: pairs, rfl, rfl, ?_, rfl, rfl⟩)
    rw [List.length_cons, List.length_cons, hl]

theorem targeted_mark {pairs : List (Label × Label)} {pair} (h : pair ∈ pairs) :
    Targeted (pairs.map (mark true) ++ fs) pair.1 pair.2 :=
  .inr (List.mem_append_left _ (List.mem_map.mpr ⟨pair, h, rfl⟩))

/-- The exits of a switch without a default clause: it goes to its end. -/
def defaultExits (default : Option Nat) (hulls : List Hull) : List Exit :=
  if default.isNone then [.breakTo hulls.length] else []

/-- Where a switch goes if no case matches. -/
theorem otherwise_paced {default : Option Nat} {pairs : List (Label × Label)}
    (hd : ∀ index ∈ default, index < pairs.length) {labels plain continues} :
    Pace opts ctx (.jumps labels plain continues :: hulls) (defaultExits default hulls)
      (pairs.map (mark true) ++ fs) here
      (match default.bind fun index => (pairs.map Prod.fst)[index]? with
        | some entry => pure entry
        | none => useBreak)
      (match default.bind fun index => (pairs.map Prod.snd)[index]? with
        | some entry => pure entry
        | none => useBreak)
      fun l m fs' here' => fs' = .aim l m 0 :: (pairs.map (mark true) ++ fs) ∧
        here' = here := by
  cases default with
  | none => exact useBreak_paced
  | some index =>
    have hlt := hd index rfl
    simp only [Option.bind_some, List.getElem?_map, List.getElem?_eq_getElem hlt, Option.map_some]
    intro cs one other hh hs
    obtain ⟨ledger, ha⟩ := hs.abreast
    have ht := (@targeted_mark fs _ _ (List.getElem_mem hlt)).holds fun fact hf =>
      ha.holds fact (List.mem_append_left _ hf)
    exact .ok ⟨_, here, cs, ⟨rfl, rfl⟩, .refl cs, ⟨⟨ledger, ha.note rfl ht⟩, hs.one, hs.other⟩⟩

/-! ## Statements of clauses -/

theorem clauseBodies_paced : {clauses : List Clause} →
    (∀ clause ∈ clauses, PacedStmt opts clause.body) → (ctx : Context) → (hulls : List Hull) →
    ∃ c es, ∀ (pairs : List (Label × Label)) fs here, pairs.length = clauses.length →
      Eases here (up 0) → Pace opts ctx hulls es (pairs.map (mark true) ++ fs) here
        (clauseBodies (clauses.zip (pairs.map Prod.fst)))
        (clauseBodies (clauses.zip (pairs.map Prod.snd)))
        (Gives (· = c) fs c.reach)
  | [], _, _, _ => by
    refine ⟨.normal, [], fun pairs fs here hl he => ?_⟩
    obtain rfl := List.eq_nil_of_length_eq_zero hl
    exact .ease he (.pure ⟨rfl, rfl, rfl, rfl⟩)
  | [clause], h, ctx, hulls => by
    obtain ⟨c, es, hb⟩ := h clause (.head _) ctx hulls
    refine ⟨c, es, fun pairs fs here hl he => ?_⟩
    obtain ⟨⟨l, m⟩, rfl⟩ := List.length_eq_one_iff.mp hl
    exact .step (.land [] fs he) fun _ _ => hb fs
  | clause :: next :: rest, h, ctx, hulls => by
    obtain ⟨c, es, hb⟩ := h clause (.head _) ctx hulls
    obtain ⟨last, es', hr⟩ := @clauseBodies_paced (next :: rest)
      (fun clause hm => h clause (.tail _ hm)) ctx hulls
    refine ⟨last, es ++ es', fun pairs fs here hl he => ?_⟩
    obtain ⟨⟨l, m⟩, pairs, rfl⟩ := List.exists_cons_of_length_eq_add_one hl
    obtain ⟨⟨l', m'⟩, pairs, rfl⟩ := List.exists_cons_of_length_eq_add_one (Nat.succ.inj hl)
    refine .step (.land [] _ he) fun _ _ => .complete (hb _) ?_
    exact hr _ fs _ (Nat.succ.inj hl) c.reach_eases

/-! ## Tests -/

theorem testDispatch_paced
    (h : ∀ clause ∈ clauses, ∀ test ∈ clause.test, PacedValue opts test) (ctx : Context)
    (hulls : List Hull) : ∃ es, ∀ reg (pairs : List (Label × Label)) l m fs,
      pairs.length = clauses.length → (∀ pair ∈ pairs, Targeted fs pair.1 pair.2) →
      Targeted fs l m → Pace opts ctx hulls es fs (up 0)
        (testDispatch reg (clauses.zip (pairs.map Prod.fst)) l)
        (testDispatch reg (clauses.zip (pairs.map Prod.snd)) m) (Then fs none) := by
  have hexits : ∀ clause, ∃ es, clause ∈ clauses → ∀ test ∈ clause.test, ∀ fs height,
      Pace opts ctx hulls es fs (up height) test test
        (Gives (fun _ => True) fs (up (height + 1))) := by
    intro clause
    by_cases hm : clause ∈ clauses
    · cases ht : clause.test with
      | none => exact ⟨[], nofun⟩
      | some test =>
        obtain ⟨es, hx⟩ := h clause hm test ht ctx hulls
        refine ⟨es, fun _ found hfound => ?_⟩
        cases hfound
        exact hx
    · exact ⟨[], fun h => absurd h hm⟩
  obtain ⟨exitsOf, hexits⟩ := Classical.skolem.mp hexits
  let exitsOf := fun clause : Clause => if clause.test.isSome then exitsOf clause ++ [] else []
  refine ⟨clauses.flatMap exitsOf ++ [], fun reg pairs l m fs hl hp ht => ?_⟩
  have hzip : clauses.flatMap exitsOf = (clauses.zip pairs).flatMap fun z => exitsOf z.1 := by
    conv_lhs => rw [← List.map_fst_zip (Nat.le_of_eq hl.symm), List.flatMap_map]
  rw [hzip, List.zip_map_right, List.zip_map_right]
  refine .andThen (Pace.rounds (fun z => exitsOf z.1) (fun _ => fs) (fun _ => up 0)
    (clauses.zip pairs) ?_) fun _ _ => .jump ht.target
  rintro ⟨⟨test, body⟩, pair⟩ rest hsuffix
  have hmem := List.of_mem_zip (hsuffix.subset (.head _))
  cases test with
  | none => exact .pure ⟨rfl, rfl, rfl, rfl⟩
  | some test =>
    refine .step (.opRegister rfl rfl) fun _ _ => ?_
    refine .with_ (hexits _ hmem.1 test rfl fs 1) fun _ _ => ?_
    refine .step (.op rfl (rfl : _ = 1)) fun _ _ => ?_
    exact .step (.branch rfl (hp pair hmem.2).target) fun _ _ => .pure ⟨rfl, rfl, rfl, rfl⟩

/-! ## Keys -/

/-- The cases of a switch with the given keys, one for each clause with a test. -/
def keyedCases (keyed : List (Option SwitchKey)) (entries : List Label) :
    List (SwitchKey × Label) :=
  (keyed.zip entries).filterMap fun case => case.1.map fun key => (key, case.2)

/-- The keys of a switch with the indices of their clauses. -/
def keyIndices (keyed : List (Option SwitchKey)) : List (SwitchKey × Nat) :=
  keyed.zipIdx.filterMap fun case => case.1.map fun key => (key, case.2)

theorem keyedCases_eq (keyed : List (Option SwitchKey))
    (hl : entries.length = keyed.length) (otherwise : Label) :
    (keyIndices keyed).map (fun key => (key.1, entries.getD key.2 otherwise)) =
      keyedCases keyed entries := by
  have hentries : entries = (List.range' 0 keyed.length).map fun index =>
      entries.getD index otherwise := by
    apply List.ext_getElem
    · simp [hl]
    · intro index hi hi'
      simp [List.getD_eq_getElem?_getD, hi]
  conv_rhs => rw [hentries]
  simp only [keyedCases, keyIndices, List.zipIdx_eq_zip_range', List.zip_map_right,
    List.filterMap_map, List.map_filterMap]
  congr 1
  funext ⟨key, index⟩
  cases key <;> rfl

def PushesConstant (constant : Constant) (x : Emit ValueType) : Prop :=
  ∃ f type, Enters constant f ∧ ∀ ctx (em : Emitter), x ctx em =
    .ok (type, Emitter.emit { em with draft := (f em.draft).2 }
      ⟨.const, some (.constant (f em.draft).1)⟩)

/-- The test of a clause is the literal of its key. -/
inductive Clause.Spelt : Clause → Option SwitchKey → Prop
  | default {body} : Spelt ⟨none, body⟩ none
  | case {test body key constant} : key.Spells constant → PushesConstant constant test →
    Spelt ⟨some test, body⟩ (some key)

/-! ## Dispatch by a table or by tests -/

/-- An emitter after the dispatch of a switch. -/
structure Dispatched (em after : Emitter) (reg : Nat) (cases : List (SwitchKey × Label))
    (otherwise : Label) (need : Nat) : Prop where
  extended : em.Extends after
  dispatches : after.Dispatches reg em.position cases otherwise need
  further : em.position < after.position
  labels : after.draft.labels = em.draft.labels
  side : ∀ {marked known}, em.Side marked known → (∀ case ∈ cases, known case.2) →
    known otherwise → after.Side marked known
  stores : em.Stores after
  resume : after.draft.resume = em.draft.resume
  control : after.control = em.control

def DispatchCode (x : Emit Unit) (reg : Nat) (cases : List (SwitchKey × Label))
    (otherwise : Label) (need : Nat) : Prop :=
  ∀ ctx em, ∃ after, x ctx em = .ok ((), after) ∧
    Dispatched em after reg cases otherwise need

theorem exists_twin {α β : Type} {r : α → β → Prop} {xs : List α} {ys : List β}
    (h : List.Forall₂ r xs ys) {x : α} (hx : x ∈ xs) : ∃ y ∈ ys, r x y := by
  induction h with
  | nil => cases hx
  | @cons first twin _ _ hr _ ih =>
    obtain rfl | hx := List.mem_cons.mp hx
    · exact ⟨twin, List.mem_cons_self .., hr⟩
    · obtain ⟨y, hy, hr⟩ := ih hx
      exact ⟨y, List.mem_cons_of_mem _ hy, hr⟩

theorem dispatch_paced {x y : Emit Unit} {reg need need' : Nat}
    {cases cases' : List (SwitchKey × Label)} {l m : Label}
    (hx : DispatchCode x reg cases l need) (hy : DispatchCode y reg cases' m need')
    (hn : need ≤ opts.room) (hn' : need' ≤ opts.room)
    (hc : List.Forall₂ (fun case case' => case.1 = case'.1 ∧ Targeted fs case.2 case'.2) cases
      cases') (ht : Targeted fs l m) :
    Pace opts ctx hulls [] fs (up 0) x y (Then fs none) := by
  intro cs one other hh hs
  obtain ⟨ledger, ha⟩ := hs.abreast
  obtain ⟨one', hone, hd⟩ := hx (opts.first ctx) one
  obtain ⟨other', hother, hd'⟩ := hy (opts.second ctx) other
  rw [hone, hother]
  have hfacts : ∀ fact ∈ fs, fact.Holds ⟨ledger, up 0, one, other⟩ := fun fact hf =>
    ha.holds fact (List.mem_append_left _ hf)
  have hab := @Abreast.step _ _ _ _ _ none _ _ _ _ _ _ ha hd.extended hd'.extended hd.further hd'.further (.nothing _)
    (.dispatch hn hn' rfl hd.dispatches hd'.dispatches
      (hc.imp fun _ _ hc => ⟨hc.1, .inl (hc.2.holds hfacts)⟩) (.inl (ht.holds hfacts)))
    (fun hp => hd.labels ▸ hp) (fun hp => hd'.labels ▸ hp) ?_ ?_
    (ha.stored.stores ⟨.inl, .inl, .inl⟩ hd.stores hd'.stores ?_)
  · refine .ok ⟨fs, none, cs, ⟨rfl, rfl⟩, .refl cs, ⟨⟨_, hab⟩, ?_, ?_⟩⟩
    · rw [hd.control, hs.one]
    · rw [hd'.control, hs.other]
  · refine hd.side (ha.labelled.one.mono (.refl _) fun _ => Ledger.knowsOne_step)
      (fun case hm => ?_) ⟨m, _, .inl (ht.holds hfacts)⟩
    obtain ⟨case', -, hc⟩ := exists_twin hc hm
    exact ⟨case'.2, _, .inl (hc.2.holds hfacts)⟩
  · refine hd'.side (ha.labelled.other.mono (.refl _) fun _ => Ledger.knowsOther_step)
      (fun case hm => ?_) ⟨l, _, .inl (ht.holds hfacts)⟩
    obtain ⟨case', -, hc⟩ := exists_twin hc.flip hm
    exact ⟨case'.2, _, .inl (hc.2.holds hfacts)⟩
  · rw [hd.resume, hd'.resume]
    exact ha.stored.resume

/-! ### Tables -/

theorem mem_of_mem_firstKeys {cases case} (h : case ∈ firstKeys cases) : case ∈ cases := by
  let drops := fun (kept : List (SwitchKey × Label)) (case : SwitchKey × Label) =>
    kept.any (·.1 == case.1)
  exact (mem_of_mem_kept drops h).resolve_left List.not_mem_nil

theorem getElem?_emit (em : Emitter) (instr : Instruction) :
    (em.emit instr).draft.instructions[em.position]? = some instr := by
  simp [Emitter.emit, Code.Draft.emit, Emitter.position, Code.Draft.position]

/-- An emitter after the dispatch of a switch over a table. -/
def Emitter.tabled (em : Emitter) (reg : Nat) (table : DraftTable) : Emitter :=
  let added : Emitter := { em with draft := (em.draft.addTable table).2 }
  (added.emit ⟨.loadReg, some (.register reg)⟩).emit
    ⟨.switchTable, some (.table em.draft.tables.size)⟩

theorem tableDispatch_eq (reg : Nat)
    (hl : entries.length = keyed.length) (otherwise : Label) (ctx : Context) (em : Emitter) :
    tableDispatch reg (keyIndices keyed) entries otherwise ctx em =
      .ok ((), em.tabled reg ⟨firstKeys (keyedCases keyed entries), otherwise⟩) := by
  have hfold : (keyIndices keyed).foldl (fun (cases : List (SwitchKey × Label)) key =>
      if cases.any (·.1 == key.1) then cases
      else cases ++ [(key.1, entries.getD key.2 otherwise)]) [] =
        firstKeys (keyedCases keyed entries) := by
    rw [← keyedCases_eq keyed hl otherwise, firstKeys, List.foldl_map]
  rw [← hfold]
  rfl

/-- The cases of a table with the keys of clauses are of one kind. -/
theorem uniform_firstKeys (hl : entries.length = keyed.length)
    (hu : ∀ key ∈ keyIndices keyed, ∀ key' ∈ keyIndices keyed,
      SwitchKey.sameKind key.1 key'.1 = true) :
    ∀ case ∈ firstKeys (keyedCases keyed entries), ∀ case' ∈ firstKeys (keyedCases keyed entries),
      SwitchKey.sameKind case.1 case'.1 = true := by
  have hkey : ∀ case ∈ firstKeys (keyedCases keyed entries),
      ∃ key ∈ keyIndices keyed, key.1 = case.1 := by
    intro case h
    have h := mem_of_mem_firstKeys h
    rw [← keyedCases_eq keyed hl 0] at h
    obtain ⟨key, hm, rfl⟩ := List.mem_map.mp h
    exact ⟨key, hm, rfl⟩
  intro case hm case' hm'
  obtain ⟨key, hk, he⟩ := hkey case hm
  obtain ⟨key', hk', he'⟩ := hkey case' hm'
  rw [← he, ← he']
  exact hu key hk key' hk'

theorem tableDispatch_code (reg : Nat) (hl : entries.length = keyed.length) (otherwise : Label)
    (hu : ∀ key ∈ keyIndices keyed, ∀ key' ∈ keyIndices keyed,
      SwitchKey.sameKind key.1 key'.1 = true) :
    DispatchCode (tableDispatch reg (keyIndices keyed) entries otherwise) reg
      (keyedCases keyed entries) otherwise 1 := by
  intro ctx em
  let table : DraftTable := ⟨firstKeys (keyedCases keyed entries), otherwise⟩
  let added : Emitter := { em with draft := (em.draft.addTable table).2 }
  refine ⟨em.tabled reg table, tableDispatch_eq reg hl otherwise ctx em, ?_⟩
  refine ⟨⟨?_, List.prefix_rfl, Nat.le_refl _, List.prefix_rfl, ?_, List.prefix_rfl⟩,
    @Emitter.Dispatches.table _ _ _ _ _ em.draft.tables.size ?_ ?_ ?_, ?_, rfl,
    fun hs hc ho => hs.grow (fun _ => id) ⟨rfl, rfl, rfl, fun _ => .inl, fun i hi => ?_,
      fun t ht => ?_⟩, ⟨rfl, rfl, rfl, rfl⟩, rfl, rfl⟩
  · simp [Emitter.tabled, Emitter.emit, Code.Draft.emit, Code.Draft.addTable]
  · simp [Emitter.tabled, Emitter.emit, Code.Draft.emit, Code.Draft.addTable]
  · exact getElem?_of_leading (Emitter.Extends.emit _ _).instructions (getElem?_emit added _)
  · have h := getElem?_emit (added.emit ⟨.loadReg, some (.register reg)⟩)
      ⟨.switchTable, some (.table em.draft.tables.size)⟩
    rw [Emitter.position_emit] at h
    exact h
  · simp [Emitter.tabled, Emitter.emit, Code.Draft.emit, Code.Draft.addTable, table]
  · rw [Emitter.tabled, Emitter.position_emit, Emitter.position_emit]
    exact Nat.lt_add_of_pos_right (Nat.succ_pos 1)
  · have hi : i ∈ em.draft.instructions.toList ∨ i = ⟨.loadReg, some (.register reg)⟩ ∨
        i = ⟨.switchTable, some (.table em.draft.tables.size)⟩ := by
      simpa [Emitter.tabled, Emitter.emit, Code.Draft.emit, Code.Draft.addTable] using hi
    obtain hi | rfl | rfl := hi
    · exact .inl hi
    · exact .inr fun label he => by cases he
    · exact .inr fun label he => by cases he
  · have ht : t ∈ em.draft.tables.toList ∨ t = table := by
      simpa [Emitter.tabled, Emitter.emit, Code.Draft.emit, Code.Draft.addTable] using ht
    obtain ht | rfl := ht
    · exact .inl ht
    · exact .inr ⟨fun case hm => hc case (mem_of_mem_firstKeys hm), ho, uniform_firstKeys hl hu⟩

/-! ### Tests -/

/-- One of the tests of a switch. -/
def testCase (reg : Nat) (case : Clause × Label) : Emit (ForInStep PUnit) := do
  match case.1.test with
  | none => pure ()
  | some test =>
    opRegister .loadReg reg
    let _ ← test
    op (.relation .strictEqual)
    jump .jumpIfTrue case.2
  return .yield PUnit.unit

theorem testCase_code (reg : Nat) {test} (body : Emit Completion) {constant}
    (ht : PushesConstant constant test) (entry : Label) (ctx : Context) (em : Emitter)
    : ∃ after index, testCase reg (⟨some test, body⟩, entry) ctx em =
        .ok (.yield PUnit.unit, after) ∧
      Wrote em after [⟨.loadReg, some (.register reg)⟩, ⟨.const, some (.constant index)⟩,
        ⟨.relation .strictEqual, none⟩, ⟨.jumpIfTrue, some (.label entry)⟩] ∧
      after.draft.constants[index]? = some constant ∧
      after.draft.functions = em.draft.functions := by
  obtain ⟨f, type, hf, ht⟩ := ht
  let first := em.emit ⟨.loadReg, some (.register reg)⟩
  let second : Emitter := { first with draft := (f first.draft).2 }
  let third := second.emit ⟨.const, some (.constant (f first.draft).1)⟩
  let fourth := third.emit ⟨.relation .strictEqual, none⟩
  refine ⟨fourth.emit ⟨.jumpIfTrue, some (.label entry)⟩, (f first.draft).1, ?_, ?_,
    hf.found first.draft, (hf.stores first).functions⟩
  · change (test ctx first >>= fun p => Except.ok (ForInStep.yield PUnit.unit,
      (p.2.emit ⟨.relation .strictEqual, none⟩).emit ⟨.jumpIfTrue, some (.label entry)⟩)) = _
    rw [ht]
    rfl
  · exact (((Wrote.emit em _).trans ((Wrote.entering hf first).trans (.emit second _))).trans
      (.emit third _)).trans (.emit fourth _)

/-- The tests of clauses, one after the other. -/
theorem testCases_code (reg : Nat) (otherwise : Label)
    (hk : List.Forall₂ Clause.Spelt clauses keyed)
    (ctx : Context) : ∀ (entries : List Label) (em : Emitter),
    entries.length = keyed.length → ∃ after written,
      forIn (m := Emit) (clauses.zip entries) PUnit.unit (fun case _ => testCase reg case)
        ctx em = .ok (PUnit.unit, after) ∧
      Wrote em after written ∧ after.draft.functions = em.draft.functions ∧
      (∀ instr ∈ written, ∀ label, instr.operand = some (.label label) →
        ∃ case ∈ keyedCases keyed entries, case.2 = label) ∧
      ∀ {final : Emitter} {rest}, after.Extends final →
        final.Tests reg otherwise after.position rest →
        final.Tests reg otherwise em.position (keyedCases keyed entries ++ rest) := by
  induction hk with
  | nil =>
    intro entries em hl
    exact ⟨em, [], rfl, .refl em, rfl, nofun, fun _ h => h⟩
  | @cons clause key clauses keyed hs _ ih =>
    intro entries em hl
    obtain ⟨entry, entries, rfl⟩ := List.exists_cons_of_length_eq_add_one hl
    rw [List.zip_cons_cons, List.forIn_cons]
    cases hs with
    | default =>
      obtain ⟨after, written, hrun, hrest⟩ := ih entries em (Nat.succ.inj hl)
      exact ⟨after, written, hrun, hrest⟩
    | @case test body key constant hspell ht =>
      obtain ⟨mid, index, hmid, hwrote, hconstant, hfunctions⟩ :=
        testCase_code reg body ht entry ctx em
      obtain ⟨after, written, hrun, hwrote', hfunctions', hknown, htests⟩ :=
        ih entries mid (Nat.succ.inj hl)
      refine ⟨after, _, ?_, hwrote.trans hwrote', hfunctions'.trans hfunctions, ?_, ?_⟩
      · refine bind_ok.mpr ⟨_, mid, hmid, hrun⟩
      · intro instr hm label he
        rw [List.mem_append] at hm
        obtain hm | hm := hm
        · refine ⟨(key, entry), List.mem_cons_self .., ?_⟩
          simp only [List.mem_cons, List.not_mem_nil, or_false] at hm
          obtain rfl | rfl | rfl | rfl := hm <;> cases he
          rfl
        · obtain ⟨case, hc, he⟩ := hknown instr hm label he
          exact ⟨case, List.mem_cons_of_mem _ hc, he⟩
      · intro final rest hfinal hlast
        have hextended := hwrote'.extended.trans hfinal
        have lead := fun index {instr} (h : _ = some instr) =>
          getElem?_of_leading hextended.instructions ((hwrote.getElem? index).trans h)
        have hposition : mid.position = em.position + 4 := hwrote.position
        exact .case (lead 0 rfl) (lead 1 rfl) (getElem?_of_leading hextended.constants hconstant)
          hspell (lead 2 rfl) (lead 3 rfl) (hposition ▸ htests hfinal hlast)

theorem testDispatch_code (reg : Nat) (hk : List.Forall₂ Clause.Spelt clauses keyed)
    (hl : entries.length = keyed.length) (otherwise : Label) :
    DispatchCode (testDispatch reg (clauses.zip entries) otherwise) reg
      (keyedCases keyed entries) otherwise 2 := by
  intro ctx em
  obtain ⟨mid, written, hrun, hwrote, hfunctions, hknown, htests⟩ :=
    testCases_code reg otherwise hk ctx entries em hl
  have hjump := Wrote.emit mid ⟨.jump, some (.label otherwise)⟩
  have hall := hwrote.trans hjump
  have htests := htests hjump.extended (.done (getElem?_emit mid _))
  rw [List.append_nil] at htests
  refine ⟨mid.emit ⟨.jump, some (.label otherwise)⟩, bind_ok.mpr ⟨PUnit.unit, mid, hrun, rfl⟩,
    hall.extended, .tests htests, ?_, hall.labels,
    fun hs hc ho => hall.side hs fun i hi l he => ?_,
    ⟨hall.handlers, hfunctions, hall.registers, hall.returnRegister⟩, hall.resume, hall.control⟩
  · rw [hall.position, List.length_append, List.length_singleton]
    omega
  · obtain hi | hi := List.mem_append.mp hi
    · obtain ⟨case, hm, rfl⟩ := hknown i hi l he
      exact hc case hm
    · obtain rfl := List.mem_singleton.mp hi
      cases he
      exact ho

/-! ### Either of them -/

/-- The dispatch of a switch, by a table if there are keys. -/
def dispatchBy (reg : Nat) (keys : Option (List (SwitchKey × Nat))) (clauses : List Clause)
    (entries : List Label) (otherwise : Label) : Emit Unit :=
  match keys with
  | some keys => tableDispatch reg keys entries otherwise
  | none => testDispatch reg (clauses.zip entries) otherwise

/-- Keys that are those of clauses, all of one kind. -/
structure KeysOf (clauses : List Clause) (keys : List (SwitchKey × Nat)) : Prop where
  spelt : ∃ keyed, List.Forall₂ Clause.Spelt clauses keyed ∧ keys = keyIndices keyed
  uniform : ∀ key ∈ keys, ∀ key' ∈ keys, SwitchKey.sameKind key.1 key'.1 = true

theorem keyedCases_twins {pairs : List (Label × Label)}
    (hp : ∀ pair ∈ pairs, Targeted fs pair.1 pair.2) :
    List.Forall₂ (fun case case' => case.1 = case'.1 ∧ Targeted fs case.2 case'.2)
      (keyedCases keyed (pairs.map Prod.fst)) (keyedCases keyed (pairs.map Prod.snd)) := by
  induction keyed generalizing pairs with
  | nil => exact .nil
  | cons key keyed ih =>
    cases pairs with
    | nil => exact .nil
    | cons pair pairs =>
      have ih := ih fun pair hm => hp pair (.tail _ hm)
      cases key with
      | none => exact ih
      | some key => exact .cons ⟨rfl, hp pair (.head _)⟩ ih

theorem dispatchBy_paced {keys : Option (List (SwitchKey × Nat))}
    (ht : ∀ clause ∈ clauses, ∀ test ∈ clause.test, PacedValue opts test)
    (hk : ∀ found ∈ keys, KeysOf clauses found) {enough enough'}
    (he : enough = enough' ∨ 2 ≤ opts.room) (ctx : Context) (hulls : List Hull) :
    ∃ es, ∀ reg (pairs : List (Label × Label)) l m fs, pairs.length = clauses.length →
      (∀ pair ∈ pairs, Targeted fs pair.1 pair.2) → Targeted fs l m →
      Pace opts ctx hulls es fs (up 0)
        (dispatchBy reg (keys.filter enough) clauses (pairs.map Prod.fst) l)
        (dispatchBy reg (keys.filter enough') clauses (pairs.map Prod.snd) m)
        (Then fs none) := by
  cases keys with
  | none => exact testDispatch_paced ht ctx hulls
  | some keys =>
    obtain ⟨⟨keyed, hs, rfl⟩, hu⟩ := hk keys rfl
    have hlength := hs.length_eq
    have table := fun reg (entries : List Label) otherwise (hl : entries.length = clauses.length) =>
        tableDispatch_code reg (hl.trans hlength) otherwise hu
    have tests := fun reg (entries : List Label) otherwise (hl : entries.length = clauses.length) =>
        testDispatch_code reg hs (hl.trans hlength) otherwise
    have mixed : enough (keyIndices keyed) ≠ enough' (keyIndices keyed) → 2 ≤ opts.room :=
      fun h => he.resolve_left fun he => h (congrFun he _)
    cases h : enough (keyIndices keyed) <;> cases h' : enough' (keyIndices keyed) <;>
      simp only [Option.filter_some, h, h', if_true, Bool.false_eq_true, if_false]
    · exact testDispatch_paced ht ctx hulls
    · refine ⟨[], fun reg pairs l m fs hl hp ht => ?_⟩
      exact dispatch_paced (tests reg _ l (by simpa using hl)) (table reg _ m (by simpa using hl))
        (mixed (by simp [h, h'])) opts.declares (keyedCases_twins hp) ht
    · refine ⟨[], fun reg pairs l m fs hl hp ht => ?_⟩
      exact dispatch_paced (table reg _ l (by simpa using hl)) (tests reg _ m (by simpa using hl))
        opts.declares (mixed (by simp [h, h'])) (keyedCases_twins hp) ht
    · refine ⟨[], fun reg pairs l m fs hl hp ht => ?_⟩
      exact dispatch_paced (table reg _ l (by simpa using hl)) (table reg _ m (by simpa using hl))
        opts.declares opts.declares (keyedCases_twins hp) ht

/-! ## Switches -/

/-- The dispatch and the clauses of a switch, inside the construct that breaks leave. -/
def switchInside (reg : Nat) (keys : Option (List (SwitchKey × Nat)))
    (clauses : List Clause) : Emit Completion := do
  let entries ← clauses.mapM fun _ => newLabel
  let otherwise ← (match (clauses.findIdx? fun clause => clause.test.isNone).bind
      fun index => entries[index]? with
    | some entry => pure entry
    | none => useBreak : Emit Label)
  dispatchBy reg keys clauses entries otherwise
  clauseBodies (clauses.zip entries)

theorem switchBody_eq (reg : Nat) (keys : Option (List (SwitchKey × Nat)))
    (clauses : List Clause) : switchBody reg keys clauses = do
      let (c, jumps) ← inBreakable [] true (switchInside reg keys clauses)
      place jumps.breakLabel
      return c.orReachable
        (jumps.breakUsed || (clauses.findIdx? fun clause => clause.test.isNone).isNone) := by
  unfold switchBody switchInside dispatchBy
  refine congrArg (fun inside : Emit Completion => (do
    let (c, jumps) ← inBreakable [] true inside
    place jumps.breakLabel
    return c.orReachable
      (jumps.breakUsed || (clauses.findIdx? fun clause => clause.test.isNone).isNone) :
        Emit Completion)) ?_
  refine congrArg (fun rest : List Label → Emit Completion =>
    ((clauses.mapM fun _ => newLabel) >>= rest : Emit Completion)) (funext fun entries => ?_)
  cases (clauses.findIdx? fun clause => clause.test.isNone).bind fun index => entries[index]? <;>
    cases keys <;> rfl

theorem switchInside_paced {keys : Option (List (SwitchKey × Nat))}
    (ht : ∀ clause ∈ clauses, ∀ test ∈ clause.test, PacedValue opts test)
    (hb : ∀ clause ∈ clauses, PacedStmt opts clause.body)
    (hk : ∀ found ∈ keys, KeysOf clauses found) {enough enough'}
    (he : enough = enough' ∨ 2 ≤ opts.room) (ctx : Context) (hulls : List Hull) :
    ∃ c es, ∀ reg fs, Pace opts ctx (.jumps [] true false :: hulls)
        (defaultExits (clauses.findIdx? fun clause => clause.test.isNone) hulls ++ es) fs (up 0)
        (switchInside reg (keys.filter enough) clauses)
        (switchInside reg (keys.filter enough') clauses)
        (Gives (· = c) fs c.reach) := by
  obtain ⟨es, hd⟩ := dispatchBy_paced ht hk he ctx (.jumps [] true false :: hulls)
  obtain ⟨c, es', hb⟩ := clauseBodies_paced hb ctx (.jumps [] true false :: hulls)
  refine ⟨c, es ++ es', fun reg fs => ?_⟩
  refine .lead (newLabels_paced clauses) ?_
  rintro _ _ _ _ ⟨pairs, rfl, rfl, hl, rfl, rfl⟩
  refine .bind (otherwise_paced fun index h => ?_) ?_
  · rw [hl]
    exact (List.findIdx?_eq_some_iff_getElem.mp h).1
  · rintro l m _ _ ⟨rfl, rfl⟩
    refine .andThen (hd reg pairs l m _ hl (fun pair hm => ?_) (.inl (.head _)))
      fun _ _ => ?_
    · exact (targeted_mark hm).imp (List.mem_cons_of_mem _) (List.mem_cons_of_mem _)
    · exact .retain (.drop (fun _ _ _ => Fact.noConfusion) _) (hb pairs fs none hl (.none _))

theorem switchBody_paced {keys : Option (List (SwitchKey × Nat))}
    (ht : ∀ clause ∈ clauses, ∀ test ∈ clause.test, PacedValue opts test)
    (hb : ∀ clause ∈ clauses, PacedStmt opts clause.body)
    (hk : ∀ found ∈ keys, KeysOf clauses found) {enough enough'}
    (he : enough = enough' ∨ 2 ≤ opts.room) (ctx : Context) (hulls : List Hull) :
    ∃ c es, ∀ reg fs, Pace opts ctx hulls es fs (up 0)
      (switchBody reg (keys.filter enough) clauses) (switchBody reg (keys.filter enough') clauses)
      (Gives (· = c) fs c.reach) := by
  let default := clauses.findIdx? fun clause => clause.test.isNone
  obtain ⟨c, es, hi⟩ := switchInside_paced ht hb hk he ctx hulls
  let taken := Hull.taken (.jumps [] true false) hulls (defaultExits default hulls ++ es)
  -- A switch without a default clause goes to its end, which is then used.
  have hused : (breaksOff false taken || default.isNone) = breaksOff false taken := by
    cases hd : default with
    | some index => exact Bool.or_false _
    | none =>
      have htaken : breaksOff false taken = true := by
        simp [taken, hd, defaultExits, Hull.taken, Hull.takes, Exit.isAt, breaksOff]
      rw [htaken]
      rfl
  refine ⟨c.orReachable (breaksOff false taken),
    Hull.passed (.jumps [] true false) hulls (defaultExits default hulls ++ es) ++ [],
    fun reg fs => ?_⟩
  rw [switchBody_eq, switchBody_eq]
  refine .bind (.inBreakable (hi reg fs)) ?_
  rintro ⟨_, _⟩ ⟨_, _⟩ _ _ ⟨l, m, fs'', ⟨rfl, rfl, rfl, rfl⟩, rfl, rfl, rfl⟩
  refine .step (placeEnd_paced _ (.inl rfl) _) fun _ _ => .pure ⟨rfl, ?_, rfl, rfl⟩
  exact congrArg (Completion.orReachable _) hused

theorem switchForm_paced {opened} (hr : ∀ scope ∈ opened, opts.hasRecord scope) {discriminant}
    (hd : PacedValue opts discriminant) {keys : Option (List (SwitchKey × Nat))} {fns}
    (hf : ∀ fn ∈ fns, PacedTemplate opts fn.2)
    (ht : ∀ clause ∈ clauses, ∀ test ∈ clause.test, PacedValue opts test)
    (hb : ∀ clause ∈ clauses, PacedStmt opts clause.body)
    (hk : ∀ found ∈ keys, KeysOf clauses found) :
    PacedStmt opts (switchForm opened discriminant keys fns clauses) := by
  intro ctx hulls
  obtain ⟨es, hd⟩ := hd ctx hulls
  cases opened with
  | none =>
    refine ⟨.normal, es ++ [], fun fs => .with_ (hd fs 0) fun _ _ => ?_⟩
    exact .take .newRegister fun _ _ => .step (.opRegister rfl (rfl : _ = 0)) fun _ _ => .throw rfl
  | some scope =>
    let enough := fun (options : Options) (keys : List (SwitchKey × Nat)) =>
      decide (max options.switchMinCases 1 ≤ keys.length)
    have he : enough opts.one = enough opts.other ∨ 2 ≤ opts.room :=
      opts.dispatches.imp_left fun h => by simp only [enough, h]
    obtain ⟨c, es', hs⟩ := switchBody_paced ht hb hk he { ctx with
      scope, envDepth := ctx.envDepth +
        if (opts.scopes.scope scope).materializes then 1 else 0 } hulls
    refine ⟨c, es ++ (es' ++ []), fun fs => .with_ (hd fs 0) fun _ _ => ?_⟩
    refine .take .newRegister fun reg _ => .step (.opRegister rfl (rfl : _ = 0)) fun _ _ => ?_
    refine .take .scopeOf fun found hfound => ?_
    cases hfound
    exact .read (inBlock_paced (hr scope rfl) hf (hs reg fs))

end Ecma.Compile

