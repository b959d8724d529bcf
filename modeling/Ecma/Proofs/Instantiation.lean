/-
Global names are declared as a whole or not at all: a script whose declarations are refused leaves
the machine as it was, and any other one finds all its names when its first statement begins.
-/
import Ecma.Proofs.Declarations
import Ecma.Proofs.GlobalProperties
import Ecma.Proofs.Limits
import Ecma.Proofs.Supervision
import Ecma.Proofs.Options.Transparency

namespace Ecma

open Compile (Check GlobalAct Spells)

/-! ## One instruction -/

namespace Action

section

variable {call : Caller} {fr next : Frame} {instr : Code.Instruction}
  {m later : Machine} (hi : fr.code.instructions[fr.position]? = some instr)
  (hs : fr.stack.size ≤ m.limits.stackSize)

theorem guardedStep_jump (hs : fr.stack.size ≤ m.limits.stackSize) (position : Nat) :
    guardedStep call (fr.jump position) instr m =
      step call (fr.jump position) instr m := by
  unfold guardedStep
  rw [bind_apply]
  exact congrFun (if_neg (Nat.not_lt.mpr hs)) m

include hi hs

theorem run_of_next (fuel : Nat) (h : step (Action.call fuel) (fr.jump (fr.position + 1))
      instr m = .ok (.next next) later) :
    run (fuel + 1) fr m = run fuel next later := by
  have ha : advance (Action.call fuel) fr m = .ok (.next next) later := by
    unfold advance
    rw [hi]
    dsimp only
    rw [bind_apply, attempt_of_ok ((guardedStep_jump hs _).trans h)]
    rfl
  rw [run, bind_apply, ha]

theorem run_of_raised (hu : ∀ handler ∈ fr.code.handlers, fr.position < handler.start)
    {exception : Exception} (fuel : Nat)
    (h : step (Action.call fuel) (fr.jump (fr.position + 1)) instr m =
      .error (.raised exception) later) :
    run (fuel + 1) fr m = .error (.raised exception) later := by
  have ha : advance (Action.call fuel) fr m = .error (.raised exception) later := by
    unfold advance
    rw [hi]
    dsimp only
    rw [bind_apply, attempt_of_raised ((guardedStep_jump hs _).trans h)]
    dsimp only
    rw [@handle_eq_raise _ (fr.jump (fr.position + 1)) _ _ hu]
    rfl
  rw [run, bind_apply, ha]

end

end Action

/-! ## Checks -/

section

variable {object : ObjectRef} {lexical : List Cell} {varNames : List String} {name : String}
  {m first later : Machine} {fr : Frame} {acts done : List GlobalAct}
  {code : List Code.Instruction} {position : Nat}

/-- Whether a check passes. -/
def Heap.passes (heap : Heap) (object : ObjectRef) (lexical : List Cell) (varNames : List String)
    (name : String) : Check → Bool
  | .lexical => !heap.refusesLexical object lexical varNames name
  | .var => !lexical.any fun cell => cell.name == name
  | .function => heap.takesFunction object name
  | .declarable => heap.takesVar object name

/-- Why a check fails. -/
def Cause.ofCheck (name : String) : Check → Cause
  | .lexical | .var => .alreadyDeclared name
  | .function => .undeclarableFunction name
  | .declarable => .undeclarableVariable name

theorem nameAt_eq {template : Code.Template} {index : Nat}
    (h : template.constants.toList[index]? = some (.string name)) : template.nameAt index = name := by
  unfold Code.Template.nameAt
  rw [← Array.getElem?_toList, h]

theorem Action.step_check {call : Caller} {index : Nat} (hn : fr.code.nameAt index = name)
    (hg : m.HasGlobals object lexical varNames) (check : Check) :
    step call fr ⟨check.op, some (.name index)⟩ m =
      checked (m.heap.passes object lexical varNames name check) (.ofCheck name check) fr
        m := by
  subst hn
  cases check with
  | lexical => exact checkLexical_eq fr _ index hg
  | var => exact checkVar_eq fr _ index hg
  | function => exact checkFunction_eq fr _ index hg
  | declarable => exact checkDeclarable_eq fr _ index hg

/-- Code that does acts stands at a position, and nothing protects it. -/
structure Ahead (template : Code.Template) (acts : List GlobalAct) (code : List Code.Instruction)
    (position : Nat) : Prop where
  spells : Spells template.constants.toList template.functions acts code
  placed : ∀ {index : Nat} {instr}, code[index]? = some instr →
    template.instructions[position + index]? = some instr
  unprotected : ∀ handler ∈ template.handlers, position + code.length ≤ handler.start

theorem Ahead.after {template : Code.Template} {front : List Code.Instruction}
    {acts later : List GlobalAct} (h : Ahead template acts (front ++ code) position)
    (hs : Spells template.constants.toList template.functions later code) :
    Ahead template later code (position + front.length) := by
  refine ⟨hs, fun {index found} hi => ?_, fun handler hm => ?_⟩
  · rw [Nat.add_assoc]
    refine h.placed ?_
    rw [List.getElem?_append_right (Nat.le_add_right ..), Nat.add_sub_cancel_left, hi]
  · have := h.unprotected handler hm
    rw [List.length_append] at this
    omega

namespace Action

/-- Checks change nothing: one fails, or all pass and the code behind them is next. -/
theorem run_checks {checks : List (Check × String)}
    (h : Ahead fr.code (checks.map (fun check => .check check.1 check.2) ++ acts) code position)
    (hs : fr.stack.size = 0) (hg : m.HasGlobals object lexical varNames) :
    (∃ check ∈ checks, m.heap.passes object lexical varNames check.2 check.1 = false ∧
      ∀ fuel, run (fuel + code.length) (fr.jump position) m =
        .error (.raised (.failed (.ofCheck check.2 check.1))) m) ∨
    (∀ check ∈ checks, m.heap.passes object lexical varNames check.2 check.1 = true) ∧
      ∃ rest following, Ahead fr.code acts rest following ∧
        following + rest.length = position + code.length ∧
        ∀ fuel, run (fuel + code.length) (fr.jump position) m =
          run (fuel + rest.length) (fr.jump following) m := by
  induction checks generalizing code position with
  | nil => exact .inr ⟨List.forall_mem_nil _, code, position, h, rfl, fun _ => rfl⟩
  | cons check checks ih =>
    obtain ⟨check, name⟩ := check
    have hspells := h.spells
    cases hspells with
    | @check _ _ index _ code hn hrest =>
      have hi : fr.code.instructions[position]? = some _ := @h.placed 0 _ rfl
      have hstep := fun fuel => @step_check object lexical varNames name m
        (fr.jump (position + 1)) (Action.call fuel) index (nameAt_eq hn) hg check
      have hroom : (fr.jump position).stack.size ≤ m.limits.stackSize :=
        hs.trans_le (Nat.zero_le _)
      cases hp : m.heap.passes object lexical varNames name check with
      | false =>
        refine .inl ⟨_, List.mem_cons_self .., hp, fun fuel =>
          run_of_raised hi hroom (fun handler hm => ?_) (fuel + code.length) ((hstep _).trans (by rw [hp]; rfl))⟩
        have := h.unprotected handler hm
        rw [List.length_cons] at this
        change position < _
        omega
      | true =>
        have hrun := fun fuel => run_of_next hi hroom (fuel + code.length)
          ((hstep _).trans (by rw [hp]; rfl))
        obtain ⟨failing, hm, hf, he⟩ | ⟨hall, rest, following, hahead, hend, he⟩ :=
          ih (@Ahead.after code position _ [_] _ _ h hrest)
        · exact .inl ⟨failing, List.mem_cons_of_mem _ hm, hf, fun fuel => (hrun fuel).trans (he fuel)⟩
        · refine .inr ⟨List.forall_mem_cons.mpr ⟨hp, hall⟩, rest, following, hahead, ?_,
            fun fuel => (hrun fuel).trans (he fuel)⟩
          rw [hend]
          simp only [List.length_cons, List.length_nil]
          omega

end Action

/-! ## Creations -/

/-- A global property that holds a function with some code. -/
def Machine.HoldsFunction (m : Machine) (object : ObjectRef) (record : RecordRef)
    (name : String) (code : Code.Template) : Prop :=
  ∃ property ref receiver, m.heap.ownProperty? object (.string name) = some property ∧
    property.value = .object ref ∧ m.heap.payload ref = .function ⟨code, record, receiver⟩

/-- A property of a later heap that was there before, or is undefined. -/
def Heap.KeepsVar (heap later : Heap) (object : ObjectRef) (name : String) : Prop :=
  ∃ property, later.ownProperty? object (.string name) = some property ∧
    (heap.ownProperty? object (.string name) = some property ∨
      heap.ownProperty? object (.string name) = none ∧ property.value = .undefined)

/-- A binding that is not initialised. -/
def Unset (lexical : List Cell) (name : String) : Prop :=
  ∃ cell, lexical.find? (fun cell => cell.name == name) = some cell ∧ cell.value = none

/-- The name whose property an act makes. -/
def Compile.GlobalAct.property? : GlobalAct → Option String
  | .function name _ | .var name => some name
  | .check .. | .lexical .. => none

/-- Only variables are declared twice. -/
def Compile.GlobalAct.Apart (act later : GlobalAct) : Prop :=
  ∀ name, act.property? = some name → later.property? = some name →
    act = .var name ∧ later = .var name

/-- An act that is no check, and for which the checks have passed. -/
def Machine.Admits (m : Machine) : GlobalAct → Prop
  | .check .. => False
  | .lexical .. => True
  | .function name _ => m.heap.takesFunction m.realm.globalObject name = true
  | .var name => m.heap.takesVar m.realm.globalObject name = true

/-- A machine on which some acts were done after the checks. -/
structure Machine.Staged (first : Machine) (done : List GlobalAct) (m : Machine) : Prop where
  realm : m.realm = first.realm
  limits : m.limits = first.limits
  range : first.realm.globalObject.index < m.heap.objects.size
  plain : (m.heap.payload first.realm.globalObject).isArray = false
  extensible : (m.heap.object first.realm.globalObject).extensible =
    (first.heap.object first.realm.globalObject).extensible
  globals : ∃ lexical varNames,
    m.HasGlobals first.realm.globalObject lexical varNames ∧
      ∀ {name constant}, .lexical name constant ∈ done → Unset lexical name
  kept : ∀ key, (∀ act ∈ done, act.property?.map .string ≠ some key) →
    m.heap.ownProperty? first.realm.globalObject key =
      first.heap.ownProperty? first.realm.globalObject key
  functions : ∀ {name code}, .function name code ∈ done →
    m.HoldsFunction first.realm.globalObject first.realm.globalRecord name code
  vars : ∀ {name}, .var name ∈ done →
    first.heap.KeepsVar m.heap first.realm.globalObject name

theorem Machine.Staged.start {m : Machine} {lexical : List Cell} {varNames : List String}
    (hr : m.realm.globalObject.index < m.heap.objects.size)
    (hp : (m.heap.payload m.realm.globalObject).isArray = false)
    (hg : m.HasGlobals m.realm.globalObject lexical varNames) : m.Staged [] m where
  realm := rfl
  limits := rfl
  range := hr
  plain := hp
  extensible := rfl
  globals := ⟨lexical, varNames, hg, fun hm => absurd hm List.not_mem_nil⟩
  kept _ _ := rfl
  functions hm := absurd hm List.not_mem_nil
  vars hm := absurd hm List.not_mem_nil

/-- What one act adds to a machine on which others were done. -/
structure Machine.Adds (first m : Machine) (act : GlobalAct) (later : Machine) : Prop where
  realm : later.realm = m.realm
  limits : later.limits = m.limits
  shape : m.heap.Reshapes first.realm.globalObject
    (act.property?.map .string).toList later.heap
  globals : ∀ {lexical varNames}, m.HasGlobals first.realm.globalObject lexical varNames →
    ∃ lexical' varNames', later.HasGlobals first.realm.globalObject lexical' varNames' ∧
      (∀ name, Unset lexical name → Unset lexical' name) ∧
      ∀ {name constant}, act = .lexical name constant → Unset lexical' name
  function : ∀ {name code}, act = .function name code →
    later.HoldsFunction first.realm.globalObject first.realm.globalRecord name code
  var : ∀ {name}, act = .var name → first.heap.KeepsVar later.heap first.realm.globalObject name

theorem Machine.Staged.next {act : GlobalAct} (h : first.Staged done m)
    (hd : first.Adds m act later) (hapart : ∀ before ∈ done, before.Apart act) :
    first.Staged (done ++ [act]) later := by
  have hother : ∀ {name}, act.property? ≠ some name →
      later.heap.ownProperty? first.realm.globalObject (.string name) =
        m.heap.ownProperty? first.realm.globalObject (.string name) := by
    intro name hn
    refine hd.shape.other _ fun hm => hn ?_
    rw [Option.mem_toList, Option.map_eq_some_iff] at hm
    obtain ⟨found, hf, he⟩ := hm
    cases he
    exact hf
  refine ⟨hd.realm.trans h.realm, hd.limits.trans h.limits,
    Nat.lt_of_lt_of_le h.range hd.shape.size, ?_, hd.shape.extensible.trans h.extensible, ?_,
    fun key hk => ?_, fun {name code} hm => ?_, fun {name} hm => ?_⟩
  · rw [hd.shape.payload _ h.range]
    exact h.plain
  · obtain ⟨lexical, varNames, hg, hunset⟩ := h.globals
    obtain ⟨lexical', varNames', hg', hkeep, hnew⟩ := hd.globals hg
    refine ⟨lexical', varNames', hg', fun hm => ?_⟩
    obtain hm | hm := List.mem_append.mp hm
    · exact hkeep _ (hunset hm)
    · exact hnew (List.mem_singleton.mp hm).symm
  · rw [List.forall_mem_append] at hk
    refine (hd.shape.other key fun hm => ?_).trans (h.kept key hk.1)
    exact hk.2 act (List.mem_singleton_self _) (Option.mem_toList.mp hm)
  · obtain hm | hm := List.mem_append.mp hm
    · obtain ⟨property, ref, receiver, hp, hv, hf⟩ := h.functions hm
      have hfree : act.property? ≠ some name := by
        intro hn
        cases (hapart _ hm name rfl hn).1
      have hlt : ref.index < m.heap.objects.size := Heap.lt_of_payload (by rw [hf]; rfl)
      exact ⟨property, ref, receiver, (hother hfree).trans hp, hv, (hd.shape.payload ref hlt).trans hf⟩
    · exact hd.function (List.mem_singleton.mp hm).symm
  · obtain hm | hm := List.mem_append.mp hm
    · by_cases hn : act.property? = some name
      · exact hd.var (hapart _ hm name rfl hn).2
      · obtain ⟨property, hp, hkeep⟩ := h.vars hm
        exact ⟨property, (hother hn).trans hp, hkeep⟩
    · exact hd.var (List.mem_singleton.mp hm).symm

theorem find?_insertCell (cell : Cell) (name : String) (lexical : List Cell) :
    (Record.insertCell cell lexical).find? (fun found => found.name == name) =
      if cell.name = name then some cell else lexical.find? fun found => found.name == name := by
  induction lexical with
  | nil => by_cases h : cell.name = name <;> simp [Record.insertCell, h]
  | cons head rest ih =>
    unfold Record.insertCell
    by_cases hh : head.name = cell.name
    · rw [if_pos hh]
      by_cases h : cell.name = name <;> simp [hh, h]
    · rw [if_neg hh]
      by_cases h : cell.name = name
      · subst h
        rw [List.find?_cons_of_neg (by simpa using hh), ih]
        simp
      · rw [if_neg h] at ih ⊢
        rw [List.find?_cons, List.find?_cons, ih]

theorem Heap.objects_withLexical {heap : Heap} {ref : RecordRef}
    (hg : heap.record ref = .global object lexical varNames) (name : String) (constant : Bool) :
    (heap.withLexical ref name constant).objects = heap.objects := by
  cases constant with
  | true => rfl
  | false =>
    simp only [withLexical, createMutable, hg]
    rfl

namespace Machine.Staged

variable (h : first.Staged done m)

include h

theorem lexical_adds (name : String) (constant : Bool) :
    first.Adds m (.lexical name constant) { m with
      heap := m.heap.withLexical m.realm.globalRecord name constant } := by
  obtain ⟨_, _, hg, -⟩ := h.globals
  refine ⟨rfl, rfl, .of_objects (Heap.objects_withLexical hg name constant), ?_, nofun, nofun⟩
  intro lexical varNames hg
  have hnew : (Heap.lexicalCell name constant).name = name ∧
      (Heap.lexicalCell name constant).value = none := by cases constant <;> exact ⟨rfl, rfl⟩
  refine ⟨_, _, Heap.record_withLexical hg name constant, fun other hu => ?_, ?_⟩
  · unfold Unset
    rw [find?_insertCell]
    split
    · exact ⟨_, rfl, hnew.2⟩
    · exact hu
  · rintro _ _ ⟨⟩
    unfold Unset
    rw [find?_insertCell, if_pos hnew.1]
    exact ⟨_, rfl, hnew.2⟩

theorem var_adds (hplain : (first.heap.payload first.realm.globalObject).isArray = false)
    (hv : first.Admits (.var name)) (hapart : ∀ before ∈ done, before.Apart (.var name)) :
    first.Adds m (.var name) { m with
      heap := m.heap.withVar m.realm.globalRecord first.realm.globalObject name false } := by
  -- The property is as at first unless an earlier act declared the same variable.
  have hbefore : GlobalAct.var name ∈ done ∨
      m.heap.ownProperty? first.realm.globalObject (.string name) =
        first.heap.ownProperty? first.realm.globalObject (.string name) := by
    by_cases hm : GlobalAct.var name ∈ done
    · exact .inl hm
    · refine .inr (h.kept _ fun act hd he => hm ?_)
      obtain ⟨found, hf, he⟩ := Option.map_eq_some_iff.mp he
      cases he
      exact (hapart act hd name hf rfl).1 ▸ hd
  have htakes : m.heap.takesVar first.realm.globalObject name = true := by
    unfold Heap.takesVar
    rw [Heap.hasOwn_eq h.plain, h.extensible]
    obtain hm | he := hbefore
    · obtain ⟨property, hp, -⟩ := h.vars hm
      rw [hp]
      rfl
    · rw [he, ← Heap.hasOwn_eq hplain]
      exact hv
  obtain ⟨hshape, property, hp, hkeeps⟩ := @Heap.withVar_spec m.heap first.realm.globalObject
    m.realm.globalRecord name h.range h.plain htakes
  refine ⟨rfl, rfl, hshape, fun {lexical varNames} hg => ?_, nofun, ?_⟩
  · exact ⟨_, _, Heap.record_withVar hg name false, fun _ hu => hu, nofun⟩
  · rintro _ ⟨⟩
    obtain hm | he := hbefore
    · obtain ⟨before, hb, hkept⟩ := h.vars hm
      refine ⟨property, hp, ?_⟩
      obtain hsame | ⟨hnone, -⟩ := hkeeps
      · cases hb.symm.trans hsame
        exact hkept
      · cases hb.symm.trans hnone
    · exact ⟨property, hp, he ▸ hkeeps⟩

theorem function_adds {template : Code.Template} (receiver : Option Value) {heap : Heap}
    (hv : first.Admits (.function name template))
    (hapart : ∀ before ∈ done, before.Apart (.function name template))
    (hnew : m.heap.Adjoins ⟨m.heap.objects.size⟩ heap)
    (hf : heap.payload ⟨m.heap.objects.size⟩ =
      .function ⟨template, first.realm.globalRecord, receiver⟩) :
    first.Adds m (.function name template) { m with
      heap := heap.withFunction m.realm.globalRecord first.realm.globalObject name
        (.object ⟨m.heap.objects.size⟩) false } := by
  have hgrown : m.heap.Reshapes first.realm.globalObject [.string name] heap :=
    hnew.reshapes rfl h.range
  have hown : heap.ownProperty? first.realm.globalObject (.string name) =
      first.heap.ownProperty? first.realm.globalObject (.string name) := by
    have hsame : m.heap.Reshapes first.realm.globalObject [] heap := hnew.reshapes rfl h.range
    refine (hsame.other _ List.not_mem_nil).trans (h.kept _ fun act hd he => ?_)
    obtain ⟨found, hfound, he⟩ := Option.map_eq_some_iff.mp he
    cases he
    cases (hapart act hd name hfound rfl).2
  have htakes : heap.takesFunction first.realm.globalObject name = true := by
    unfold Heap.takesFunction
    rw [hown, hgrown.extensible, h.extensible]
    exact hv
  have hrange := Nat.lt_of_lt_of_le h.range hgrown.size
  have hplain : (heap.payload first.realm.globalObject).isArray = false := by
    rw [hgrown.payload _ h.range]
    exact h.plain
  obtain ⟨hshape, property, hp, hvalue⟩ := @Heap.withFunction_spec heap first.realm.globalObject
    m.realm.globalRecord name hrange hplain htakes (.object ⟨m.heap.objects.size⟩)
  refine ⟨rfl, rfl, hgrown.trans hshape, fun {lexical varNames} hg => ?_, ?_, nofun⟩
  · have hg : heap.record m.realm.globalRecord = _ := (congrArg (Array.getD · _ _) hnew.records).trans hg
    exact ⟨_, _, Heap.record_withFunction hg name _ false, fun _ hu => hu, nofun⟩
  · rintro _ _ ⟨⟩
    refine ⟨property, _, receiver, hp, hvalue, ?_⟩
    rw [← hf]
    refine hshape.payload _ (Heap.lt_of_payload ?_)
    rw [hf]
    rfl

end Machine.Staged

namespace Action

theorem step_closure {place : Nat} {template : Code.Template}
    (hf : fr.code.functions[place]? = some template) :
    ∃ receiver heap, (∀ call, step call fr ⟨.closure, some (.function place)⟩ m =
        .ok (.next (fr.push (.object ⟨m.heap.objects.size⟩))) { m with heap }) ∧
      m.heap.Adjoins ⟨m.heap.objects.size⟩ heap ∧
      heap.payload ⟨m.heap.objects.size⟩ = .function ⟨template, fr.record, receiver⟩ := by
  let receiver := if template.kind.isArrow then some fr.receiver else none
  obtain ⟨heap, hc, hnew, hp⟩ := createClosure_spec template fr.record receiver m
  refine ⟨receiver, heap, fun call => ?_, hnew, hp⟩
  have hstep : step call fr ⟨.closure, some (.function place)⟩ =
      pushing fr do return .object (← createClosure template fr.record receiver) := by
    change makeClosure fr ⟨.closure, some (.function place)⟩ = _
    unfold makeClosure
    dsimp only
    rw [hf]
  rw [hstep]
  unfold pushing
  rw [bind_apply, bind_apply, hc]
  rfl

/-- A creation for which the checks have passed cannot fail. -/
theorem run_creation {act : GlobalAct} (h : Ahead fr.code (act :: acts) code position)
    (hs : fr.stack.size = 0) (hrecord : fr.record = first.realm.globalRecord)
    (hroom : 1 ≤ first.limits.stackSize)
    (hplain : (first.heap.payload first.realm.globalObject).isArray = false)
    (hst : first.Staged done m) (hd : first.Admits act)
    (hapart : ∀ before ∈ done, before.Apart act) :
    ∃ later rest following, first.Adds m act later ∧
      Ahead fr.code acts rest following ∧ following + rest.length = position + code.length ∧
      ∀ fuel, run (fuel + code.length) (fr.jump position) m =
        run (fuel + rest.length) (fr.jump following) later := by
  obtain ⟨lexical, varNames, hg, -⟩ := hst.globals
  have hempty : (fr.jump position).stack.size ≤ m.limits.stackSize :=
    hs.trans_le (Nat.zero_le _)
  have hspells := h.spells
  cases hspells with
  | check => cases hd
  | @lexical name constant index _ code hn hrest =>
    have hi : fr.code.instructions[position]? = some _ := @h.placed 0 _ rfl
    refine ⟨_, code, position + 1, hst.lexical_adds name constant,
      @Ahead.after code position _ [_] _ _ h hrest, ?_, fun fuel => ?_⟩
    · rw [List.length_cons]
      omega
    · refine run_of_next hi hempty (fuel + code.length) ?_
      have := @declareLexical_eq m (fr.jump (position + 1)) .createGlobalLexical index constant
      rwa [show (fr.jump (position + 1)).code.nameAt index = name from nameAt_eq hn] at this
  | @var name index _ code hn hrest =>
    have hi : fr.code.instructions[position]? = some _ := @h.placed 0 _ rfl
    refine ⟨_, code, position + 1, hst.var_adds hplain hd hapart,
      @Ahead.after code position _ [_] _ _ h hrest, ?_, fun fuel => ?_⟩
    · rw [List.length_cons]
      omega
    · refine run_of_next hi hempty (fuel + code.length) ?_
      have := declareVar_eq (fr.jump (position + 1)) .createGlobalVar index hg false
      rwa [show (fr.jump (position + 1)).code.nameAt index = name from nameAt_eq hn] at this
  | @function name template index place _ code hp hn hrest =>
    have hi : fr.code.instructions[position]? = some _ := @h.placed 0 _ rfl
    have hi' : fr.code.instructions[position + 1]? = some _ := @h.placed 1 _ rfl
    obtain ⟨receiver, heap, hstep, hnew, hpayload⟩ :=
      @step_closure m (fr.jump (position + 1)) _ _ hp
    have hg' : heap.record m.realm.globalRecord = .global _ lexical varNames :=
      (congrArg (Array.getD · _ _) hnew.records).trans hg
    let value : Value := .object ⟨m.heap.objects.size⟩
    have hlimit : ((fr.jump (position + 1)).push value).stack.size ≤ m.limits.stackSize := by
      rw [hst.limits]
      exact (congrArg (· + 1) hs).trans_le hroom
    refine ⟨_, code, position + 1 + 1, hst.function_adds receiver hd hapart hnew (hrecord ▸ hpayload),
      @Ahead.after code position _ [_, _] _ _ h hrest, ?_, fun fuel => ?_⟩
    · simp only [List.length_cons]
      omega
    · refine (run_of_next hi hempty (fuel + (code.length + 1)) (hstep _)).trans ?_
      refine @run_of_next ((fr.jump (position + 1)).push value) _ _ { m with heap } _ hi' hlimit
        (fuel + code.length) ?_
      have := @declareFunction_eq { m with heap } _ _ _ (fr.jump (position + 1 + 1))
        .createGlobalFunction index hg' value false
      rwa [show (fr.jump (position + 1 + 1)).code.nameAt index = name from nameAt_eq hn] at this

/-- Creations are done one after the other. -/
theorem run_creations (h : Ahead fr.code acts code position) (hs : fr.stack.size = 0)
    (hrecord : fr.record = first.realm.globalRecord) (hroom : 1 ≤ first.limits.stackSize)
    (hplain : (first.heap.payload first.realm.globalObject).isArray = false)
    (hst : first.Staged done m) (hd : ∀ act ∈ acts, first.Admits act)
    (hapart : (done ++ acts).Pairwise GlobalAct.Apart) :
    ∃ later, first.Staged (done ++ acts) later ∧
      ∀ fuel, run (fuel + code.length) (fr.jump position) m =
        run fuel (fr.jump (position + code.length)) later := by
  induction acts generalizing done code position m with
  | nil =>
    have hspells := h.spells
    cases hspells
    exact ⟨m, by rwa [List.append_nil], fun _ => rfl⟩
  | cons act acts ih =>
    rw [List.forall_mem_cons] at hd
    have hbefore : ∀ before ∈ done, before.Apart act := fun before hm =>
      (List.pairwise_append.mp hapart).2.2 before hm act (List.mem_cons_self ..)
    obtain ⟨middle, rest, following, hadds, hahead, hend, hrun⟩ :=
      run_creation h hs hrecord hroom hplain hst hd.1 hbefore
    rw [List.append_cons] at hapart ⊢
    obtain ⟨later, hlater, hrest⟩ := ih hahead (hst.next hadds hbefore) hd.2 hapart
    refine ⟨later, hlater, fun fuel => ?_⟩
    rw [hrun, hrest, hend]

end Action

end

/-! ## Sessions -/

/-- A machine whose realm is the same, and where nothing has become an array. -/
structure Machine.Anchors (m later : Machine) : Prop where
  realm : later.realm = m.realm
  size : m.heap.objects.size ≤ later.heap.objects.size
  array : ∀ ref : ObjectRef, ref.index < m.heap.objects.size →
    (later.heap.payload ref).isArray = true → (m.heap.payload ref).isArray = true

namespace Machine.Anchors

variable (m : Machine)

theorem refl : m.Anchors m := ⟨rfl, Nat.le_refl _, fun _ _ => id⟩

theorem alloc (object : Object) :
    m.Anchors { m with heap := (m.heap.alloc object).2 } := by
  refine ⟨rfl, by simp [Heap.alloc], fun ref hr => ?_⟩
  rw [Heap.payload_alloc, if_neg (Nat.ne_of_lt hr)]
  exact id

theorem setPayload (ref : ObjectRef) {payload : Payload} (h : payload.isArray = false) :
    m.Anchors { m with heap := m.heap.setPayload ref payload } := by
  refine ⟨rfl, Nat.le_of_eq (Heap.size_setPayload ..).symm, fun other _ => ?_⟩
  rw [Heap.payload_setPayload]
  split
  · exact fun ha => absurd (h.symm.trans ha) Bool.false_ne_true
  · exact id

end Machine.Anchors

/-- Whatever a machine does, its realm stays, and what is no array does not become one. -/
def Law.anchored : Law where
  standard := .lax
  rel m later := m.Anchors later
  refl := .refl
  trans h g := ⟨g.realm.trans h.realm, h.size.trans g.size, fun ref hr ha =>
    h.array ref hr (g.array ref (Nat.lt_of_lt_of_le hr h.size) ha)⟩
  nested h := ⟨h.realm, h.size, h.array⟩
  calm h := ⟨h.realm, h.heap.size, fun ref hr => (h.heap.object ref hr).array⟩
  function m _ _ _ := .alloc m _
  generator m _ _ _ := .alloc m _

instance : Law.anchored.FreesGenerators := ⟨fun m _ _ _ _ => .setPayload m _ rfl⟩

instance : Law.anchored.FreesPromises :=
  ⟨fun m _ _ _ => .alloc m _, fun m _ _ _ _ => .setPayload m _ rfl,
    fun _ _ => ⟨rfl, Nat.le_refl _, fun _ _ => id⟩, fun m _ _ _ _ => .alloc m _,
    fun m _ _ _ _ _ => .setPayload m _ rfl⟩

theorem Realm.construct_global :
    (construct.run {}).1.globalObject.index < (construct.run {}).2.objects.size ∧
      ((construct.run {}).2.payload (construct.run {}).1.globalObject).isArray = false := by
  decide +kernel

theorem Machine.new_global (limits : Limits) : (new limits).limits = limits ∧
    (new limits).realm.globalObject.index < (new limits).heap.objects.size ∧
      ((new limits).heap.payload (new limits).realm.globalObject).isArray = false := by
  have h := Realm.construct_global
  unfold Machine.new
  generalize Realm.construct.run {} = made at h ⊢
  exact ⟨rfl, h⟩

namespace Execution

variable (fuel : Nat) (options : Compile.Options) (programs : List (Syntax.Program Unit))

theorem evalAll_upholds (law : Law) [law.TakesJobs] [law.FreesGenerators] :
    Ecma.Upholds law (evalAll fuel options programs) := by
  have heval : ∀ program, Ecma.Upholds law (eval fuel options program).run := by
    intro program
    suffices h : Upholds law (eval fuel options program) from h.action
    unfold eval
    cases hc : Compile.compile options program with
    | error refusal => exact ⟨.pure _⟩
    | ok script =>
      have hrun := runCompiled_upholds fuel (law.standard.compiles hc)
      have hjobs : Upholds law (runJobs fuel) :=
        ofAction_upholds fuel inferInstance
      suffices h : Upholds law (complete fuel script) from ⟨h.action⟩
      unfold complete
      infer_instance
  induction programs with
  | nil => exact .pure _
  | cons program rest ih =>
    unfold evalAll at ih ⊢
    rw [List.mapM_cons]
    have := heval program
    infer_instance

variable {fuel options programs} {limits : Limits} {m : Machine}

/-- The global names of a machine are in order after any programs. -/
theorem globals_of_evalAll (hroom : 1 ≤ limits.stackSize)
    (h : (evalAll fuel options programs).reached? (.new limits) = some m) :
    ∃ lexical varNames, m.HasGlobals m.realm.globalObject lexical varNames ∧
      ∀ cell ∈ lexical, cell.name ∉ varNames := by
  have hm := Likeness.Machines.new (alike limits.stackSize) (Nat.le_refl limits.stackSize)
  have ht := @evalAllUnder_tracks _ Action.handle Action.handle options options
    (fun program => Compile.compile_inStep program rfl hroom (.inl rfl)) fuel programs _ _ hm
  rw [evalAllUnder_handle] at ht
  unfold Likeness.Tracks at ht
  unfold Action.reached? at h
  generalize evalAll fuel options programs (.new limits) = outcome at h ht
  cases ht with
  | exhausted => cases h
  | ok _ hm _ | raised _ hm =>
    cases h
    obtain ⟨lexical, varNames, hg, -, ha⟩ := hm.globals
    exact ⟨lexical, varNames, hg, ha⟩

/-- The global object stays what it is. -/
theorem anchored_of_evalAll
    (h : (evalAll fuel options programs).reached? (.new limits) = some m) :
    m.limits = limits ∧ m.realm.globalObject.index < m.heap.objects.size ∧
      (m.heap.payload m.realm.globalObject).isArray = false := by
  have hnew := Machine.new_global limits
  have hmeets := Machine.new_meets limits
  generalize Machine.new limits = first at h hnew hmeets
  have hsteady := ((evalAll_upholds fuel options programs Law.steady).upholds (hmeets _) h).rel
  have hanchored := ((evalAll_upholds fuel options programs Law.anchored).upholds (hmeets _) h).rel
  have hrealm : m.realm = first.realm := hanchored.realm
  rw [hrealm]
  refine ⟨hsteady.2.trans hnew.1, Nat.lt_of_lt_of_le hnew.2.1 hanchored.size, ?_⟩
  cases ha : (m.heap.payload first.realm.globalObject).isArray with
  | false => rfl
  | true => exact absurd (hnew.2.2.symm.trans (hanchored.array _ hnew.2.1 ha)) Bool.false_ne_true

end Execution

/-! ## Scripts -/

/-- Whether a check of a declaration passes on a machine. -/
def Machine.passes (m : Machine) (check : Check × String) : Bool :=
  match m.heap.record m.realm.globalRecord with
  | .global object lexical varNames => m.heap.passes object lexical varNames check.2 check.1
  | _ => false

/-- No name is a global lexical binding and a recorded variable as well. -/
def Machine.GlobalsDisjoint (m : Machine) : Prop :=
  match m.heap.record m.realm.globalRecord with
  | .global _ lexical varNames => ∀ cell ∈ lexical, cell.name ∉ varNames
  | _ => False

/-- A machine on which all names of a script were declared. -/
structure Machine.Instantiates (m : Machine) (ctx : Compile.Context)
    (body : List (Syntax.Stmt (Option ScopeId))) (later : Machine) : Prop where
  realm : later.realm = m.realm
  lexical : ∀ lexical ∈ Scope.lexicalsDeclared body, ∃ cell,
    (later.heap.record later.realm.globalRecord).cell? lexical.name = some cell ∧ cell.value = none
  /-- The last declaration of a function counts. -/
  function : ∀ name ∈ Compile.functionNames body, ∃ make code em,
    (Compile.functions body).reverse.lookup name = some make ∧
      make ctx em = .ok (code, em) ∧
      later.HoldsFunction later.realm.globalObject later.realm.globalRecord name code
  var : ∀ name ∈ Compile.plainVars body,
    m.heap.KeepsVar later.heap later.realm.globalObject name
  other : ∀ key, (∀ name ∈ Compile.functionNames body ++ Compile.plainVars body,
      key ≠ .string name) →
    later.heap.ownProperty? later.realm.globalObject key =
      m.heap.ownProperty? later.realm.globalObject key

/-- The frame in which a script runs. -/
def Machine.scriptFrame (m : Machine) (code : Code.Template) : Frame :=
  .start code m.realm.globalRecord (.object m.realm.globalObject) none []

section

variable {m later : Machine} {ctx : Compile.Context} {lexical : List Cell}
  {varNames : List String} {body : List (Syntax.Stmt (Option ScopeId))} {made : List GlobalAct}

open Compile

theorem exists_of_mem_right {α β : Type} {related : α → β → Prop} {items : List α} {others : List β}
    (h : List.Forall₂ related items others) {other : β} (hm : other ∈ others) :
    ∃ item ∈ items, related item other := by
  induction h with
  | nil => cases hm
  | cons hr _ ih =>
    obtain rfl | hm := List.mem_cons.mp hm
    · exact ⟨_, List.mem_cons_self .., hr⟩
    · obtain ⟨item, hi, hr⟩ := ih hm
      exact ⟨item, List.mem_cons_of_mem _ hi, hr⟩

/-- Acts of functions have names of their own. -/
theorem pairwise_of_made {functions : List (String × Emit Code.Template)}
    (h : List.Forall₂ (DeclaresMade ctx) functions made)
    (hn : (functions.map Prod.fst).Nodup) : made.Pairwise GlobalAct.Apart := by
  induction h with
  | nil => exact .nil
  | @cons function act functions made hd hrest ih =>
    rw [List.map_cons, List.nodup_cons] at hn
    refine .cons (fun other hm name hp hp' => ?_) (ih hn.2)
    obtain ⟨_, _, _, rfl⟩ := hd
    obtain ⟨found, hf, _, _, _, rfl⟩ := exists_of_mem_right hrest hm
    have he : found.1 = function.1 := Option.some.inj (hp'.trans hp.symm)
    exact absurd (he ▸ List.mem_map_of_mem hf) hn.1

variable (hmade : List.Forall₂ (DeclaresMade ctx) (declaredFunctions (functions body)) made)

include hmade

/-- A act of a function has the code of the last declaration of a name. -/
theorem mem_made {act : GlobalAct} (hm : act ∈ made) :
    ∃ name code, act = .function name code ∧ name ∈ functionNames body := by
  obtain ⟨function, hf, code, _, _, rfl⟩ := exists_of_mem_right hmade hm
  exact ⟨_, code, rfl, mem_functionNames.mpr (List.mem_map_of_mem (mem_declaredFunctions hf))⟩

theorem pairwise_creations : (globalCreations body made).Pairwise GlobalAct.Apart := by
  have hfunctions := pairwise_of_made hmade (declaredFunctions_spec (functions body)).1
  refine List.pairwise_append.mpr ⟨?_, List.pairwise_append.mpr ⟨hfunctions, ?_, ?_⟩, ?_⟩
  · refine List.pairwise_map.mpr (List.pairwise_of_forall fun _ _ _ hp => ?_)
    cases hp
  · refine List.pairwise_map.mpr (List.pairwise_of_forall fun _ _ _ hp hp' => ?_)
    cases hp
    cases hp'
    exact ⟨rfl, rfl⟩
  · intro act hd var hv name hp hp'
    obtain ⟨found, code, rfl, hf⟩ := mem_made hmade hd
    obtain ⟨plain, hplain, rfl⟩ := List.mem_map.mp hv
    cases hp
    cases hp'
    have := (List.mem_filter.mp hplain).2
    rw [List.contains_iff_mem.mpr hf] at this
    cases this
  · intro act hd _ _ name hp
    obtain ⟨found, -, rfl⟩ := List.mem_map.mp hd
    cases hp

theorem admits_creations (h : ∀ check ∈ globalChecks body,
      m.heap.passes m.realm.globalObject lexical varNames check.2 check.1 = true) :
    ∀ act ∈ globalCreations body made, m.Admits act := by
  intro act hd
  obtain hd | hd := List.mem_append.mp hd
  · obtain ⟨found, -, rfl⟩ := List.mem_map.mp hd
    trivial
  obtain hd | hd := List.mem_append.mp hd
  · obtain ⟨name, code, rfl, hf⟩ := mem_made hmade hd
    refine h (.function, name) (List.mem_append_right _ (List.mem_append_right _
      (List.mem_append_left _ (List.mem_map_of_mem hf))))
  · obtain ⟨name, hv, rfl⟩ := List.mem_map.mp hd
    refine h (.declarable, name) (List.mem_append_right _ (List.mem_append_right _
      (List.mem_append_right _ (List.mem_map_of_mem hv))))

theorem instantiates_of_staged (h : m.Staged (globalCreations body made) later) :
    m.Instantiates ctx body later := by
  refine ⟨h.realm, fun lexical hl => ?_, fun name hn => ?_, fun name hv => ?_, fun key hk => ?_⟩
  · obtain ⟨cells, varNames, hg, hunset⟩ := h.globals
    obtain ⟨cell, hc, hv⟩ := hunset (List.mem_append_left _ (List.mem_map_of_mem hl))
    refine ⟨cell, ?_, hv⟩
    rw [show later.heap.record later.realm.globalRecord = _ from hg]
    exact hc
  · have hsome : ((functions body).reverse.lookup name).isSome = true := by
      obtain ⟨function, hf, rfl⟩ := List.mem_map.mp (mem_functionNames.mp hn)
      exact List.lookup_isSome_iff.mpr ⟨function, List.mem_reverse.mpr hf, beq_self_eq_true _⟩
    obtain ⟨make, hmake⟩ := Option.isSome_iff_exists.mp hsome
    obtain ⟨_, _, hsplit, -⟩ := List.lookup_eq_some_iff.mp
      (((declaredFunctions_spec (functions body)).2 name).trans hmake)
    have hfunction : (name, make) ∈ declaredFunctions (functions body) := by simp [hsplit]
    obtain ⟨act, hd, code, em, hcode, rfl⟩ := exists_of_mem_right hmade.flip hfunction
    refine ⟨make, code, em, hmake, hcode, ?_⟩
    rw [h.realm]
    exact h.functions (List.mem_append_right _ (List.mem_append_left _ hd))
  · rw [h.realm]
    exact h.vars (List.mem_append_right _ (List.mem_append_right _ (List.mem_map_of_mem hv)))
  · rw [h.realm]
    refine h.kept key fun act hd he => ?_
    obtain ⟨name, hp, rfl⟩ := Option.map_eq_some_iff.mp he
    refine hk name (List.mem_append.mpr ?_) rfl
    obtain hd | hd := List.mem_append.mp hd
    · obtain ⟨found, -, rfl⟩ := List.mem_map.mp hd
      cases hp
    obtain hd | hd := List.mem_append.mp hd
    · obtain ⟨found, code, rfl, hf⟩ := mem_made hmade hd
      cases hp
      exact .inl hf
    · obtain ⟨found, hv, rfl⟩ := List.mem_map.mp hd
      cases hp
      exact .inr hv

end

/-- A machine reached by any programs knows no name twice; and on it a script that compiles either
fails a check, and leaves everything as it was, or comes to its first statement with all its names
declared. -/
theorem Execution.globals_instantiated_as_whole {fuel : Nat} {options : Compile.Options}
    {programs : List (Syntax.Program Unit)} {limits : Limits} {m : Machine}
    (hroom : 1 ≤ limits.stackSize)
    (hreached : (evalAll fuel options programs).reached? (.new limits) = some m) :
    m.GlobalsDisjoint ∧
    ∀ {options : Compile.Options} {program : Syntax.Program Unit} {script : Compile.Script},
      Compile.compile options program = .ok script → program.goal = .script →
      ∃ analysed start, Scope.analyse program = .ok analysed ∧
        Compile.bodyStart options analysed = .ok start ∧
        (∀ fuel, (runCompiled fuel script).run m =
          (runFrame fuel (m.scriptFrame script.template)).run m) ∧
        ((∃ check ∈ Compile.globalChecks analysed.program.body, m.passes check = false ∧
          ∀ fuel, Action.run (fuel + start) (m.scriptFrame script.template) m =
            .error (.raised (.failed (.ofCheck check.2 check.1))) m) ∨
        (∀ check ∈ Compile.globalChecks analysed.program.body, m.passes check = true) ∧
          ∃ later, m.Instantiates (Compile.scriptContext options analysed)
            analysed.program.body later ∧
          ∀ fuel, Action.run (fuel + start) (m.scriptFrame script.template) m =
            Action.run fuel ((m.scriptFrame script.template).jump start) later) := by
  obtain ⟨lexical, varNames, hg, hdisjoint⟩ := globals_of_evalAll hroom hreached
  obtain ⟨hlimits, hrange, hplain⟩ := anchored_of_evalAll hreached
  refine ⟨?_, fun {options program script} hc hgoal => ?_⟩
  · unfold Machine.GlobalsDisjoint
    rw [show m.heap.record m.realm.globalRecord = _ from hg]
    exact hdisjoint
  obtain ⟨analysed, start, made, ha, hstart, hmade, ⟨code, hspells, rfl, hplaced⟩, hunprotected⟩ :=
    Compile.script_begins hc hgoal
  have hscript : script.goal = .script := (Compile.compile_goal hc).trans hgoal
  refine ⟨analysed, code.length, ha, hstart, fun fuel => ?_, ?_⟩
  · unfold runCompiled
    rw [hscript]
    rfl
  have hahead : Ahead (m.scriptFrame script.template).code
      (Compile.globalActs analysed.program.body made) code 0 :=
    ⟨hspells, fun hi => by rw [Nat.zero_add]; exact hplaced hi, fun handler hm => by
      rw [Nat.zero_add]; exact hunprotected handler hm⟩
  have hpasses : ∀ check, m.passes check =
      m.heap.passes m.realm.globalObject lexical varNames check.2 check.1 := by
    intro check
    unfold Machine.passes
    rw [show m.heap.record m.realm.globalRecord = _ from hg]
  simp only [hpasses]
  obtain hfails | ⟨hall, rest, following, hrest, hend, hrun⟩ := Action.run_checks hahead rfl hg
  · exact .inl hfails
  · refine .inr ⟨hall, ?_⟩
    have hstaged := Machine.Staged.start hrange hplain hg
    obtain ⟨later, hlater, hcreate⟩ := Action.run_creations hrest rfl rfl (hlimits ▸ hroom) hplain
      hstaged (admits_creations hmade hall) (pairwise_creations hmade)
    refine ⟨later, instantiates_of_staged hmade hlater, fun fuel => ?_⟩
    rw [Nat.zero_add] at hend
    exact (hrun fuel).trans (hend ▸ hcreate fuel)

/-- A script that declares a lexical name, a function twice and a variable. -/
def declaring : Syntax.Program Unit where
  goal := .script
  imports := []
  body := [.declare ⟨.let_, [⟨"a", none⟩]⟩,
    .function ⟨(), some "f", [], .block [], false, false⟩,
    .function ⟨(), some "f", ["x"], .block [], false, true⟩,
    .declare ⟨.var, [⟨"b", none⟩]⟩]

theorem declaring_compiles : ∃ script, Compile.compile {} declaring = .ok script := by
  have h : (Compile.compile {} declaring).isOk = true := by decide +kernel
  cases hc : Compile.compile {} declaring with
  | ok script => exact ⟨script, rfl⟩
  | error refusal =>
    rw [hc] at h
    cases h

theorem declaring_passes : ∀ check ∈ (Scope.analyse declaring).toOption.elim []
    fun analysed => Compile.globalChecks analysed.program.body,
    (Machine.new {}).passes check = true := by decide +kernel

theorem Execution.evalAll_nil (m : Machine) :
    (evalAll 0 {} []).reached? m = some m := rfl

/-- On a new machine the script comes to its first statement. -/
theorem Execution.globals_instantiated_as_whole_declaring :
    1 ≤ ({} : Limits).stackSize ∧
    (evalAll 0 {} []).reached? (.new {}) = some (.new {}) ∧
    ∃ script analysed later, Compile.compile {} declaring = .ok script ∧
      Scope.analyse declaring = .ok analysed ∧
      (Machine.new {}).Instantiates (Compile.scriptContext {} analysed) analysed.program.body
        later := by
  have hroom : 1 ≤ ({} : Limits).stackSize := by decide
  obtain ⟨script, hs⟩ := declaring_compiles
  obtain ⟨analysed, start, ha, -, -, hcases⟩ :=
    (globals_instantiated_as_whole hroom (evalAll_nil _)).2 hs rfl
  refine ⟨hroom, evalAll_nil _, script, analysed, ?_⟩
  obtain ⟨check, hm, hp, -⟩ | ⟨-, later, hlater, -⟩ := hcases
  · have hpasses := declaring_passes
    rw [ha] at hpasses
    exact absurd (hp.symm.trans (hpasses check hm)) Bool.false_ne_true
  · exact ⟨later, hs, ha, hlater⟩

end Ecma
