/-
The declarations of a script as code. All checks come before the first change; the code stands in
front of the first statement, and nothing protects it.
-/
import Ecma.Proofs.TotalTree

namespace Ecma.Compile

open Code Syntax Scope

variable {α β : Type}

/-! ## Acts -/

/-- What is checked before a global name is declared. -/
inductive Check where
  | lexical
  | var
  | function
  | declarable

def Check.op : Check → Op
  | .lexical => .checkGlobalLexical
  | .var => .checkGlobalVar
  | .function => .checkGlobalFunction
  | .declarable => .checkGlobalVarDeclarable

/-- A step of the declarations of a script. -/
inductive GlobalAct where
  | check (check : Check) (name : String)
  | lexical (name : String) (constant : Bool)
  | function (name : String) (code : Template)
  | var (name : String)

/-- Instructions that do acts, with the tables that they refer to. -/
inductive Spells (constants : List Constant) (functions : List Template) :
    List GlobalAct → List Instruction → Prop
  | nil : Spells constants functions [] []
  | check {check name index acts code} : constants[index]? = some (.string name) →
    Spells constants functions acts code →
    Spells constants functions (.check check name :: acts) (⟨check.op, some (.name index)⟩ :: code)
  | lexical {name constant index acts code} : constants[index]? = some (.string name) →
    Spells constants functions acts code →
    Spells constants functions (.lexical name constant :: acts)
      (⟨.createGlobalLexical, some (.binding index constant)⟩ :: code)
  | function {name template index place acts code} : functions[place]? = some template →
    constants[index]? = some (.string name) → Spells constants functions acts code →
    Spells constants functions (.function name template :: acts)
      (⟨.closure, some (.function place)⟩ ::
        ⟨.createGlobalFunction, some (.binding index false)⟩ :: code)
  | var {name index acts code} : constants[index]? = some (.string name) →
    Spells constants functions acts code →
    Spells constants functions (.var name :: acts)
      (⟨.createGlobalVar, some (.binding index false)⟩ :: code)

theorem getElem?_grown {whole items : List α} (h : items <+: whole) {index : Nat} {item : α}
    (hi : items[index]? = some item) : whole[index]? = some item := by
  obtain ⟨rest, rfl⟩ := h
  rw [List.getElem?_append_left (List.getElem?_eq_some_iff.mp hi).1, hi]

namespace Spells

variable {constants constants' : List Constant} {functions functions' : List Template}
  {acts later : List GlobalAct} {code rest : List Instruction}

theorem append (h : Spells constants functions acts code) (g : Spells constants functions later rest) :
    Spells constants functions (acts ++ later) (code ++ rest) := by
  induction h with
  | nil => exact g
  | check hn _ ih => exact .check hn ih
  | lexical hn _ ih => exact .lexical hn ih
  | function hf hn _ ih => exact .function hf hn ih
  | var hn _ ih => exact .var hn ih

/-- Tables may grow at their ends. -/
theorem grow (h : Spells constants functions acts code) (hc : constants <+: constants')
    (hf : functions <+: functions') : Spells constants' functions' acts code := by
  induction h with
  | nil => exact .nil
  | check hn _ ih => exact .check (getElem?_grown hc hn) ih
  | lexical hn _ ih => exact .lexical (getElem?_grown hc hn) ih
  | function hp hn _ ih => exact .function (getElem?_grown hf hp) (getElem?_grown hc hn) ih
  | var hn _ ih => exact .var (getElem?_grown hc hn) ih

/-- No act jumps. -/
theorem toward_eq (h : Spells constants functions acts code) {instr : Instruction}
    (hm : instr ∈ code) (target : Label → Nat) : toward target instr = instr := by
  induction h with
  | nil => cases hm
  | check _ _ ih | lexical _ _ ih | var _ _ ih =>
    obtain rfl | hm := List.mem_cons.mp hm
    · rfl
    · exact ih hm
  | function _ _ _ ih =>
    obtain rfl | hm := List.mem_cons.mp hm
    · rfl
    · obtain rfl | hm := List.mem_cons.mp hm
      · rfl
      · exact ih hm

end Spells

/-! ## Making declarations -/

/-- An emitter that has made the code of acts only. -/
structure Emitter.Tells (em : Emitter) (acts : List GlobalAct) : Prop where
  code : Spells em.draft.constants.toList em.draft.functions.toList acts
    em.draft.instructions.toList
  handlers : em.draft.handlers = #[]
  control : em.control = []

/-- Code making that adds acts. -/
structure Declares (ctx : Context) (code : Emit α) (post : List GlobalAct → Prop) : Prop where
  tells : ∀ {em a later before}, em.Tells before →
    code ctx em = .ok (a, later) → ∃ acts, post acts ∧ later.Tells (before ++ acts)

/-- An emitter with one more instruction and perhaps one more name. -/
structure Emitter.Names (em : Emitter) (name : String) (instr : Nat → Instruction)
    (later : Emitter) (index : Nat) : Prop where
  name : later.draft.constants.toList[index]? = some (.string name)
  constants : em.draft.constants.toList <+: later.draft.constants.toList
  functions : later.draft.functions = em.draft.functions
  instructions : later.draft.instructions.toList =
    em.draft.instructions.toList ++ [instr index]
  handlers : later.draft.handlers = em.draft.handlers
  control : later.control = em.control

theorem named_ok {ctx : Context} {em later : Emitter} {name : String} {op : Op}
    {operand : Nat → Operand} {a : Unit}
    (h : (onDraft (fun draft => draft.addName name) >>= fun index =>
      opWith op (operand index)) ctx em = .ok (a, later)) :
    ∃ index, em.Names name (fun index => ⟨op, some (operand index)⟩) later index := by
  obtain ⟨index, middle, hm, h⟩ := bind_ok.mp h
  obtain ⟨rfl, rfl⟩ := onDraft_ok.mp hm
  obtain rfl := opWith_ok.mp h
  have henters := Enters.addName name
  have hstill := henters.still em
  have hstores := henters.stores em
  refine ⟨_, Array.getElem?_toList.trans (henters.found em.draft), hstill.constants,
    hstores.functions, ?_, hstores.handlers, rfl⟩
  have hinstructions : (em.draft.addName name).2.instructions = em.draft.instructions :=
    hstill.instructions
  simp only [Emitter.emit, Draft.emit, Array.toList_push, hinstructions]

namespace Declares

variable {ctx : Context} {first second post : List GlobalAct → Prop} {x : Emit α} {f : α → Emit β}

theorem bind (hx : Declares ctx x first) (hf : ∀ a, Declares ctx (f a) second)
    (h : ∀ {acts later}, first acts → second later → post (acts ++ later)) :
    Declares ctx (x >>= f) post := by
  refine ⟨fun {em b later before} ht he => ?_⟩
  obtain ⟨a, middle, hm, he⟩ := bind_ok.mp he
  obtain ⟨acts, hd, ht⟩ := hx.tells ht hm
  obtain ⟨rest, hr, ht⟩ := (hf a).tells ht he
  refine ⟨acts ++ rest, h hd hr, ?_⟩
  rwa [← List.append_assoc]

/-- Known acts come first. -/
theorem step {acts : List GlobalAct} (hx : Declares ctx x (· = acts))
    (hf : ∀ a, Declares ctx (f a) fun rest => post (acts ++ rest)) :
    Declares ctx (x >>= f) post :=
  hx.bind hf fun hd hr => hd ▸ hr

theorem pure {a : α} (h : post []) : Declares ctx (Pure.pure a : Emit α) post := by
  refine ⟨fun {em b later before} ht he => ?_⟩
  obtain ⟨-, rfl⟩ := pure_ok.mp he
  exact ⟨[], h, by rwa [List.append_nil]⟩

/-- A act of one instruction, with the index of a name. -/
theorem named {op : Op} {name : String} {operand : Nat → Operand} {act : GlobalAct}
    (h : ∀ {constants functions index}, constants[index]? = some (.string name) →
      Spells constants functions [act] [⟨op, some (operand index)⟩]) :
    Declares ctx (onDraft (fun draft => draft.addName name) >>= fun index =>
      opWith op (operand index)) (· = [act]) := by
  refine ⟨fun {em a later before} ht he => ?_⟩
  obtain ⟨index, hn⟩ := named_ok he
  refine ⟨_, rfl, ?_, hn.handlers.trans ht.handlers, hn.control.trans ht.control⟩
  rw [hn.instructions, hn.functions]
  exact (ht.code.grow hn.constants List.prefix_rfl).append (h hn.name)

theorem forM {items : List β} {f : β → Emit PUnit} {related : β → GlobalAct → Prop}
    (h : ∀ item ∈ items, Declares ctx (f item) fun acts =>
      ∃ act, related item act ∧ acts = [act]) :
    Declares ctx (items.forM f) (List.Forall₂ related items) := by
  induction items with
  | nil => exact pure .nil
  | cons item rest ih =>
    refine (h item (List.mem_cons_self ..)).bind (fun _ => ih fun item hm =>
      h item (List.mem_cons_of_mem _ hm)) ?_
    rintro _ later ⟨act, hd, rfl⟩ hl
    exact .cons hd hl

theorem loop {items : List β} {f : β → Emit PUnit} {act : β → GlobalAct}
    (h : ∀ item, Declares ctx (f item) (· = [act item])) :
    Declares ctx (forIn items PUnit.unit fun item _ => do
      f item
      Pure.pure (ForInStep.yield PUnit.unit)) (· = items.map act) := by
  induction items with
  | nil => exact pure rfl
  | cons item rest ih =>
    rw [List.forIn_cons]
    simp only [bind_assoc, pure_bind]
    refine (h item).bind (fun _ => ih) ?_
    rintro _ _ rfl rfl
    rfl

/-- A function that is made and declared. -/
theorem function {strict : Prop} {name : String} {make : Emit Template}
    (hm : YieldsCode strict ctx make) :
    Declares ctx (do
      pushClosure (← make)
      opBinding .createGlobalFunction name false) fun acts => ∃ act,
        (∃ code em, make ctx em = .ok (code, em) ∧ act = .function name code) ∧
          acts = [act] := by
  refine ⟨fun {em a later before} ht he => ?_⟩
  obtain ⟨code, made, hmade, hrest⟩ := bind_ok.mp he
  obtain rfl : made = em := by
    obtain ⟨template, -, hc⟩ | ⟨-, error, hc⟩ := @hm.yields em
    · rw [hmade] at hc
      cases hc
      rfl
    · rw [hmade] at hc
      cases hc
  refine ⟨_, ⟨_, ⟨code, made, hmade, rfl⟩, rfl⟩, ?_⟩
  obtain ⟨⟨⟩, pushed, hp, hrest⟩ := bind_ok.mp hrest
  obtain ⟨place, added, ha, hp⟩ := bind_ok.mp hp
  obtain ⟨rfl, rfl⟩ := onDraft_ok.mp ha
  obtain rfl := opWith_ok.mp hp
  obtain ⟨index, hn⟩ := named_ok hrest
  refine ⟨?_, hn.handlers.trans ht.handlers, hn.control.trans ht.control⟩
  rw [hn.instructions, hn.functions]
  simp only [Emitter.emit, Draft.emit, Draft.addFunction, Array.toList_push, List.append_assoc]
  refine (ht.code.grow hn.constants (List.prefix_append ..)).append ?_
  exact .function (by simp) hn.name .nil

end Declares

/-! ## Scripts -/

/-- The checks of the declarations of a script. -/
def globalChecks (body : List (Stmt (Option ScopeId))) : List (Check × String) :=
  (lexicalsDeclared body).map (fun lexical => (.lexical, lexical.name)) ++
    ((varDeclared body ++ functionNamesOf body).map (fun name => (.var, name)) ++
    ((functionNames body).map (fun name => (.function, name)) ++
    (plainVars body).map (fun name => (.declarable, name))))

/-- What a script creates before its first statement, with the acts of its functions. -/
def globalCreations (body : List (Stmt (Option ScopeId))) (functions : List GlobalAct) :
    List GlobalAct :=
  (lexicalsDeclared body).map (fun lexical => .lexical lexical.name (lexical.kind == .const)) ++
    (functions ++ (plainVars body).map .var)

/-- The acts that declare the names of a script. -/
def globalActs (body : List (Stmt (Option ScopeId))) (functions : List GlobalAct) : List GlobalAct :=
  (globalChecks body).map (fun check => .check check.1 check.2) ++ globalCreations body functions

/-- A act declares a function with the code that is made for it. -/
def DeclaresMade (ctx : Context) (function : String × Emit Template) (act : GlobalAct) : Prop :=
  ∃ code em, function.2 ctx em = .ok (code, em) ∧ act = .function function.1 code

theorem declareGlobals_declares {strict : Prop} {ctx : Context}
    {body : List (Stmt (Option ScopeId))} {functions : List (String × Emit Template)}
    (h : ∀ function ∈ functions, YieldsCode strict ctx function.2) :
    Declares ctx (declareGlobals body (hoistGlobal functions)) fun acts => ∃ made,
      List.Forall₂ (DeclaresMade ctx) (declaredFunctions functions) made ∧
        acts = globalActs body made := by
  unfold declareGlobals
  dsimp only
  have hcheck : ∀ check name, Declares ctx (opName (Check.op check) name)
      (· = [.check check name]) := fun check name => .named fun hn => .check hn .nil
  refine .step (.loop fun _ => hcheck .lexical _) fun _ => ?_
  refine .step (.loop fun _ => hcheck .var _) fun _ => ?_
  refine .step (.loop fun _ => hcheck .function _) fun _ => ?_
  refine .step (.loop fun _ => hcheck .declarable _) fun _ => ?_
  refine .step (.loop fun lexical => .named fun hn => .lexical hn .nil) fun _ => ?_
  have hdone : Declares ctx (pure () : Emit Unit) (· = []) := .pure rfl
  have hvars : Declares ctx (forIn (plainVars body) PUnit.unit (fun name _ => do
      opBinding .createGlobalVar name false
      pure (ForInStep.yield PUnit.unit)) >>= fun _ => pure ())
      (· = (plainVars body).map .var) := by
    refine .bind (.loop fun name => .named fun hn => .var hn .nil) (fun _ => hdone) ?_
    rintro _ _ rfl rfl
    exact List.append_nil _
  refine .bind (.forM fun function hm => .function (h function (mem_declaredFunctions hm)))
    (fun _ => hvars) ?_
  rintro made _ hmade rfl
  refine ⟨made, hmade, ?_⟩
  simp [globalActs, globalChecks, globalCreations, functionNamesOf, Function.comp_def]

/-- The declared functions have the declared names, each once. -/
theorem function?_names : (statement : Stmt (Option ScopeId)) →
    (function? statement).map Prod.fst = ((functionOf? statement).bind Func.name).toList
  | .function ⟨_, some _, _, _, _, _⟩ => rfl
  | .function ⟨_, none, _, _, _, _⟩ => rfl
  | .labelled _ body => by
    rw [function?]
    exact function?_names body
  | .declare _ | .expression _ | .block _ | .ifElse _ _ _ | .switchOn _ _ _ | .whileDo _ _
  | .doWhile _ _ | .forLoop _ _ _ _ _ | .forIn _ _ _ _ | .forOf _ _ _ _ | .returnValue _
  | .breakTo _ | .continueTo _ | .throwValue _ | .tryBlock _ _ _ | .withObject _ _ _ | .debugger
  | .empty => rfl

theorem functions_map_fst (body : List (Stmt (Option ScopeId))) :
    (functions body).map Prod.fst = functionNamesOf body := by
  induction body with
  | nil => rfl
  | cons statement rest ih =>
    rw [functions, List.map_append, ih, function?_names]
    unfold functionNamesOf functionsDeclared
    rw [List.filterMap_cons]
    cases functionOf? statement with
    | none => rfl
    | some function => cases hn : function.name <;> simp [hn]

theorem mem_functionNames {body : List (Stmt (Option ScopeId))} {name : String} :
    name ∈ functionNames body ↔ name ∈ (functions body).map Prod.fst := by
  rw [functions_map_fst, functionNames, List.mem_eraseDups, List.mem_reverse]
  rfl

/-- A function is added to those that are kept unless there is one with its name. -/
theorem keep_spec {kept before : List (String × Emit Template)} (hn : (kept.map Prod.fst).Nodup)
    (hl : ∀ name, kept.lookup name = before.lookup name) (fn : String × Emit Template) :
    ((if kept.any (·.1 == fn.1) then kept else kept ++ [fn]).map Prod.fst).Nodup ∧ ∀ name,
      (if kept.any (·.1 == fn.1) then kept else kept ++ [fn]).lookup name =
        (before ++ [fn]).lookup name := by
  split
  · next hany =>
    refine ⟨hn, fun name => ?_⟩
    rw [List.lookup_append, ← hl]
    by_cases hname : name = fn.1
    · have hfound : (kept.lookup name).isSome = true := by
        obtain ⟨found, hm, he⟩ := List.any_eq_true.mp hany
        exact List.lookup_isSome_iff.mpr ⟨found, hm, by rw [hname]; exact BEq.comm.trans he⟩
      obtain ⟨make, hmake⟩ := Option.isSome_iff_exists.mp hfound
      rw [hmake]
      rfl
    · rw [List.lookup_cons, beq_eq_false_iff_ne.mpr hname]
      exact (Option.or_none).symm
  · next hnone =>
    refine ⟨?_, fun name => by rw [List.lookup_append, List.lookup_append, hl]⟩
    rw [List.map_append, List.nodup_append]
    refine ⟨hn, by simp, fun first hf second hs he => hnone ?_⟩
    obtain ⟨found, hm, rfl⟩ := List.mem_map.mp hf
    cases List.mem_singleton.mp hs
    exact List.any_eq_true.mpr ⟨found, hm, beq_iff_eq.mpr he⟩

theorem foldl_keep_spec (items : List (String × Emit Template)) :
    ∀ {kept before : List (String × Emit Template)}, (kept.map Prod.fst).Nodup →
      (∀ name, kept.lookup name = before.lookup name) →
      ((items.foldl (fun kept fn => if kept.any (·.1 == fn.1) then kept else kept ++ [fn])
        kept).map Prod.fst).Nodup ∧ ∀ name,
      (items.foldl (fun kept fn => if kept.any (·.1 == fn.1) then kept else kept ++ [fn])
        kept).lookup name = (before ++ items).lookup name := by
  induction items with
  | nil =>
    intro kept before hn hl
    exact ⟨hn, by rwa [List.append_nil]⟩
  | cons fn items ih =>
    intro kept before hn hl
    rw [List.append_cons, List.foldl_cons]
    obtain ⟨hn, hl⟩ := keep_spec hn hl fn
    exact ih hn hl

/-- Of functions with one name the last one is declared, and once. -/
theorem declaredFunctions_spec (fns : List (String × Emit Template)) :
    ((declaredFunctions fns).map Prod.fst).Nodup ∧
      ∀ name, (declaredFunctions fns).lookup name = fns.reverse.lookup name :=
  @foldl_keep_spec fns.reverse [] [] List.nodup_nil fun _ => rfl

/-- The context of the code of a script. -/
def scriptContext (options : Options) (analysed : Analysed) : Context where
  scopes := analysed.scopes
  options
  kind := .script
  strict := (analysed.scopes.scope 0).strict
  scope := 0

/-- Where the first statement of a script begins, behind its declarations. -/
def bodyStart (options : Options) (analysed : Analysed) : Except CompileError Nat := do
  let body := analysed.program.body
  let ((), em) ← declareGlobals body (hoistGlobal (functions body))
    (scriptContext options analysed) {}
  return em.draft.position

/-- Code in front of which acts are done, and nothing protects them. -/
structure BeginsWith (template : Template) (acts : List GlobalAct) (count : Nat) : Prop where
  code : ∃ code, Spells template.constants.toList template.functions acts code ∧
    code.length = count ∧ ∀ {index : Nat} {instr}, code[index]? = some instr →
      template.instructions[index]? = some instr
  unprotected : ∀ handler ∈ template.handlers, count ≤ handler.start

theorem compile_goal {options : Options} {program : Program Unit} {script : Script}
    (h : compile options program = .ok script) : script.goal = program.goal := by
  unfold compile at h
  split at h
  · cases h
  split at h <;> cases h
  rfl

/-- A compiled script begins with its declarations. -/
theorem script_begins {options : Options} {program : Program Unit} {script : Script}
    (h : compile options program = .ok script) (hg : program.goal = .script) :
    ∃ analysed count made, analyse program = .ok analysed ∧ bodyStart options analysed = .ok count ∧
      List.Forall₂ (DeclaresMade (scriptContext options analysed))
        (declaredFunctions (functions analysed.program.body)) made ∧
      BeginsWith script.template (globalActs analysed.program.body made) count := by
  unfold compile at h
  split at h
  · cases h
  next analysed ha =>
  split at h
  · cases h
  next template ht =>
  cases h
  have houses := analyse_houses ha
  unfold Compile.template at ht
  dsimp only at ht
  rw [houses.goal, hg] at ht
  change compileUnit (scriptContext options analysed) _ _ _ = _ at ht
  obtain ⟨em, hcode, hfinish⟩ := compileUnit_ok ht
  obtain ⟨⟨⟩, declared, hdeclared, hrest⟩ := bind_ok.mp hcode
  have hclear : Clear False true (stmtsDefects {} analysed.program.body) := False.elim
  have hbinds : ∀ lexical ∈ lexicalsDeclared analysed.program.body,
      (scriptContext options analysed).Binds lexical.name :=
    fun lexical _ => ⟨houses.root, .inl (houses.script hg)⟩
  have hyield := @functions_yield False {} (scriptContext options analysed) _ houses.housed hclear
  have hnone : ({} : Emitter).Tells [] := ⟨.nil, rfl, rfl⟩
  obtain ⟨acts, ⟨made, hmade, rfl⟩, htells⟩ := (declareGlobals_declares hyield).tells
    hnone hdeclared
  have hnone : Draft.spans declared.draft = [] := by
    unfold Draft.spans
    rw [htells.handlers]
    rfl
  have hl := (scriptStatements_obeys houses.housed hclear hbinds).kept
    (congrArg (List.map Control.hull) htells.control) hrest
  obtain ⟨-, hconstants, hfunctions, -, hat⟩ := finish_made hfinish
  have hgrown : Spells template.constants.toList template.functions
      (globalActs analysed.program.body made) declared.draft.instructions.toList := by
    obtain ⟨more, hmore, -⟩ := hl.functions
    rw [hconstants, hfunctions, hmore]
    exact htells.code.grow hl.constants (List.prefix_append ..)
  refine ⟨analysed, declared.draft.position, made, ha, ?_, hmade,
    ⟨_, hgrown, Array.length_toList, fun {index instr} hi => ?_⟩,
    finish_unprotected hnone hl hfinish⟩
  · unfold bodyStart
    dsimp only
    rw [hdeclared]
    rfl
  · obtain ⟨target, ht⟩ := hat (getElem?_grown hl.instructions hi)
    rw [ht, htells.code.toward_eq (List.mem_of_getElem? hi)]

end Ecma.Compile
