/-
Code is made for every program without defects. The recursion follows the tree: what stands
around a node in the tree stands around its code, every node that opens a scope has it, and that
scope holds the names that the code looks up.
-/
import Ecma.Proofs.Prologue

namespace Ecma.Compile

open Code (FunctionKind)
open Syntax
open Scope (housedExpr housedExpr? housedExprs housedElements housedProperties housedFunc
  housedBody housedDeclarators housedDeclaration housedBlock housedCases housedCatch? housedHead
  housedHead? housedStmt housedStmt? housedStmts Opened functionNamesOf bodyNames blockNames
  headNames lexicalsOf lexicalsOfStmt lexicalsDeclared blockDeclared Lexical)

/-! ## Nesting -/

/-- What the kind of a function says of the surroundings in it. -/
structure FitsKind (around : Nesting) (kind : FunctionKind) : Prop where
  function : around.inFunction = true → kind ≠ .script ∧ kind ≠ .module
  generator : around.inGenerator = true → kind = .generator
  async : around.inAsync = true → kind.isAsync = true

/-- Nesting in the tree and constructs around the code: whatever an exit looks for is there. -/
structure Fits (around : Nesting) (kind : FunctionKind) (hulls : List Hull) : Prop extends
    FitsKind around kind where
  breaks : ∀ label, around.takesBreak label = true → hulls.any (Hull.endsAt label) = true
  continues : ∀ label, around.takesContinue label = true → hulls.any (Hull.continuesAt label) = true

theorem functionKind_fits {arrow isAsync isGenerator kind}
    (h : functionKind arrow isAsync isGenerator = .ok kind) :
    Fits (.ofFunction arrow isAsync isGenerator) kind [] := by
  have outside : ∀ label, (Nesting.ofFunction arrow isAsync isGenerator).takesBreak label = true →
      ([] : List Hull).any (Hull.endsAt label) = true := fun label h => by cases label <;> cases h
  have outside' : ∀ label,
      (Nesting.ofFunction arrow isAsync isGenerator).takesContinue label = true →
      ([] : List Hull).any (Hull.continuesAt label) = true :=
    fun label h => by cases label <;> cases h
  cases arrow <;> cases isAsync <;> cases isGenerator <;> cases h <;>
    exact ⟨⟨fun _ => by decide, by decide, by decide⟩, outside, outside'⟩

theorem functionKind_ok {arrow isAsync isGenerator} (h : (!(isAsync && isGenerator)) = true) :
    ∃ kind, functionKind arrow isAsync isGenerator = .ok kind := by
  cases arrow <;> cases isAsync <;> cases isGenerator <;>
    first
    | exact ⟨_, rfl⟩
    | cases h

namespace Fits

variable {around : Nesting} {kind : FunctionKind} {hulls : List Hull} {labels : List String}

/-- More may stand around the code. -/
theorem cons (h : Fits around kind hulls) (hull : Hull) : Fits around kind (hull :: hulls) where
  toFitsKind := h.toFitsKind
  breaks label hl := by rw [List.any_cons, h.breaks label hl, Bool.or_true]
  continues label hl := by rw [List.any_cons, h.continues label hl, Bool.or_true]

/-- Before its construct is entered, a statement stands behind its labels. -/
theorem unlabelled (h : Fits around kind (.jumps [] false false :: hulls)) :
    Fits around kind hulls where
  toFitsKind := h.toFitsKind
  breaks label hl := by
    have := h.breaks label hl
    cases label <;> exact this
  continues label hl := h.continues label hl

theorem bare {takes : Bool} (h : Fits around kind (.jumps labels false false :: hulls))
    (hl : takes = true ∨ labels = []) (ht : takes = false) : Fits around kind hulls := by
  obtain rfl | rfl := hl
  · cases ht
  · exact h.unlabelled

theorem labelled (h : Fits around kind (.jumps labels false false :: hulls)) (label : String) :
    Fits (around.labelled label) kind (.jumps (labels ++ [label]) false false :: hulls) where
  toFitsKind := ⟨h.function, h.generator, h.async⟩
  breaks
    | none, hl => h.breaks none hl
    | some found, hl => by
      have hl : (label :: around.labels).contains found = true := hl
      rw [List.contains_cons, Bool.or_eq_true, beq_iff_eq] at hl
      obtain rfl | hl := hl
      · simp [Hull.endsAt]
      · have := h.breaks (some found) hl
        simp only [List.any_cons, Hull.endsAt, Bool.or_eq_true] at this ⊢
        refine this.imp_left fun h => ?_
        simp only [List.contains_eq_mem, decide_eq_true_eq, List.mem_append] at h ⊢
        exact .inl h
  continues label hl := h.continues label hl

theorem loop (h : Fits around kind (.jumps labels false false :: hulls)) :
    Fits (around.loop labels) kind (.jumps labels true true :: hulls) where
  toFitsKind := ⟨h.function, h.generator, h.async⟩
  breaks
    | none, _ => rfl
    | some label, hl => h.breaks (some label) hl
  continues
    | none, _ => rfl
    | some label, hl => by
      have hl : (labels ++ around.loopLabels).contains label = true := hl
      simp only [List.contains_eq_mem, decide_eq_true_eq, List.mem_append] at hl
      simp only [List.any_cons, Hull.continuesAt, Bool.or_eq_true, Bool.true_and,
        List.contains_eq_mem, decide_eq_true_eq]
      exact hl.imp_right fun hl => h.continues (some label) (List.elem_eq_true_of_mem hl)

theorem closing (h : Fits around kind (.jumps labels false false :: hulls)) :
    Fits around kind (.jumps labels false false :: .closing :: hulls) where
  toFitsKind := h.toFitsKind
  breaks label hl := h.breaks label hl
  continues label hl := h.continues label hl

theorem switch (h : Fits around kind hulls) :
    Fits around.switch kind (.jumps [] true false :: hulls) where
  toFitsKind := ⟨h.function, h.generator, h.async⟩
  breaks
    | none, _ => rfl
    | some label, hl => h.breaks (some label) hl
  continues label hl := h.continues label hl

end Fits

/-! ## Names in scope -/

theorem functions_blockNames {statements} :
    ∀ function ∈ functions statements, function.1 ∈ blockNames statements := by
  intro function hm
  have hn := functions_names statements function hm
  obtain ⟨declared, hd, hname⟩ := List.mem_filterMap.mp hn
  obtain ⟨statement, hs, hf⟩ := List.mem_filterMap.mp hd
  refine List.mem_map.mpr ⟨⟨function.1, .function⟩, List.mem_flatMap.mpr ⟨statement, hs, ?_⟩, rfl⟩
  refine List.mem_append_right _ (Option.mem_toList.mpr ?_)
  simp [Scope.functionLexical?, hf, hname]

theorem lexicals_blockNames {statements} :
    ∀ lexical ∈ lexicalsDeclared statements, lexical.name ∈ blockNames statements := by
  intro lexical hm
  obtain ⟨statement, hs, hl⟩ := List.mem_flatMap.mp hm
  exact List.mem_map_of_mem (List.mem_flatMap.mpr ⟨statement, hs, List.mem_append_left _ hl⟩)

theorem blockNames_append (first second : List (Stmt (Option ScopeId))) :
    blockNames (first ++ second) = blockNames first ++ blockNames second := by
  simp [blockNames, blockDeclared]

theorem caseStatements_cons (clause : Case (Option ScopeId)) (rest : List (Case (Option ScopeId))) :
    caseStatements (clause :: rest) = clause.consequent ++ caseStatements rest :=
  rfl

theorem caseFunctions_blockNames : (cases : List (Case (Option ScopeId))) →
    ∀ function ∈ caseFunctions cases, function.1 ∈ blockNames (caseStatements cases)
  | [] => fun _ hm => nomatch hm
  | ⟨test, consequent⟩ :: rest => by
    rw [caseStatements_cons, blockNames_append]
    exact List.forall_mem_append.mpr
      ⟨fun function hm => List.mem_append_left _ (functions_blockNames function hm),
        fun function hm => List.mem_append_right _ (caseFunctions_blockNames rest function hm)⟩

theorem bodyFunctions_names {body function} (h : function ∈ bodyFunctions body)
    : function.1 ∈ bodyNames body := by
  cases body with
  | block body => exact List.mem_append_left _ (functions_names body function h)
  | expression _ => cases h

/-- Where the lexical names of a declaration are bound, each of its variables is. -/
theorem binds_declarators {ctx : Context} {kind : VariableKind}
    {declared : List (Declarator (Option ScopeId))}
    (h : ∀ lexical ∈ lexicalsOf ⟨kind, declared⟩, ctx.Binds lexical.name)
    (hk : kind.isLexical = true) : ∀ name ∈ declared.map Declarator.name, ctx.Binds name := by
  intro name hn
  obtain ⟨declarator, hm, rfl⟩ := List.mem_map.mp hn
  cases kind with
  | var => cases hk
  | let_ | const => exact h ⟨declarator.name, _⟩ (List.mem_map_of_mem hm)

/-! ## Absence of defects -/

/-- Where code has to be made, the tree was visited and has no defects. -/
def Clear (strict : Prop) (whole : Bool) (defects : List Defect) : Prop :=
  strict → whole = true ∧ defects = []

namespace Clear

variable {strict : Prop} {whole : Bool} {first second : List Defect}

theorem left (h : Clear strict whole (first ++ second)) : Clear strict whole first :=
  fun hs => ⟨(h hs).1, (List.append_eq_nil_iff.mp (h hs).2).1⟩

theorem right (h : Clear strict whole (first ++ second)) : Clear strict whole second :=
  fun hs => ⟨(h hs).1, (List.append_eq_nil_iff.mp (h hs).2).2⟩

theorem met {condition : Bool} {defect : Defect}
    (h : Clear strict whole (Defect.demand condition defect)) (hs : strict) : condition = true := by
  have h := (h hs).2
  cases condition with
  | true => rfl
  | false => cases h

/-- A name that is not computed was not visited. -/
theorem part {computed} (h : Clear strict whole first) (hc : computed = true ∨ ¬strict) :
    Clear strict (whole && computed) first := by
  refine fun hs => ⟨?_, (h hs).2⟩
  rw [(h hs).1, hc.resolve_right (not_not_intro hs)]
  rfl

end Clear

/-- Where a declaration may stand, its lexical names are bound. -/
theorem binds_listed {strict : Prop} {ctx : Context} {declared : Declaration (Option ScopeId)}
    {listed : Bool} (h : strict → (listed || !declared.kind.isLexical) = true)
    (hb : listed = true → ∀ lexical ∈ lexicalsOf declared, ctx.Binds lexical.name)
    (hs : strict) : ∀ lexical ∈ lexicalsOf declared, ctx.Binds lexical.name := by
  have h := h hs
  obtain ⟨kind, declared⟩ := declared
  cases listed with
  | true => exact hb rfl
  | false =>
    cases kind with
    | var => exact fun _ hm => nomatch hm
    | let_ => cases h
    | const => cases h

/-- Labels matter only to what takes them over. -/
theorem stmtDefects_unlabelled {around : Nesting} {labels : List String} {listed : Bool}
    {statement : Stmt (Option ScopeId)} (h : takesLabels statement = false) :
    stmtDefects around labels listed statement = stmtDefects around [] listed statement := by
  cases statement <;> first | rfl | cases h

theorem isTarget_parts {v} (h : v.isTarget = true) :
    (v.identifier?.isSome || (member? v).isSome) = true := by
  cases v <;> first | rfl | cases h

/-! ## Trees -/

mutual

theorem expr_obeys {order around ctx hulls whole} :
    {v : Expr (Option ScopeId)} → FitsKind around ctx.kind →
    housedExpr ctx.scopes whole v → Clear order.strict whole (exprDefects around v) →
    Obeys order ctx hulls (expr v)
  | .identifier _, _, _, _ => Obeys.resolve.bind fun _ => .pure
  | .literal _, _, _, _ => .literal
  | .template _ _, hk, h, hd => .templateForm (exprs_obeys hk h hd)
  | .this, _, _, _ => Obeys.op.bind fun _ => .pure
  | .array _, hk, h, hd => .arrayForm (elements_obeys hk h hd)
  | .object _, hk, h, hd => .objectForm (properties_obeys hk h hd)
  | .function _, _, h, hd | .arrow _, _, h, hd => .closureOf (func_yields h hd) .pure
  | .unary _ argument, hk, h, hd =>
    have h : housedExpr ctx.scopes whole argument := h
    have hd : Clear order.strict whole (exprDefects around argument) := hd
    .unaryForm (member?_obeys hk h hd) (expr_obeys hk h hd)
  | .update _ _ argument, hk, h, hd =>
    have h : housedExpr ctx.scopes whole argument := h
    .updateForm (member?_obeys hk h hd.right) fun hs => isTarget_parts (hd.left.met hs)
  | .binary _ _ _, hk, h, hd =>
    .binaryForm (expr_obeys hk h.1 hd.left) (expr_obeys hk h.2 hd.right)
  | .logical _ _ _, hk, h, hd =>
    have : Obeys order ctx hulls _ := expr_obeys hk h.1 hd.left
    have : Obeys order ctx hulls _ := expr_obeys hk h.2 hd.right
    .logical
  | .assign _ _ _, hk, h, hd =>
    have : Obeys order ctx hulls _ := expr_obeys hk h.2 hd.right
    .assignForm (member?_obeys hk h.1 hd.left.right)
      (fun hs => isTarget_parts (hd.left.left.met hs)) .storedOf
  | .conditional _ _ _, hk, h, hd =>
    have : Obeys order ctx hulls _ := expr_obeys hk h.1 hd.left.left
    have : Obeys order ctx hulls _ := expr_obeys hk h.2.1 hd.left.right
    have : Obeys order ctx hulls _ := expr_obeys hk h.2.2 hd.right
    .conditional
  | .call _ _, hk, h, hd =>
    (Obeys.callForm (.calleeForm (member?_obeys hk h.1 hd.left)
      (expr_obeys hk h.1 hd.left)) (exprs_obeys hk h.2 hd.right)).bind fun _ => .pure
  | .new _ _, hk, h, hd =>
    have : Obeys order ctx hulls _ := expr_obeys hk h.1 hd.left
    Obeys.storedOf.bind fun _ => (Obeys.pushArguments (exprs_obeys hk h.2 hd.right)).bind
      fun _ => Obeys.opWith.bind fun _ => .pure
  | .member obj property computed, hk, h, hd =>
    have : Obeys order ctx hulls _ := expr_obeys hk h.1 hd.left.right
    .memberOf .storedOf (Obeys.keyOf hd.left.left.met fun hc =>
      expr_obeys hk h.2 (hd.right.part hc))
  | .sequence _, hk, h, hd => .sequenceForm (exprs_obeys hk h hd)
  | .yield argument _, hk, h, hd =>
    .yieldForm (fun hs => hk.generator (hd.left.left.met hs)) (by
        have := hd.left.right.met
        cases argument <;> exact this)
      (.values (expr?_obeys hk h hd.right))
  | .await argument, hk, h, hd =>
    have h : housedExpr ctx.scopes whole argument := h
    have : Obeys order ctx hulls _ := expr_obeys hk h hd.right
    .awaitForm (fun hs => hk.async (hd.left.met hs)) .storedOf

theorem member?_obeys {order around ctx hulls whole v} (hk : FitsKind around ctx.kind)
    (h : housedExpr ctx.scopes whole v) (hd : Clear order.strict whole (exprDefects around v)) :
    ObeysMember order ctx hulls (member? v) := by
  cases v with
  | member obj property computed =>
    have : Obeys order ctx hulls _ := expr_obeys hk h.1 hd.left.right
    rintro _ _ ⟨⟩
    exact ⟨.storedOf, Obeys.keyOf hd.left.left.met fun hc =>
      expr_obeys hk h.2 (hd.right.part hc)⟩
  | _ => nofun

theorem tailCall?_obeys {order around ctx hulls whole} {v : Expr (Option ScopeId)}
    (hk : FitsKind around ctx.kind) (h : housedExpr ctx.scopes whole v)
    (hd : Clear order.strict whole (exprDefects around v)) :
    ∀ call ∈ tailCall? v, Obeys order ctx hulls call := by
  cases v with
  | call =>
    rintro _ ⟨⟩
    exact .callForm (.calleeForm (member?_obeys hk h.1 hd.left)
      (expr_obeys hk h.1 hd.left)) (exprs_obeys hk h.2 hd.right)
  | _ => nofun

theorem expr?_obeys {order around ctx hulls whole} :
    {v : Option (Expr (Option ScopeId))} → FitsKind around ctx.kind →
    housedExpr? ctx.scopes whole v → Clear order.strict whole (exprDefects? around v) →
    ∀ code ∈ expr? v, Obeys order ctx hulls code
  | none, _, _, _ => nofun
  | some _, hk, h, hd => by
    rintro _ ⟨⟩
    exact expr_obeys hk h hd

theorem exprs_obeys {order around ctx hulls whole} :
    {vs : List (Expr (Option ScopeId))} → FitsKind around ctx.kind →
    housedExprs ctx.scopes whole vs → Clear order.strict whole (exprsDefects around vs) →
    ∀ code ∈ exprs vs, Obeys order ctx hulls code
  | [], _, _, _ => nofun
  | _ :: _, hk, h, hd => List.forall_mem_cons.mpr
    ⟨expr_obeys hk h.1 hd.left, exprs_obeys hk h.2 hd.right⟩

theorem elements_obeys {order around ctx hulls whole} :
    {elements : List (Option (Expr (Option ScopeId)))} → FitsKind around ctx.kind →
    housedElements ctx.scopes whole elements → Clear order.strict whole
    (elementDefects around elements) →
    ∀ element ∈ exprs? elements, ∀ code ∈ element, Obeys order ctx hulls code
  | [], _, _, _ => nofun
  | _ :: _, hk, h, hd => List.forall_mem_cons.mpr
    ⟨expr?_obeys hk h.1 hd.left, elements_obeys hk h.2 hd.right⟩

theorem properties_obeys {order around ctx hulls whole} :
    {properties : List (Syntax.Property (Option ScopeId))} → FitsKind around ctx.kind →
    housedProperties ctx.scopes whole properties → Clear order.strict whole
    (propertyDefects around properties) →
    ∀ code ∈ propertyForms properties, Obeys order ctx hulls code
  | [], _, _, _ => nofun
  | ⟨_, _, true⟩ :: _, hk, h, hd =>
    have : Obeys order ctx hulls _ := expr_obeys hk h.1 (hd.left.left.right.part (.inl rfl))
    have : Obeys order ctx hulls _ := expr_obeys hk h.2.1 hd.left.right
    List.forall_mem_cons.mpr ⟨.seq, properties_obeys hk h.2.2 hd.right⟩
  | ⟨_, _, false⟩ :: _, hk, h, hd =>
    have : Obeys order ctx hulls _ := expr_obeys hk h.2.1 hd.left.right
    List.forall_mem_cons.mpr ⟨(Obeys.fixedKey hd.left.left.left.met).bind fun _ => .seq,
        properties_obeys hk h.2.2 hd.right⟩

theorem func_yields {strict ctx whole arrow} : {function : Func (Option ScopeId)} →
    housedFunc ctx.scopes whole arrow function →
    Clear strict whole (funcDefects arrow function) → YieldsCode strict ctx (func function)
  | ⟨none, _, _, _, _, _⟩, h, hd =>
    ⟨.inr ⟨fun hs => (nomatch h.1 (hd hs).1), _, rfl⟩⟩
  | ⟨some id, name, params, body, isAsync, isGenerator⟩, h, hd => by
    obtain ⟨hopens, harrow, hbody⟩ := h.2 id rfl
    have hbodyClear : Clear strict true
      (bodyDefects (.ofFunction arrow isAsync isGenerator) body) :=
      fun hs => ⟨rfl, (hd.right hs).2⟩
    have hpaced : PacedTemplate ctx.alone
        (func ⟨some id, name, params, body, isAsync, isGenerator⟩) := func_paced h
    refine functionForm_yields (fun hs => functionKind_ok (hd.left.met hs))
      (fun _ em hmade => .inl ⟨⟨some id, name, params, body, isAsync, isGenerator⟩, ctx, em, rfl, hmade⟩)
      hpaced
      (fun name hn => hopens.declares name (List.mem_append_left _ hn))
      (fun _ => bodyFunctions_yield hbody hbodyClear)
      (fun function hm => hopens.declares _ (List.mem_append_right _ (bodyFunctions_names hm)))
      fun kind hkind => ?_
    rw [harrow] at hkind
    exact bodyCode_obeys (fun _ => Order.ofBody_admits) (functionKind_fits hkind) hbody hbodyClear
      fun name hn => ⟨hopens.inside, .inr (hopens.declares name (List.mem_append_right _ hn))⟩

theorem bodyFunctions_yield {strict around ctx} :
    {body : Body (Option ScopeId)} → housedBody ctx.scopes body →
    Clear strict true (bodyDefects around body) →
    ∀ function ∈ bodyFunctions body, YieldsCode strict ctx function.2
  | .block _, h, hd => functions_yield h hd
  | .expression _, _, _ => nofun

theorem bodyCode_obeys {order around ctx hulls} :
    {body : Body (Option ScopeId)} → (∀ part ∈ body.statements, order.Admits part) →
    Fits around ctx.kind hulls →
    housedBody ctx.scopes body → Clear order.strict true (bodyDefects around body) →
    (∀ name ∈ bodyNames body, ctx.Binds name) → Obeys order ctx hulls (bodyCode body)
  | .block _, ha, hf, h, hd, hb => .statementsBody (.inOrder (stmts_obeys ha hf h hd fun _ hl =>
    hb _ (List.mem_append_right _ (List.mem_map_of_mem hl))))
  | .expression v, _, hf, h, hd, _ =>
    have h : housedExpr ctx.scopes true v := h
    have hd : Clear order.strict true (exprDefects around v) := hd
    have : Obeys order ctx hulls _ := expr_obeys hf.toFitsKind h hd
    .returnOf .storedOf (tailCall?_obeys hf.toFitsKind h hd)

theorem functions_yield {strict around ctx} : {statements : List (Stmt (Option ScopeId))} →
    housedStmts ctx.scopes statements → Clear strict true (stmtsDefects around statements) →
    ∀ function ∈ functions statements, YieldsCode strict ctx function.2
  | [], _, _ => nofun
  | _ :: _, h, hd => List.forall_mem_append.mpr
    ⟨function?_yields h.1 hd.left, functions_yield h.2 hd.right⟩

theorem function?_yields {strict around ctx labels listed statement}
    (h : housedStmt ctx.scopes statement)
    (hd : Clear strict true (stmtDefects around labels listed statement)) :
    ∀ function ∈ function? statement, YieldsCode strict ctx function.2 := by
  cases statement with
  | function function =>
    have hf : YieldsCode strict ctx (func function) := func_yields h hd
    obtain ⟨scope, name, params, body, isAsync, isGenerator⟩ := function
    cases name with
    | none => exact fun _ hm => nomatch hm
    | some name => exact List.forall_mem_singleton.mpr hf
  | labelled label body =>
    have h : housedStmt ctx.scopes body := h
    have hd : Clear strict true
      (stmtDefects (around.labelled label) (labels ++ [label]) false body) := hd
    rw [function?]
    exact function?_yields h hd
  | _ => nofun

theorem caseFunctions_yield {strict around ctx} : {cases : List (Case (Option ScopeId))} →
    housedCases ctx.scopes cases → Clear strict true (caseDefects around cases) →
    ∀ function ∈ caseFunctions cases, YieldsCode strict ctx function.2
  | [], _, _ => nofun
  | ⟨_, _⟩ :: _, h, hd => List.forall_mem_append.mpr
    ⟨functions_yield h.2.1 hd.left.right, caseFunctions_yield h.2.2 hd.right⟩

theorem clauses_obeys {order around ctx hulls} :
    {cases : List (Case (Option ScopeId))} →
    (∀ clause ∈ cases, ∀ part ∈ clause.consequent, order.Admits part) → Fits around ctx.kind hulls →
    housedCases ctx.scopes cases → Clear order.strict true (caseDefects around cases) →
    (∀ name ∈ blockNames (caseStatements cases), ctx.Binds name) →
    ∀ clause ∈ clauses cases, Obeys.OfClause order ctx hulls clause
  | [], _, _, _, _, _ => nofun
  | ⟨_, consequent⟩ :: rest, ha, hf, h, hd, hb => by
    rw [List.forall_mem_cons] at ha
    rw [caseStatements_cons, blockNames_append, List.forall_mem_append] at hb
    exact List.forall_mem_cons.mpr ⟨⟨.values (expr?_obeys hf.toFitsKind h.1 hd.left.left),
        .inOrder (stmts_obeys ha.1 hf h.2.1 hd.left.right fun lexical hl =>
          hb.1 _ (lexicals_blockNames lexical hl))⟩,
        clauses_obeys ha.2 hf h.2.2 hd.right hb.2⟩

theorem declarators_obeys {order around ctx hulls kind} :
    {declared : List (Declarator (Option ScopeId))} → FitsKind around ctx.kind →
    housedDeclarators ctx.scopes declared →
    Clear order.strict true (declaratorDefects around declared) →
    (order.strict → kind.isLexical = true → ∀ name ∈ declared.map Declarator.name, ctx.Binds name) →
    Obeys order ctx hulls (declarators kind declared)
  | [], _, _, _, _ => .pure
  | ⟨name, _⟩ :: _, hk, h, hd, hb =>
    (Obeys.declaratorForm (fun hs hl => hb hs hl name (.head _))
      (.values (expr?_obeys hk h.1 hd.left))).bind fun _ =>
        declarators_obeys hk h.2 hd.right fun hs hl name hn =>
          hb hs hl name (.tail _ hn)

theorem declaration_obeys {order around ctx hulls} :
    {declared : Declaration (Option ScopeId)} → FitsKind around ctx.kind →
    housedDeclaration ctx.scopes declared →
    Clear order.strict true (declarationDefects around declared) →
    (order.strict → ∀ lexical ∈ lexicalsOf declared, ctx.Binds lexical.name) →
    Obeys order ctx hulls (declaration declared)
  | ⟨_, _⟩, hk, h, hd, hb => declarators_obeys hk h hd fun hs => binds_declarators (hb hs)

theorem block_obeys {order around ctx hulls} :
    {body : Block (Option ScopeId)} → (∀ part ∈ body.body, order.Admits part) → Fits around ctx.kind hulls →
    housedBlock ctx.scopes body → Clear order.strict true (blockDefects around body) →
    Obeys order ctx hulls (block body)
  | ⟨_, body⟩, ha, hf, h, hd => by
    obtain ⟨⟨id, rfl, hopens⟩, h⟩ := h
    exact .blockForm (fun _ => functions_yield h hd)
      (fun function hm => hopens.declares _ (functions_blockNames function hm))
      fun _ => .inOrder (stmts_obeys ha hf h hd fun lexical hl =>
        ⟨hopens.inside, .inr (hopens.declares _ (lexicals_blockNames lexical hl))⟩)

theorem catch?_obeys {order around} {ctx : Context} {hulls} :
    {clause : Option (Catch (Option ScopeId))} →
    (∀ made ∈ clause, ∀ part ∈ made.body.body, order.Admits part) → Fits around ctx.kind hulls →
    housedCatch? ctx.scopes clause → Clear order.strict true (catchDefects? around clause) →
    ∀ code ∈ catch? clause, ∀ savedEnv depth,
      Obeys order { ctx with tryDepth := depth } hulls (code savedEnv)
  | none, _, _, _, _ => nofun
  | some ⟨_, _, _⟩, ha, hf, h, hd => by
    obtain ⟨⟨id, rfl, -⟩, h⟩ := h
    rintro _ ⟨⟩ savedEnv depth
    exact .catchForm fun _ => block_obeys (ha _ rfl) hf h hd

theorem headStart_obeys {order around ctx hulls} :
    {head : Option (Head (Option ScopeId))} → FitsKind around ctx.kind →
    housedHead? ctx.scopes head → Clear order.strict true (headDefects? around head) →
    (∀ name ∈ headNames head, ctx.Binds name) → Obeys order ctx hulls (headStart head)
  | none, _, _, _, _ => .pure
  | some (.declaration _), hk, h, hd, hb => declaration_obeys hk h hd fun _ _ hl =>
    hb _ (List.mem_map_of_mem hl)
  | some (.expression _), hk, h, hd, _ =>
    have : Obeys order ctx hulls _ := expr_obeys hk h hd
    .dropped

theorem headAssign_obeys {order around ctx hulls} :
    {head : Head (Option ScopeId)} → FitsKind around ctx.kind →
    housedHead ctx.scopes head → Clear order.strict true (eachDefects around head) →
    Obeys order ctx hulls (headAssign head)
  | .declaration ⟨_, []⟩, _, _, hd => .throw fun hs => nomatch hd.left.met hs
  | .declaration ⟨_, _ :: _⟩, _, _, _ => .storeName
  | .expression v, hk, h, hd =>
    have h : housedExpr ctx.scopes true v := h
    .assignFromStack (member?_obeys hk h hd.right) fun hs => isTarget_parts (hd.left.met hs)

theorem stmt_obeys {order around ctx hulls labels listed} : {statement : Stmt (Option ScopeId)} →
    order.Admits statement → Fits around ctx.kind (.jumps labels false false :: hulls) →
    (takesLabels statement = true ∨ labels = []) →
    housedStmt ctx.scopes statement → Clear order.strict true
    (stmtDefects around labels listed statement) →
    (listed = true → ∀ lexical ∈ lexicalsOfStmt statement, ctx.Binds lexical.name) →
    Obeys order ctx hulls (stmt statement labels)
  | .declare _, _, hf, _, h, hd, hb => (declaration_obeys hf.toFitsKind h hd.right
    (binds_listed hd.left.met hb)).bind fun _ => .pure
  | .function _, _, _, _, _, _, _ => .pure
  | .expression v, _, hf, _, h, hd, _ =>
    have h : housedExpr ctx.scopes true v := h
    have : Obeys order ctx hulls _ := expr_obeys hf.toFitsKind h hd
    .expressionForm .storedOf
  | .block _, ha, hf, hl, h, hd, _ => block_obeys (fun _ => ha.part) (hf.bare hl rfl) h hd
  | .ifElse _ _ _, ha, hf, hl, h, hd, _ =>
    have hf := hf.bare hl rfl
    have : Obeys order ctx hulls _ := expr_obeys hf.toFitsKind h.1 hd.left.left
    .ifForm .valueOf (stmt_obeys (ha.part (.head _)) (hf.cons _) (.inr rfl) h.2.1 hd.left.right nofun)
      (stmt?_obeys (fun _ hm => ha.part (.tail _ (Option.mem_toList.mpr hm))) hf h.2.2 hd.right)
  | .switchOn _ _ cases, ha, hf, hl, h, hd, _ => by
    obtain ⟨hdiscriminant, ⟨id, rfl, hopens⟩, hcases⟩ := h
    have : Obeys order ctx hulls _ := expr_obeys hf.toFitsKind hdiscriminant hd.left
    exact .switchForm .storedOf (fun _ => caseFunctions_yield hcases hd.right)
      (fun function hm => hopens.declares _ (caseFunctions_blockNames cases function hm))
      fun _ => clauses_obeys (fun _ hc _ hm => ha.part (List.mem_flatMap_of_mem hc hm))
        (hf.bare hl rfl).switch hcases hd.right fun name hn =>
        ⟨hopens.inside, .inr (hopens.declares name hn)⟩
  | .whileDo _ _, ha, hf, _, h, hd, _ =>
    .whileForm (.openTest (expr_obeys hf.toFitsKind h.1 hd.left))
      (stmt_obeys (ha.part (.head _)) (hf.loop.cons _) (.inr rfl) h.2 hd.right nofun)
  | .doWhile _ _, ha, hf, _, h, hd, _ =>
    .doWhileForm (.openTest (expr_obeys hf.toFitsKind h.2 hd.right))
      (stmt_obeys (ha.part (.head _)) (hf.loop.cons _) (.inr rfl) h.1 hd.left nofun)
  | .forLoop _ _ _ _ _, ha, hf, _, h, hd, _ => by
    obtain ⟨⟨id, rfl, hopens⟩, hinit, htest, hupdate, hbody⟩ := h
    exact .forForm (fun _ => headStart_obeys hf.toFitsKind hinit hd.left.left.left
        fun name hn => ⟨hopens.inside, .inr (hopens.declares name hn)⟩)
      (fun _ => openTest?_obeys hf.toFitsKind htest hd.left.left.right)
      (fun _ => .values (expr?_obeys hf.toFitsKind hupdate hd.left.right))
      fun _ => stmt_obeys (ha.part (.head _)) (hf.loop.cons _) (.inr rfl) hbody hd.right nofun
  | .forIn _ _ _ _, ha, hf, _, h, hd, _ => by
    obtain ⟨hright, ⟨id, rfl, -⟩, hleft, hbody⟩ := h
    have : Obeys order ctx hulls _ := expr_obeys hf.toFitsKind hright hd.left.right
    exact .forEachForm ha nofun .storedOf (fun _ => headAssign_obeys hf.toFitsKind hleft hd.left.left)
      fun _ => stmt_obeys (order.inside_admits (.head _)) (hf.loop.cons _) (.inr rfl) hbody hd.right nofun
  | .forOf _ _ _ _, ha, hf, _, h, hd, _ => by
    obtain ⟨hright, ⟨id, rfl, -⟩, hleft, hbody⟩ := h
    have : Obeys order ctx hulls _ := expr_obeys hf.toFitsKind hright hd.left.right
    exact .forEachForm ha (fun _ _ => trivial) .storedOf
      (fun _ => headAssign_obeys hf.toFitsKind hleft hd.left.left)
      fun _ => stmt_obeys (order.inside_admits (.head _)) (hf.closing.loop.cons _) (.inr rfl) hbody
        hd.right nofun
  | .returnValue none, _, hf, _, _, hd, _ => .returnForm (fun hs => hf.function (hd.left.met hs)) nofun
  | .returnValue (some argument), _, hf, _, h, hd, _ => by
    have h : housedExpr ctx.scopes true argument := h
    have : Obeys order ctx hulls _ := expr_obeys hf.toFitsKind h hd.right
    refine .returnForm (fun hs => hf.function (hd.left.met hs)) ?_
    rintro _ ⟨⟩
    exact .returnOf .storedOf (tailCall?_obeys hf.toFitsKind h hd.right)
  | .breakTo label, _, hf, hl, _, hd, _ =>
    (Obeys.breakTarget fun hs => (hf.bare hl rfl).breaks label (hd.met hs)).bind fun _ =>
      Obeys.exitTo.bind fun _ => .pure
  | .continueTo label, _, hf, hl, _, hd, _ =>
    (Obeys.continueTarget fun hs => (hf.bare hl rfl).continues label (hd.met hs)).bind fun _ =>
      Obeys.exitTo.bind fun _ => .pure
  | .throwValue argument, _, hf, _, h, hd, _ =>
    have h : housedExpr ctx.scopes true argument := h
    have : Obeys order ctx hulls _ := expr_obeys hf.toFitsKind h hd
    Obeys.storedOf.bind fun _ => Obeys.op.bind fun _ => .pure
  | .tryBlock body handler none, ha, hf, hl, h, hd, _ =>
    have hf := hf.bare hl rfl
    have hin := fun {part} => @Order.inside_admits order (.tryBlock body handler none) part
    .tryForm ha (fun hc => by
        cases handler with
        | none => cases hc
        | some => trivial) nofun
      (by
        have := hd.left.left.left.met
        rcases handler with _ | ⟨_, _, _⟩ <;> exact this)
      (fun _ => block_obeys (fun _ hm => hin (List.mem_append_left _ (List.mem_append_left _ hm))) hf h.1
        hd.left.left.right)
      (catch?_obeys (fun _ hc _ hm => hin (List.mem_append_left _ (List.mem_append_right _
        (List.mem_flatMap_of_mem (Option.mem_toList.mpr hc) hm)))) hf h.2.1 hd.left.right) nofun
  | .tryBlock body handler (some finalizer), ha, hf, hl, h, hd, _ =>
    have hf := hf.bare hl rfl
    have hguarded := hf.cons .finalizer
    have hfinalizer : Clear order.strict true (blockDefects around finalizer) := hd.right
    have hin := fun {part} => @Order.inside_admits order (.tryBlock body handler (some finalizer)) part
    .tryForm ha (fun hc => by
        cases handler with
        | none => cases hc
        | some => trivial)
      (by
        rintro - _ ⟨register, rfl | rfl⟩ <;> trivial)
      (fun _ => Bool.or_true _)
      (fun _ => block_obeys (fun _ hm => hin (List.mem_append_left _ (List.mem_append_left _ hm))) hguarded h.1
        hd.left.left.right)
      (catch?_obeys (fun _ hc _ hm => hin (List.mem_append_left _ (List.mem_append_right _
        (List.mem_flatMap_of_mem (Option.mem_toList.mpr hc) hm)))) hguarded h.2.1 hd.left.right)
      (by
        rintro _ ⟨⟩
        exact block_obeys (fun _ hm => hin (List.mem_append_right _ (List.mem_flatMap_of_mem (.head _) hm)))
          hf h.2.2 hfinalizer)
  | .withObject _ _ _, ha, hf, hl, h, hd, _ => by
    obtain ⟨hobject, ⟨id, rfl, -⟩, hbody⟩ := h
    have hf := hf.bare hl rfl
    have : Obeys order ctx hulls _ := expr_obeys hf.toFitsKind hobject hd.left
    exact .withForm .storedOf fun _ =>
      stmt_obeys (ha.part (.head _)) (hf.cons _) (.inr rfl) hbody hd.right nofun
  | .labelled label body, ha, hf, _, h, hd, _ => by
    have h : housedStmt ctx.scopes body := h
    have hd : Clear order.strict true
      (stmtDefects (around.labelled label) (labels ++ [label]) false body) := hd
    have hf := hf.labelled label
    rw [stmt]
    split
    case isTrue ht => exact stmt_obeys (ha.part (.head _)) hf (.inl ht) h hd nofun
    case isFalse ht =>
      rw [stmtDefects_unlabelled (Bool.eq_false_of_not_eq_true ht)] at hd
      exact .labelledForm (stmt_obeys (ha.part (.head _)) (hf.cons _) (.inr rfl) h hd nofun)
  | .debugger, _, _, _, _, _, _ => Obeys.op.bind fun _ => .pure
  | .empty, _, _, _, _, _, _ => .pure

theorem stmt?_obeys {order around ctx hulls} :
    {statement : Option (Stmt (Option ScopeId))} → (∀ part ∈ statement, order.Admits part) →
    Fits around ctx.kind hulls →
    housedStmt? ctx.scopes statement → Clear order.strict true (stmtDefects? around statement) →
    ∀ code ∈ stmt? statement, Obeys order ctx hulls code
  | none, _, _, _, _ => nofun
  | some _, ha, hf, h, hd => by
    rintro _ ⟨⟩
    exact stmt_obeys (ha _ rfl) (hf.cons _) (.inr rfl) h hd nofun

theorem openTest?_obeys {order around ctx hulls} :
    {test : Option (Expr (Option ScopeId))} → FitsKind around ctx.kind →
    housedExpr? ctx.scopes true test → Clear order.strict true (exprDefects? around test) →
    ∀ code ∈ openTest? test, Obeys order ctx hulls code
  | none, _, _, _ => nofun
  | some _, hk, h, hd => .openTest (expr_obeys hk h hd)

theorem stmts_obeys {order around ctx hulls} :
    {statements : List (Stmt (Option ScopeId))} → (∀ part ∈ statements, order.Admits part) →
    Fits around ctx.kind hulls →
    housedStmts ctx.scopes statements → Clear order.strict true (stmtsDefects around statements) →
    (∀ lexical ∈ lexicalsDeclared statements, ctx.Binds lexical.name) →
    ∀ code ∈ stmts statements, Obeys order ctx hulls code
  | [], _, _, _, _, _ => nofun
  | statement :: rest, ha, hf, h, hd, hb => by
    have hb : ∀ lexical ∈ lexicalsOfStmt statement ++ lexicalsDeclared rest,
      ctx.Binds lexical.name := hb
    rw [List.forall_mem_append] at hb
    exact List.forall_mem_cons.mpr ⟨stmt_obeys (ha _ (.head _)) (hf.cons _) (.inr rfl) h.1 hd.left
      fun _ => hb.1, stmts_obeys (fun part hm => ha part (.tail _ hm)) hf h.2 hd.right hb.2⟩

end

/-! ## Programs -/

theorem fits_program (kind : FunctionKind) : Fits {} kind [] where
  function := nofun
  generator := nofun
  async := nofun
  breaks label h := by cases label <;> cases h
  continues label h := by cases label <;> cases h

/-- The code of a script behind its declarations. -/
def scriptStatements (body : List (Stmt (Option ScopeId))) : Emit Unit := do
  let register ← newRegister
  let c ← fun ctx => inOrder (stmts body) { ctx with completion := some register }
  if !c.isAbrupt then
    opRegister .loadReg register
    op .returnValue

section

variable {strict : Prop} {ctx : Context} {body : List (Stmt (Option ScopeId))}
  (h : housedStmts ctx.scopes body) (hd : Clear strict true (stmtsDefects {} body))
  (hb : ∀ lexical ∈ lexicalsDeclared body, ctx.Binds lexical.name)

include h hd hb

theorem scriptStatements_obeys : Obeys (.ofBody strict body) ctx [] (scriptStatements body) := by
  refine Obeys.newRegister.bind fun register => ?_
  have hbody : Obeys (.ofBody strict body) { ctx with completion := some register } []
      (inOrder (stmts body)) :=
    .inOrder (stmts_obeys (fun _ => Order.ofBody_admits) (fits_program _) h hd hb)
  refine Obeys.bind ⟨hbody.obeys⟩ fun c => ?_
  split <;> infer_instance

theorem scriptCode_obeys : Obeys (.ofBody strict body) ctx [] (scriptCode body) :=
  (Obeys.declareGlobals (.hoistGlobal (functions_yield h hd))).bind fun _ =>
    scriptStatements_obeys h hd hb

theorem moduleCode_obeys {scope : ScopeId} {imports : List String}
    (hn : ∀ name ∈ imports ++ functionNamesOf body,
      name ∈ Scope.names (ctx.scopes.scope scope).bindings) :
    Obeys (.ofBody strict body) ctx [] (moduleCode scope imports body) := by
  rw [List.forall_mem_append] at hn
  exact Obeys.createBindings.bind fun _ => (Obeys.initializeImports hn.1).bind fun _ =>
    Obeys.initializeVars.bind fun _ => (Obeys.hoist (functions_yield h hd) fun function hm =>
      hn.2 _ (functions_names body function hm)).bind fun _ =>
    .statementsBody (.inOrder (stmts_obeys (fun _ => Order.ofBody_admits) (fits_program _) h hd hb))

end

/-- The template of an analysed program is made if it has no defects. -/
theorem template_obeys {σ : Type} {program : Program σ} {analysed : Scope.Analysed}
    (h : Scope.Houses program analysed) (options : Options) :
    (∀ made, template options analysed = .ok made → made.Formed) ∧
      (program.defects = [] → ∃ made, template options analysed = .ok made) := by
  have hclear : Clear (program.defects = []) true (stmtsDefects {} analysed.program.body) := by
    refine fun hd => ⟨rfl, ?_⟩
    rw [← stmtsDefects_map Scope.bare, h.body, stmtsDefects_map]
    exact hd
  have hblame : ∀ error, template options analysed = .error error → error.blamesTree = true := by
    intro error he
    have hin := @template_inStep
      ⟨analysed.scopes, options, options, 1, rfl, Nat.le_refl 1, .inl rfl⟩ _ _ _ h rfl
    change Templates 1 (template options analysed) (template options analysed) at hin
    rw [he] at hin
    cases hin with
    | error hb => exact hb
  have hdeclares : ∀ name ∈ analysed.program.imports ++ functionNamesOf analysed.program.body ++
      (lexicalsDeclared analysed.program.body).map Lexical.name,
      name ∈ Scope.names (analysed.scopes.scope 0).bindings := by
    rw [h.imports, Scope.functionNames_of_bare h.body, Scope.lexicals_of_bare h.body]
    exact h.declares
  have hbody : ∀ made, template options analysed = .ok made → made.MadeOf analysed.program.body :=
    fun _ hm => .inr ⟨options, analysed, rfl, hm⟩
  rw [List.forall_mem_append] at hdeclares
  have hbinds : ∀ lexical ∈ lexicalsDeclared analysed.program.body,
      lexical.name ∈ Scope.names (analysed.scopes.scope 0).bindings :=
    fun lexical hl => hdeclares.2 _ (List.mem_map_of_mem hl)
  unfold template at hblame hbody ⊢
  dsimp only at hblame hbody ⊢
  cases hg : analysed.program.goal with
  | script =>
    rw [hg] at hblame hbody
    exact compileUnit_obeys FunctionKind.noConfusion (scriptCode_obeys h.housed hclear
      fun lexical hl => ⟨h.root, .inr (hbinds lexical hl)⟩) hbody hblame
  | module =>
    rw [hg] at hblame hbody
    exact compileUnit_obeys FunctionKind.noConfusion (moduleCode_obeys h.housed hclear
      (fun lexical hl => ⟨h.root, .inr (hbinds lexical hl)⟩) hdeclares.1) hbody hblame

/-- Whatever the analysis accepts and has no defects is compiled, under any options. -/
theorem compile_total {σ : Type} {program : Program σ} {analysed : Scope.Analysed}
    (h : Scope.analyse program = .ok analysed) (hd : program.defects = []) (options : Options) :
    ∃ script, compile options program = .ok script := by
  obtain ⟨made, hm⟩ := (template_obeys (Scope.analyse_houses h) options).2 hd
  refine ⟨⟨made, program.goal, program.imports⟩, ?_⟩
  unfold compile
  rw [h]
  dsimp only
  rw [hm]

/-- A generator that leaves a loop over values, and with it a protected block, to go on in the
loop around it. -/
def nestedExits : Program Unit where
  goal := .script
  imports := []
  body := [.function ⟨(), some "f", ["xs"], .block
    [.labelled "outer" (.whileDo (.literal (.boolean true))
      (.forOf () (.declaration ⟨.const, [⟨"x", none⟩]⟩) (.identifier "xs")
        (.tryBlock
          ⟨(), [.expression (.yield (some (.identifier "x")) true), .continueTo (some "outer")]⟩
          none
          (some ⟨(), [.declare ⟨.let_, [⟨"y", none⟩]⟩]⟩))))], false, true⟩]

theorem compile_total_nestedExits :
    nestedExits.defects = [] ∧ ∃ script, compile {} nestedExits = .ok script := by
  obtain ⟨analysed, ha⟩ : ∃ analysed, Scope.analyse nestedExits = .ok analysed := ⟨_, rfl⟩
  exact ⟨rfl, compile_total ha rfl {}⟩

/-- Compiled code is as it has to be. -/
theorem compile_formed {σ : Type} {options : Options} {program : Program σ} {script : Script}
    (h : compile options program = .ok script) : script.template.Formed := by
  unfold compile at h
  split at h
  · cases h
  · next analysed ha =>
    split at h
    · cases h
    · next made hm =>
      cases h
      exact (template_obeys (Scope.analyse_houses ha) options).1 made hm

end Ecma.Compile
