/-
Trees with their scopes. The analysis changes nothing in a tree but its annotations; every node
that it visits and that opens a scope gets one, and that scope holds the names declared there. It
refuses exactly the programs with a wrong declaration.
-/
import Ecma.Proofs.Annotation
import Ecma.Proofs.Visits

namespace Ecma.Scope

open Syntax

/-! ## Scopes of nodes -/

/-- A node that has its scope. -/
def Opened (scopes : Scopes) (declared : List String) (opened : Option ScopeId) : Prop :=
  ∃ id, opened = some id ∧ Opens scopes declared id

/-- The names that the body of a function declares and that its code looks up. -/
def bodyNames : Body (Option ScopeId) → List String
  | .block body => functionNamesOf body ++ (lexicalsDeclared body).map Lexical.name
  | .expression _ => []

def blockNames (body : List (Stmt (Option ScopeId))) : List String :=
  (blockDeclared body).map Lexical.name

/-- The lexical names of the head of a loop that may be absent. -/
def headNames {σ : Type} : Option (Head σ) → List String
  | none => []
  | some head => (lexicalsOfHead head).map Lexical.name

mutual

/-- Every node of an expression that opens a scope has it, if all of the expression was visited. -/
def housedExpr (scopes : Scopes) (whole : Bool) : Expr (Option ScopeId) → Prop
  | .identifier _ | .literal _ | .this => True
  | .template _ expressions => housedExprs scopes whole expressions
  | .array elements => housedElements scopes whole elements
  | .object properties => housedProperties scopes whole properties
  | .function fn => housedFunc scopes whole false fn
  | .arrow fn => housedFunc scopes whole true fn
  | .unary _ arg => housedExpr scopes whole arg
  | .update _ _ arg => housedExpr scopes whole arg
  | .binary _ left right => housedExpr scopes whole left ∧ housedExpr scopes whole right
  | .logical _ left right => housedExpr scopes whole left ∧ housedExpr scopes whole right
  | .assign _ target v => housedExpr scopes whole target ∧ housedExpr scopes whole v
  | .conditional test consequent alternate =>
    housedExpr scopes whole test ∧ housedExpr scopes whole consequent ∧
      housedExpr scopes whole alternate
  | .call callee args => housedExpr scopes whole callee ∧ housedExprs scopes whole args
  | .new callee args => housedExpr scopes whole callee ∧ housedExprs scopes whole args
  | .member obj prop computed =>
    housedExpr scopes whole obj ∧ housedExpr scopes (whole && computed) prop
  | .sequence expressions => housedExprs scopes whole expressions
  | .yield arg _ => housedExpr? scopes whole arg
  | .await arg => housedExpr scopes whole arg

def housedExpr? (scopes : Scopes) (whole : Bool) : Option (Expr (Option ScopeId)) → Prop
  | none => True
  | some v => housedExpr scopes whole v

def housedExprs (scopes : Scopes) (whole : Bool) : List (Expr (Option ScopeId)) → Prop
  | [] => True
  | v :: rest => housedExpr scopes whole v ∧ housedExprs scopes whole rest

def housedElements (scopes : Scopes) (whole : Bool) : List (Option (Expr (Option ScopeId))) → Prop
  | [] => True
  | element :: rest => housedExpr? scopes whole element ∧ housedElements scopes whole rest

def housedProperties (scopes : Scopes) (whole : Bool) : List (Property (Option ScopeId)) → Prop
  | [] => True
  | ⟨key, v, computed⟩ :: rest =>
    housedExpr scopes (whole && computed) key ∧ housedExpr scopes whole v ∧
      housedProperties scopes whole rest

/-- A function has a scope if it was visited, and then so have its parts. -/
def housedFunc (scopes : Scopes) (whole arrow : Bool) : Func (Option ScopeId) → Prop
  | ⟨scope, _, params, body, _, _⟩ =>
    (whole = true → scope.isSome = true) ∧ ∀ id, scope = some id →
      Opens scopes (params ++ bodyNames body) id ∧ (scopes.scope id).arrow = arrow ∧
        housedBody scopes body

def housedBody (scopes : Scopes) : Body (Option ScopeId) → Prop
  | .block body => housedStmts scopes body
  | .expression v => housedExpr scopes true v

def housedDeclarators (scopes : Scopes) : List (Declarator (Option ScopeId)) → Prop
  | [] => True
  | ⟨_, init⟩ :: rest => housedExpr? scopes true init ∧ housedDeclarators scopes rest

def housedDeclaration (scopes : Scopes) : Declaration (Option ScopeId) → Prop
  | ⟨_, declarators⟩ => housedDeclarators scopes declarators

/-- A block has its scope, and so have its parts. -/
def housedBlock (scopes : Scopes) : Block (Option ScopeId) → Prop
  | ⟨scope, body⟩ => Opened scopes (blockNames body) scope ∧ housedStmts scopes body

def housedBlock? (scopes : Scopes) : Option (Block (Option ScopeId)) → Prop
  | none => True
  | some block => housedBlock scopes block

def housedCases (scopes : Scopes) : List (Case (Option ScopeId)) → Prop
  | [] => True
  | ⟨test, consequent⟩ :: rest =>
    housedExpr? scopes true test ∧ housedStmts scopes consequent ∧ housedCases scopes rest

def housedCatch? (scopes : Scopes) : Option (Catch (Option ScopeId)) → Prop
  | none => True
  | some ⟨scope, _, body⟩ => Opened scopes [] scope ∧ housedBlock scopes body

def housedHead (scopes : Scopes) : Head (Option ScopeId) → Prop
  | .declaration decl => housedDeclaration scopes decl
  | .expression v => housedExpr scopes true v

def housedHead? (scopes : Scopes) : Option (Head (Option ScopeId)) → Prop
  | none => True
  | some head => housedHead scopes head

/-- Every node of a statement that opens a scope has it. -/
def housedStmt (scopes : Scopes) : Stmt (Option ScopeId) → Prop
  | .declare decl => housedDeclaration scopes decl
  | .function fn => housedFunc scopes true false fn
  | .expression v => housedExpr scopes true v
  | .block block => housedBlock scopes block
  | .ifElse test consequent alternate =>
    housedExpr scopes true test ∧ housedStmt scopes consequent ∧ housedStmt? scopes alternate
  | .switchOn scope discriminant cases =>
    housedExpr scopes true discriminant ∧ Opened scopes (blockNames (caseStatements cases)) scope ∧
      housedCases scopes cases
  | .whileDo test body => housedExpr scopes true test ∧ housedStmt scopes body
  | .doWhile body test => housedStmt scopes body ∧ housedExpr scopes true test
  | .forLoop scope init test update body =>
    Opened scopes (headNames init) scope ∧ housedHead? scopes init ∧ housedExpr? scopes true test ∧
      housedExpr? scopes true update ∧ housedStmt scopes body
  | .forIn scope left right body =>
    housedExpr scopes true right ∧ Opened scopes (headNames (some left)) scope ∧
      housedHead scopes left ∧ housedStmt scopes body
  | .forOf scope left right body =>
    housedExpr scopes true right ∧ Opened scopes (headNames (some left)) scope ∧
      housedHead scopes left ∧ housedStmt scopes body
  | .returnValue arg => housedExpr? scopes true arg
  | .breakTo _ | .continueTo _ | .debugger | .empty => True
  | .throwValue arg => housedExpr scopes true arg
  | .tryBlock block handler finalizer =>
    housedBlock scopes block ∧ housedCatch? scopes handler ∧ housedBlock? scopes finalizer
  | .withObject scope obj body =>
    housedExpr scopes true obj ∧ Opened scopes [] scope ∧ housedStmt scopes body
  | .labelled _ body => housedStmt scopes body

def housedStmt? (scopes : Scopes) : Option (Stmt (Option ScopeId)) → Prop
  | none => True
  | some stmt => housedStmt scopes stmt

def housedStmts (scopes : Scopes) : List (Stmt (Option ScopeId)) → Prop
  | [] => True
  | stmt :: rest => housedStmt scopes stmt ∧ housedStmts scopes rest

end

/-! ## The analysis -/

/-- No annotation. -/
def bare {σ : Type} (_ : σ) : Unit := ()

section

variable {σ : Type}

mutual

/-- A part that is not visited opens no scopes. -/
theorem housed_unvisited {scopes} : (v : Expr σ) → housedExpr scopes false (v.map fun _ => none)
  | .identifier _ | .literal _ | .this => trivial
  | .template _ expressions => housed_unvisited_all expressions
  | .array elements => housed_unvisited_elements elements
  | .object properties => housed_unvisited_properties properties
  | .function ⟨_, _, _, _, _, _⟩ | .arrow ⟨_, _, _, _, _, _⟩ => ⟨nofun, nofun⟩
  | .unary _ arg | .update _ _ arg => housed_unvisited arg
  | .binary _ left right | .logical _ left right => ⟨housed_unvisited left, housed_unvisited right⟩
  | .assign _ target v => ⟨housed_unvisited target, housed_unvisited v⟩
  | .conditional test consequent alternate =>
    ⟨housed_unvisited test, housed_unvisited consequent, housed_unvisited alternate⟩
  | .call callee args | .new callee args => ⟨housed_unvisited callee, housed_unvisited_all args⟩
  | .member obj prop _ => ⟨housed_unvisited obj, housed_unvisited prop⟩
  | .sequence expressions => housed_unvisited_all expressions
  | .yield none _ => trivial
  | .yield (some arg) _ | .await arg => housed_unvisited arg

theorem housed_unvisited_all {scopes} :
    (vs : List (Expr σ)) → housedExprs scopes false (mapExprs (fun _ => none) vs)
  | [] => trivial
  | v :: rest => ⟨housed_unvisited v, housed_unvisited_all rest⟩

theorem housed_unvisited_elements {scopes} : (vs : List (Option (Expr σ))) →
      housedElements scopes false (mapElements (fun _ => none) vs)
  | [] => trivial
  | none :: rest => ⟨trivial, housed_unvisited_elements rest⟩
  | some v :: rest => ⟨housed_unvisited v, housed_unvisited_elements rest⟩

theorem housed_unvisited_properties {scopes} : (properties : List (Property σ)) →
      housedProperties scopes false (mapProperties (fun _ => none) properties)
  | [] => trivial
  | ⟨key, v, _⟩ :: rest =>
    ⟨housed_unvisited key, housed_unvisited v, housed_unvisited_properties rest⟩

end

theorem unvisited_bare (v : Expr σ) : (unvisited v).map bare = v.map bare :=
  Expr.map_map bare (fun _ => none) v

variable {τ : Type}

theorem functionNames_of_bare {body' : List (Stmt τ)} {body : List (Stmt σ)}
    (h : mapStmts bare body' = mapStmts bare body) :
    functionNamesOf body' = functionNamesOf body := by
  rw [← functionNamesOf_map bare body', h, functionNamesOf_map]

theorem lexicals_of_bare {body' : List (Stmt τ)} {body : List (Stmt σ)}
    (h : mapStmts bare body' = mapStmts bare body) :
    lexicalsDeclared body' = lexicalsDeclared body := by
  rw [← lexicalsDeclared_map bare body', h, lexicalsDeclared_map]

theorem vars_of_bare {body' : List (Stmt τ)} {body : List (Stmt σ)}
    (h : mapStmts bare body' = mapStmts bare body) : varDeclared body' = varDeclared body := by
  rw [← varDeclared_map bare body', h, varDeclared_map]

theorem blockNames_of_bare {body' : List (Stmt (Option ScopeId))} {body : List (Stmt σ)}
    (h : mapStmts bare body' = mapStmts bare body) :
    blockNames body' = (blockDeclared body).map Lexical.name := by
  rw [blockNames, ← blockDeclared_map bare body', h, blockDeclared_map]

theorem caseNames_of_bare {cases' : List (Case (Option ScopeId))} {cases : List (Case σ)}
    (h : mapCases bare cases' = mapCases bare cases) : blockNames (caseStatements cases') =
      (blockDeclared (caseStatements cases)).map Lexical.name := by
  refine blockNames_of_bare ?_
  rw [← caseStatements_map, h, caseStatements_map]

theorem headNames_map (f : σ → τ) (head : Option (Head σ)) :
    headNames (mapHead? f head) = headNames head := by
  cases head with
  | none => rfl
  | some head => exact congrArg (List.map Lexical.name) (lexicalsOfHead_map f head)

theorem headNames_of_bare {head' : Option (Head τ)} {head : Option (Head σ)}
    (h : mapHead? bare head' = mapHead? bare head) : headNames head' = headNames head := by
  rw [← headNames_map bare head', h, headNames_map]

theorem headNames_of_bare_some {head' : Head τ} {head : Head σ}
    (h : head'.map bare = head.map bare) :
    headNames (some head') = (lexicalsOfHead head).map Lexical.name :=
  have h : mapHead? bare (some head') = mapHead? bare (some head) := congrArg some h
  headNames_of_bare h

/-- The lexical names in the head of a loop that may be absent. -/
theorem loop_tabulated (init : Option (Head σ)) :
    TabulatesBlock (match init with | some head => headBindings head | none => .ok [])
      (∀ head ∈ init, ((lexicalsOfHead head).map Lexical.name).Nodup)
      ((init.map lexicalsOfHead).getD []) := by
  cases init with
  | none =>
    refine ⟨⟨fun _ _ hm => (by cases hm), fun _ => ⟨_, rfl⟩⟩, fun ht => ?_⟩
    cases ht
    exact ⟨.nil, by simp⟩
  | some head =>
    refine ⟨(head_tabulated head).iff.trans ⟨fun h _ hm => ?_, fun h => h head rfl⟩,
      (head_tabulated head).table⟩
    cases hm
    exact h

theorem headNames_eq (init : Option (Head σ)) :
    headNames init = ((init.map lexicalsOfHead).getD []).map Lexical.name := by
  cases init <;> rfl

theorem loop_fair (init : Option (Head σ)) {vars} :
    (∀ head ∈ init, ((lexicalsOfHead head).map Lexical.name).Nodup) ∧
      (∀ lexical ∈ (init.map lexicalsOfHead).getD [],
        lexical.name ∉ (init.map varNamesOfHead).getD [] ++ vars) ↔
    ∀ head ∈ init, ((lexicalsOfHead head).map Lexical.name).Nodup ∧
      ∀ lexical ∈ lexicalsOfHead head, lexical.name ∉ varNamesOfHead head ++ vars := by
  cases init <;> simp

theorem varNamesOfCases_eq (cases : List (Case σ)) :
    varNamesOfCases cases = varNamesOfList (caseStatements cases) := by
  induction cases with
  | nil => rfl
  | cons clause rest ih =>
    obtain ⟨_, consequent⟩ := clause
    rw [varNamesOfCases, ih]
    change _ = varNamesOfList (consequent ++ caseStatements rest)
    induction consequent with
    | nil => rfl
    | cons stmt _ ih =>
      rw [varNamesOfList, List.append_assoc, ih, List.cons_append, varNamesOfList]

/-- The variables of the body of a function. -/
def varNamesOfBody : Body σ → List String
  | .block body => varNamesOfList body
  | .expression _ => []

theorem parameter_passes (param : Option String) (name : String) :
    bars (param.toList.map fun name => ⟨name, .parameter⟩) name = false := by
  cases param with
  | none => rfl
  | some param =>
    unfold bars kindIn?
    by_cases h : param = name <;> simp [h]

theorem varNamesOfBlock?_some (block : Block σ) :
    varNamesOfBlock? (some block) = varNamesOfList block.body := by
  cases block
  rfl

theorem varNamesOf_block (block : Block σ) :
    varNamesOf (.block block) = varNamesOfList block.body := by
  cases block
  rfl

theorem varNamesOf_try (block : Block σ) (handler : Option (Catch σ))
    (finalizer : Option (Block σ)) : varNamesOf (.tryBlock block handler finalizer) =
      varNamesOfList block.body ++ (varNamesOfCatch? handler ++ varNamesOfBlock? finalizer) := by
  cases block
  rw [varNamesOf, List.append_assoc]

theorem varNamesOfCatch?_some (scope : σ) (param : Option String) (body : Block σ) :
    varNamesOfCatch? (some ⟨scope, param, body⟩) = varNamesOfList body.body := by
  cases body
  rfl

theorem bodyTable_names (params : List String) (body : List (Stmt σ)) (name : String)
    (h : name ∈ params ++ (functionNamesOf body ++ (lexicalsDeclared body).map Lexical.name)) :
    name ∈ bodyTable params body := by
  unfold bodyTable
  simp only [List.mem_append] at h ⊢
  tauto

theorem bodyNames_of_bare {body' : Body (Option ScopeId)} (fn : Func σ)
    (h : body'.map bare = fn.body.map bare) : bodyNames body' = functionNamesOf fn.statements ++
        (lexicalsDeclared fn.statements).map Lexical.name := by
  obtain ⟨_, _, _, body, _, _⟩ := fn
  cases body' with
  | block body' =>
    cases body with
    | block body =>
      have h : mapStmts bare body' = mapStmts bare body := Body.block.inj h
      rw [bodyNames, functionNames_of_bare h, lexicals_of_bare h]
      rfl
    | expression _ => cases h
  | expression _ =>
    cases body with
    | block _ => cases h
    | expression _ => rfl

/-- A fixed name may be any. -/
theorem fixed {demanded : Prop} : false = true ∨ False → demanded :=
  fun h => h.elim (fun he => (by cases he)) False.elim

mutual

theorem visitExpr_housed {id : ScopeId} {strict : Bool} : (v : Expr σ) →
    Visits ⟨id, strict⟩ [] (v.Meets early strict) (visitExpr ⟨id, strict⟩ v) fun final r =>
      r.map bare = v.map bare ∧ housedExpr final true r
  | .identifier name => by
    rw [visitExpr]
    split
    · exact .record (.pure ⟨rfl, trivial⟩)
    · exact .pure ⟨rfl, trivial⟩
  | .literal _ => .pure ⟨rfl, trivial⟩
  | .template _ expressions =>
    .map (visitExprs_housed expressions) fun h => ⟨congrArg _ h.1, h.2⟩
  | .this => .pure ⟨rfl, trivial⟩
  | .array elements =>
    .map (visitElements_housed elements) fun h => ⟨congrArg _ h.1, h.2⟩
  | .object properties =>
    .map (visitProperties_housed properties) fun h => ⟨congrArg _ h.1, h.2⟩
  | .function fn | .arrow fn =>
    .map (visitFunc_housed fn) fun h => ⟨congrArg _ h.1, h.2⟩
  | .unary _ arg | .update _ _ arg =>
    .map (visitExpr_housed arg) fun h => ⟨congrArg _ h.1, h.2⟩
  | .binary _ left right | .logical _ left right =>
    .bind (visitExpr_housed left) fun _ =>
      .map (visitExpr_housed right) fun hr hl => ⟨congrArg₂ _ hl.1 hr.1, hl.2, hr.2⟩
  | .assign _ target v =>
    .bind (visitExpr_housed target) fun _ =>
      .map (visitExpr_housed v) fun hv ht => ⟨congrArg₂ _ ht.1 hv.1, ht.2, hv.2⟩
  | .conditional test consequent alternate =>
    .bind (visitExpr_housed test) fun _ => .bind (visitExpr_housed consequent) fun _ =>
      .map (visitExpr_housed alternate) fun ha hc ht =>
        ⟨by rw [Expr.map, Expr.map, ht.1, hc.1, ha.1], ht.2, hc.2, ha.2⟩
  | .call callee args => by
    rw [visitExpr]
    split
    · exact .record (.bind (visitExpr_housed callee) fun _ =>
        .map (visitExprs_housed args) fun ha hc => ⟨congrArg₂ _ hc.1 ha.1, hc.2, ha.2⟩)
    · exact .bind (visitExpr_housed callee) fun _ =>
        .map (visitExprs_housed args) fun ha hc =>
          ⟨congrArg₂ _ hc.1 ha.1, hc.2, ha.2⟩
  | .new callee args =>
    .bind (visitExpr_housed callee) fun _ =>
      .map (visitExprs_housed args) fun ha hc => ⟨congrArg₂ _ hc.1 ha.1, hc.2, ha.2⟩
  | .member obj prop true =>
    .congr (.bind (visitExpr_housed obj) fun _ =>
      .map (visitExpr_housed prop) fun hp ho =>
        ⟨congrArg₂ (Expr.member · · true) ho.1 hp.1, ho.2, hp.2⟩)
      (and_congr_right fun _ => ⟨fun h _ => h, fun h => h (.inl rfl)⟩)
  | .member obj prop false =>
    .congr (.map (visitExpr_housed obj) fun ho =>
      ⟨congrArg₂ (Expr.member · · false) ho.1 (unvisited_bare prop), ho.2,
        housed_unvisited prop⟩) (and_iff_left fixed).symm
  | .sequence expressions =>
    .map (visitExprs_housed expressions) fun h => ⟨congrArg _ h.1, h.2⟩
  | .yield arg _ =>
    .map (visitExpr?_housed arg) fun h =>
      ⟨congrArg (Expr.yield · _) h.1, h.2⟩
  | .await arg =>
    .map (visitExpr_housed arg) fun h => ⟨congrArg _ h.1, h.2⟩

theorem visitExpr?_housed {id strict} : (v : Option (Expr σ)) →
    Visits ⟨id, strict⟩ [] (MeetExpr? early strict v)
      (visitExpr? ⟨id, strict⟩ v) fun final r =>
      mapExpr? bare r = mapExpr? bare v ∧ housedExpr? final true r
  | none => .pure ⟨rfl, trivial⟩
  | some v => .map (visitExpr_housed v) fun h => ⟨congrArg _ h.1, h.2⟩

theorem visitExprs_housed {id strict} : (vs : List (Expr σ)) →
    Visits ⟨id, strict⟩ [] (MeetExprs early strict vs)
      (visitExprs ⟨id, strict⟩ vs) fun final r =>
      mapExprs bare r = mapExprs bare vs ∧ housedExprs final true r
  | [] => .pure ⟨rfl, trivial⟩
  | v :: rest =>
    .bind (visitExpr_housed v) fun _ =>
      .map (visitExprs_housed rest) fun hr hv => ⟨congrArg₂ _ hv.1 hr.1, hv.2, hr.2⟩

theorem visitElements_housed {id strict} : (elements : List (Option (Expr σ))) →
    Visits ⟨id, strict⟩ [] (MeetElements early strict elements)
      (visitElements ⟨id, strict⟩ elements) fun final r =>
      mapElements bare r = mapElements bare elements ∧ housedElements final true r
  | [] => .pure ⟨rfl, trivial⟩
  | element :: rest =>
    .bind (visitExpr?_housed element) fun _ =>
      .map (visitElements_housed rest) fun hr hv => ⟨congrArg₂ _ hv.1 hr.1, hv.2, hr.2⟩

theorem visitProperties_housed {id strict} : (properties : List (Property σ)) →
    Visits ⟨id, strict⟩ [] (MeetProperties early strict properties)
      (visitProperties ⟨id, strict⟩ properties) fun final r =>
      mapProperties bare r = mapProperties bare properties ∧ housedProperties final true r
  | [] => .pure ⟨rfl, trivial⟩
  | ⟨key, v, true⟩ :: rest =>
    .congr (.bind (visitExpr_housed key) fun _ => .bind (visitExpr_housed v) fun _ =>
      .map (visitProperties_housed rest) fun hr hv hk =>
        ⟨congrArg₂ _ (congrArg₂ (Property.mk · · true) hk.1 hv.1) hr.1, hk.2, hv.2, hr.2⟩)
      (and_congr_left fun _ => ⟨fun h _ => h, fun h => h (.inl rfl)⟩)
  | ⟨key, v, false⟩ :: rest =>
    .congr (.bind (visitExpr_housed v) fun _ =>
      .map (visitProperties_housed rest) fun hr hv =>
        ⟨congrArg₂ _ (congrArg₂ (Property.mk · · false) (unvisited_bare key) hv.1) hr.1,
          housed_unvisited key, hv.2, hr.2⟩) (and_iff_right fixed).symm

/-- A visited function has a scope that holds its parameters and the names of its body. -/
theorem visitFunc_housed {id strict arrow expr} : (fn : Func σ) →
    Visits ⟨id, strict⟩ [] (fn.Meets early strict)
      (visitFunc ⟨id, strict⟩ arrow expr fn) fun final r =>
      r.map bare = fn.map bare ∧ housedFunc final true arrow r
  | ⟨scope, name, params, body, isAsync, isGenerator⟩ => by
    rw [← and_true (Func.Meets early strict _)]
    refine .bind (.inFunction ((parameters_tabulated _ params).body _) (bodyTable_names _ _)
      fun _ => visitBody_housed body) fun r => .pure fun h => ?_
    obtain ⟨⟨ho, ha⟩, hb, hh⟩ := h
    refine ⟨congrArg (Func.mk _ _ _ · _ _) hb, fun _ => rfl, ?_⟩
    rintro _ ⟨⟩
    exact ⟨by rwa [bodyNames_of_bare ⟨scope, name, params, body, isAsync, isGenerator⟩ hb], ha, hh⟩

theorem visitBody_housed {id strict} : (body : Body σ) →
    Visits ⟨id, strict⟩ (varNamesOfBody body) (body.Meets early strict)
      (visitBody ⟨id, strict⟩ body) fun final r =>
      r.map bare = body.map bare ∧ housedBody final r
  | .block body =>
    .map (visitStmts_housed body) fun h => ⟨congrArg _ h.1, h.2⟩
  | .expression v =>
    .map (visitExpr_housed v) fun h => ⟨congrArg _ h.1, h.2⟩

theorem visitDeclarators_housed {id strict} (kind : VariableKind) :
    (declarators : List (Declarator σ)) →
    Visits ⟨id, strict⟩ (varNames ⟨kind, declarators⟩) (MeetDeclarators early strict declarators)
      (visitDeclarators ⟨id, strict⟩ kind declarators) fun final r =>
      mapDeclarators bare r = mapDeclarators bare declarators ∧ housedDeclarators final r
  | [] => by cases kind <;> exact .pure ⟨rfl, trivial⟩
  | ⟨name, init⟩ :: rest => by
    cases kind with
    | var =>
      refine .checkVar ?_
      exact .bind (visitExpr?_housed init) fun _ =>
        .map (visitDeclarators_housed .var rest) fun hr hi =>
          ⟨congrArg₂ _ (congrArg _ hi.1) hr.1, hi.2, hr.2⟩
    | let_ =>
      exact .bind (visitExpr?_housed init) fun _ =>
        .map (visitDeclarators_housed .let_ rest) fun hr hi =>
          ⟨congrArg₂ _ (congrArg _ hi.1) hr.1, hi.2, hr.2⟩
    | const =>
      exact .bind (visitExpr?_housed init) fun _ =>
        .map (visitDeclarators_housed .const rest) fun hr hi =>
          ⟨congrArg₂ _ (congrArg _ hi.1) hr.1, hi.2, hr.2⟩

theorem visitDeclaration_housed {id strict} : (decl : Declaration σ) →
    Visits ⟨id, strict⟩ (varNames decl) (decl.Meets early strict)
      (visitDeclaration ⟨id, strict⟩ decl) fun final r =>
      r.map bare = decl.map bare ∧ housedDeclaration final r
  | ⟨kind, declarators⟩ =>
    .map (visitDeclarators_housed kind declarators) fun h =>
      ⟨congrArg _ h.1, h.2⟩

theorem visitBlock_housed {id strict} : (block : Block σ) →
    Visits ⟨id, strict⟩ (varNamesOfList block.body) (block.Meets early strict)
      (visitBlock ⟨id, strict⟩ block) fun final r =>
      r.map bare = block.map bare ∧ housedBlock final r
  | ⟨_, body⟩ =>
    .block (block_tabulated _ _) fun _ =>
      .map (visitStmts_housed body) fun h ho =>
        ⟨congrArg _ h.1, ⟨_, rfl, by rwa [blockNames_of_bare h.1]⟩, h.2⟩

theorem visitBlock?_housed {id strict} : (block : Option (Block σ)) →
    Visits ⟨id, strict⟩ (varNamesOfBlock? block) (MeetBlock? early strict block)
      (visitBlock? ⟨id, strict⟩ block) fun final r =>
      mapBlock? bare r = mapBlock? bare block ∧ housedBlock? final r
  | none => .pure ⟨rfl, trivial⟩
  | some block => by
    rw [varNamesOfBlock?_some]
    exact .map (visitBlock_housed block) fun h => ⟨congrArg _ h.1, h.2⟩

theorem visitCases_housed {id strict} : (cases : List (Case σ)) →
    Visits ⟨id, strict⟩ (varNamesOfCases cases) (MeetCases early strict cases)
      (visitCases ⟨id, strict⟩ cases) fun final r =>
      mapCases bare r = mapCases bare cases ∧ housedCases final r
  | [] => .pure ⟨rfl, trivial⟩
  | ⟨test, consequent⟩ :: rest =>
    .bind (visitExpr?_housed test) fun _ => .append (visitStmts_housed consequent) fun _ =>
      .map (visitCases_housed rest) fun hr hc ht =>
        ⟨congrArg₂ _ (congrArg₂ _ ht.1 hc.1) hr.1, ht.2, hc.2, hr.2⟩

theorem visitCatch?_housed {id strict} : (clause : Option (Catch σ)) →
    Visits ⟨id, strict⟩ (varNamesOfCatch? clause) (MeetCatch? early strict clause)
      (visitCatch? ⟨id, strict⟩ clause) fun final r =>
      mapCatch? bare r = mapCatch? bare clause ∧ housedCatch? final r
  | none => .pure ⟨rfl, trivial⟩
  | some ⟨_, param, body⟩ => by
    rw [varNamesOfCatch?_some]
    exact .opened (.inr rfl) (parameter_passes param) fun _ =>
      .map (visitBlock_housed body) fun hb ho =>
        ⟨congrArg (fun body => some (Catch.mk _ param body)) hb.1, ⟨_, rfl, ho⟩, hb.2⟩

theorem visitHead_housed {id strict} : (head : Head σ) →
    Visits ⟨id, strict⟩ (varNamesOfHead head) (head.Meets early strict)
      (visitHead ⟨id, strict⟩ head) fun final r =>
      r.map bare = head.map bare ∧ housedHead final r
  | .declaration decl =>
    .map (visitDeclaration_housed decl) fun h => ⟨congrArg _ h.1, h.2⟩
  | .expression v =>
    .map (visitExpr_housed v) fun h => ⟨congrArg _ h.1, h.2⟩

theorem visitHead?_housed {id strict} : (head : Option (Head σ)) →
    Visits ⟨id, strict⟩ ((head.map varNamesOfHead).getD []) (MeetHead? early strict head)
      (visitHead? ⟨id, strict⟩ head) fun final r =>
      mapHead? bare r = mapHead? bare head ∧ housedHead? final r
  | none => .pure ⟨rfl, trivial⟩
  | some head => .map (visitHead_housed head) fun h => ⟨congrArg _ h.1, h.2⟩

theorem visitStmt_housed {id : ScopeId} {strict : Bool} : (stmt : Stmt σ) →
    Visits ⟨id, strict⟩ (varNamesOf stmt) (stmt.Meets early strict)
      (visitStmt ⟨id, strict⟩ stmt) fun final r =>
      r.map bare = stmt.map bare ∧ housedStmt final r
  | .declare decl =>
    .map (visitDeclaration_housed decl) fun h => ⟨congrArg _ h.1, h.2⟩
  | .function fn =>
    .map (visitFunc_housed fn) fun h => ⟨congrArg _ h.1, h.2⟩
  | .expression v =>
    .map (visitExpr_housed v) fun h => ⟨congrArg _ h.1, h.2⟩
  | .block block => by
    rw [varNamesOf_block]
    exact .map (visitBlock_housed block) fun h => ⟨congrArg _ h.1, h.2⟩
  | .ifElse test consequent alternate =>
    .bind (visitExpr_housed test) fun _ => .append (visitStmt_housed consequent) fun _ =>
      .map (visitStmt?_housed alternate) fun ha hc ht =>
        ⟨by rw [Stmt.map, Stmt.map, ht.1, hc.1, ha.1], ht.2, hc.2, ha.2⟩
  | .switchOn _ discriminant cases => by
    rw [varNamesOf, varNamesOfCases_eq]
    exact .bind (visitExpr_housed discriminant) fun _ =>
      .block (block_tabulated _ _) fun _ =>
        .map (varNamesOfCases_eq cases ▸ visitCases_housed cases) fun hc ho hd =>
          ⟨congrArg₂ _ hd.1 hc.1, hd.2, ⟨_, rfl, by rwa [caseNames_of_bare hc.1]⟩, hc.2⟩
  | .whileDo test body =>
    .bind (visitExpr_housed test) fun _ =>
      .map (visitStmt_housed body) fun hb ht => ⟨congrArg₂ _ ht.1 hb.1, ht.2, hb.2⟩
  | .doWhile body test => by
    rw [varNamesOf, ← List.append_nil (varNamesOf body)]
    exact .append (visitStmt_housed body) fun _ =>
      .map (visitExpr_housed test) fun ht hb => ⟨congrArg₂ _ hb.1 ht.1, hb.2, ht.2⟩
  | .forLoop _ init test update body =>
    .congr (.block (loop_tabulated init) fun _ =>
      .append (visitHead?_housed init) fun _ => .bind (visitExpr?_housed test) fun _ =>
        .bind (visitExpr?_housed update) fun _ =>
          .map (visitStmt_housed body) fun hb hu ht hi ho =>
            ⟨by rw [Stmt.map, Stmt.map, hi.1, ht.1, hu.1, hb.1],
              ⟨_, rfl, by rwa [headNames_of_bare hi.1, headNames_eq]⟩, hi.2, ht.2, hu.2, hb.2⟩)
      (and_congr_left fun _ => loop_fair init)
  | .forIn _ left right body | .forOf _ left right body =>
    .bind (visitExpr_housed right) fun _ =>
      .block (head_tabulated left) fun _ =>
        .append (visitHead_housed left) fun _ =>
          .map (visitStmt_housed body) fun hb hl ho hr =>
            ⟨by rw [Stmt.map, Stmt.map, hl.1, hr.1, hb.1], hr.2,
              ⟨_, rfl, by rwa [headNames_of_bare_some hl.1]⟩, hl.2, hb.2⟩
  | .returnValue arg =>
    .map (visitExpr?_housed arg) fun h => ⟨congrArg _ h.1, h.2⟩
  | .breakTo _ | .continueTo _ => .pure ⟨rfl, trivial⟩
  | .throwValue arg =>
    .map (visitExpr_housed arg) fun h => ⟨congrArg _ h.1, h.2⟩
  | .tryBlock block handler finalizer => by
    rw [varNamesOf_try]
    exact .append (visitBlock_housed block) fun _ => .append (visitCatch?_housed handler) fun _ =>
      .map (visitBlock?_housed finalizer) fun hf hc hb =>
        ⟨by rw [Stmt.map, Stmt.map, hb.1, hc.1, hf.1], hb.2, hc.2, hf.2⟩
  | .withObject _ obj body => by
    cases strict with
    | true => exact ⟨fun _ he => (by cases he), fun _ h => (by cases h.1)⟩
    | false =>
      exact .congr (.bind (visitExpr_housed obj) fun _ =>
        .opened (.inl rfl) (fun _ => rfl) fun _ => .map (visitStmt_housed body) fun hb ho h =>
          ⟨congrArg₂ _ h.1 hb.1, h.2, ⟨_, rfl, ho⟩, hb.2⟩)
        (and_iff_right rfl).symm
  | .labelled _ body =>
    .map (visitStmt_housed body) fun h => ⟨congrArg _ h.1, h.2⟩
  | .debugger | .empty => .pure ⟨rfl, trivial⟩

theorem visitStmt?_housed {id strict} : (stmt : Option (Stmt σ)) →
    Visits ⟨id, strict⟩ (varNamesOf? stmt) (MeetStmt? early strict stmt)
      (visitStmt? ⟨id, strict⟩ stmt) fun final r =>
      mapStmt? bare r = mapStmt? bare stmt ∧ housedStmt? final r
  | none => .pure ⟨rfl, trivial⟩
  | some stmt =>
    .map (visitStmt_housed stmt) fun h => ⟨congrArg _ h.1, h.2⟩

theorem visitStmts_housed {id strict} : (statements : List (Stmt σ)) →
    Visits ⟨id, strict⟩ (varNamesOfList statements) (MeetStmts early strict statements)
      (visitStmts ⟨id, strict⟩ statements) fun final r =>
      mapStmts bare r = mapStmts bare statements ∧ housedStmts final r
  | [] => .pure ⟨rfl, trivial⟩
  | stmt :: rest =>
    .append (visitStmt_housed stmt) fun _ =>
      .map (visitStmts_housed rest) fun hr hs => ⟨congrArg₂ _ hs.1 hr.1, hs.2, hr.2⟩

end

/-! ## Programs -/

/-- What the analysis makes of a program. -/
structure Houses (program : Program σ) (analysed : Analysed) : Prop where
  body : mapStmts bare analysed.program.body = mapStmts bare program.body
  goal : analysed.program.goal = program.goal
  imports : analysed.program.imports = program.imports
  housed : housedStmts analysed.scopes analysed.program.body
  /-- The first scope is the one of the program. -/
  root : 0 < analysed.scopes.size
  script : program.goal = .script → (analysed.scopes.scope 0).kind = .script
  module : program.goal = .module → (analysed.scopes.scope 0).kind = .module
  declares : ∀ name ∈ program.imports ++ functionNamesOf program.body ++
    (lexicalsDeclared program.body).map Lexical.name,
    name ∈ names (analysed.scopes.scope 0).bindings
  apart : ∀ lexical ∈ lexicalsDeclared program.body,
    lexical.name ∉ varDeclared program.body ++ functionNamesOf program.body

/-- The first scope, as the visit of the body finds it. -/
def rootScope (program : Program σ) (table : List Binding) : Scope where
  kind := match program.goal with
    | .script => .script
    | .module => .module
  parent := none
  bindings := table
  dynamic := false
  strict := program.isStrict
  arrow := false

theorem rootScope_isVarScope (program : Program σ) (table : List Binding) :
    (rootScope program table).isVarScope = true := by
  obtain ⟨_, goal, _⟩ := program
  cases goal <;> rfl

theorem enter_root {program : Program σ} {table}
    (h : (do bodyBindings (← importBindings program.imports) program.body) = .ok table) :
    enter (rootScope program table).kind none program.isStrict false
      (do bodyBindings (← importBindings program.imports) program.body) {} =
        .ok (0, ⟨#[rootScope program table], {}⟩) := by
  rw [h]
  obtain ⟨_, goal, _⟩ := program
  cases goal <;> rfl

theorem analyse_ok {program : Program σ} {analysed} :
    analyse program = .ok analysed ↔ ∃ table body visited,
      (do bodyBindings (← importBindings program.imports) program.body) = .ok table ∧
      visitStmts ⟨0, program.isStrict⟩ program.body ⟨#[rootScope program table], {}⟩ =
        .ok (body, visited) ∧ analysed = ⟨visited.scopes.modify 0 fun scope =>
        { scope with dynamic := scope.dynamic || visited.uses.isDynamic false },
        ⟨body, program.goal, program.imports⟩⟩ := by
  constructor
  · intro h
    obtain ⟨⟨r, progress⟩, hvisit, hdone⟩ := Compile.except_bind_ok.mp h
    cases hdone
    obtain ⟨id, entered, henter, hvisit⟩ := visit_bind.mp hvisit
    obtain ⟨body, visited, hbody, hvisit⟩ := visit_bind.mp hvisit
    cases hvisit
    cases htable : (do bodyBindings (← importBindings program.imports) program.body) with
    | error _ =>
      rw [htable] at henter
      cases henter
    | ok table =>
      cases (enter_root htable).symm.trans henter
      exact ⟨table, body, visited, rfl, hbody, rfl⟩
  · rintro ⟨table, body, visited, htable, hbody, rfl⟩
    exact Compile.except_bind_ok.mpr ⟨_, visit_bind.mpr ⟨_, _, enter_root htable,
      visit_bind.mpr ⟨body, visited, hbody, rfl⟩⟩, rfl⟩

theorem root_stands {program : Program σ} {table} :
    Stands ⟨0, program.isStrict⟩ #[rootScope program table] := by
  refine ⟨fun id scope parent hs hp => ?_, Nat.zero_lt_one⟩
  obtain ⟨hi, rfl⟩ := Array.getElem?_eq_some_iff.mp hs
  cases Nat.lt_one_iff.mp hi
  cases hp

theorem analyse_houses {program : Program σ} {analysed} (h : analyse program = .ok analysed)
    : Houses program analysed := by
  have hbindings := (imports_tabulated program.imports).body program.body
  obtain ⟨table, body, visited, htable, hbody, rfl⟩ := analyse_ok.mp h
  obtain ⟨-, hfair⟩ := hbindings.iff.mp ⟨table, htable⟩
  obtain ⟨⟨grown, -⟩, -, hfact⟩ := (visitStmts_housed program.body).ok root_stands hbody
  have closed : Grown visited.scopes (visited.scopes.modify 0 fun scope =>
      { scope with dynamic := scope.dynamic || visited.uses.isDynamic false }) :=
    .modify fun _ _ => ⟨rfl, rfl, rfl, fun _ hn => hn, fun _ => rfl⟩
  obtain ⟨hbare, hhoused⟩ := hfact _ closed
  obtain ⟨scope, hscope, hkept⟩ := (grown.trans closed) 0 (rootScope program table) rfl
  have hroot := scope_of_getElem? hscope
  have hkind := (congrArg Scope.kind hroot).trans hkept.kind
  refine ⟨hbare, rfl, rfl, hhoused, (Array.getElem?_eq_some_iff.mp hscope).1, fun hg => ?_,
    fun hg => ?_, fun name hn => ?_, fun lexical hl hm => hfair.apart lexical hl ?_⟩
  · exact hkind.trans (by rw [rootScope, hg])
  · exact hkind.trans (by rw [rootScope, hg])
  · refine (congrArg (name ∈ names ·.bindings) hroot).mpr (hkept.grows name
      ((hbindings.declares htable name).mpr ?_))
    simp only [bodyTable, List.mem_append] at hn ⊢
    tauto
  · simp only [varDeclared, List.mem_append, List.mem_eraseDups] at hm ⊢
    tauto

/-- A program is refused early exactly if one of its declarations is not as it should be. -/
theorem analyse_ok_iff (program : Program σ) : (∃ analysed, analyse program = .ok analysed) ↔
    program.imports.Nodup ∧ FairBody program.imports program.body ∧ program.Meets early := by
  rw [← and_assoc, ← ((imports_tabulated program.imports).body program.body).iff]
  constructor
  · rintro ⟨_, h⟩
    obtain ⟨table, body, visited, htable, hbody, -⟩ := analyse_ok.mp h
    exact ⟨⟨table, htable⟩, ((visitStmts_housed program.body).ok root_stands hbody).2.1.1⟩
  · rintro ⟨⟨table, htable⟩, hmeets⟩
    have hfree : Free #[rootScope program table] (varNamesOfList program.body) 0 :=
      fun name _ hc => absurd ((clashes_iff rfl).mp hc).1 (by simp [rootScope_isVarScope])
    obtain ⟨⟨body, visited⟩, hbody⟩ := @(visitStmts_housed program.body).runs
      ⟨#[rootScope program table], {}⟩ root_stands hmeets hfree
    exact ⟨_, analyse_ok.mpr ⟨table, body, visited, htable, hbody, rfl⟩⟩

end

end Ecma.Scope
