/-
The names that programs declare. They do not depend on annotations, and the tables of the
analysis hold exactly them; a table is made unless a name clashes with another one in it.
-/
import Mathlib.Data.List.Basic
import Ecma.Proofs.Demand
import Ecma.Proofs.Linking
import Ecma.Scope.Analysis

namespace Ecma.Scope

open Syntax

variable {σ τ : Type}

/-! ## Annotations do not matter -/

theorem name_map (f : σ → τ) (fn : Func σ) : (fn.map f).name = fn.name := by
  cases fn
  rfl

theorem functionOf?_map (f : σ → τ) : (stmt : Stmt σ) →
    functionOf? (stmt.map f) = (functionOf? stmt).map (Func.map f)
  | .labelled _ body => functionOf?_map f body
  | .declare _ | .function _ | .expression _ | .block _ | .ifElse .. | .switchOn .. | .whileDo ..
  | .doWhile .. | .forLoop .. | .forIn .. | .forOf .. | .returnValue _ | .breakTo _ | .continueTo _
  | .throwValue _ | .tryBlock .. | .withObject .. | .debugger | .empty => rfl

theorem functionsDeclared_map (f : σ → τ) (body : List (Stmt σ)) :
    functionsDeclared (mapStmts f body) = (functionsDeclared body).map (Func.map f) := by
  induction body with
  | nil => rfl
  | cons stmt rest ih =>
    unfold functionsDeclared at ih ⊢
    rw [mapStmts, List.filterMap_cons, List.filterMap_cons, functionOf?_map, ih]
    cases functionOf? stmt <;> rfl

def functionNamesOf (body : List (Stmt σ)) : List String :=
  (functionsDeclared body).filterMap Func.name

theorem functionNamesOf_map (f : σ → τ) (body : List (Stmt σ)) :
    functionNamesOf (mapStmts f body) = functionNamesOf body := by
  rw [functionNamesOf, functionsDeclared_map, List.filterMap_map]
  exact List.filterMap_congr fun fn _ => name_map f fn

theorem names_mapDeclarators (f : σ → τ) (declarators : List (Declarator σ)) :
    (mapDeclarators f declarators).map Declarator.name = declarators.map Declarator.name := by
  induction declarators with
  | nil => rfl
  | cons declarator rest ih =>
    obtain ⟨name, init⟩ := declarator
    exact congrArg (name :: ·) ih

theorem lexicalsOf_map (f : σ → τ) (decl : Declaration σ) :
    lexicalsOf (decl.map f) = lexicalsOf decl := by
  obtain ⟨kind, declarators⟩ := decl
  have h : ∀ kind : LexicalKind, (mapDeclarators f declarators).map
      (fun declarator => (⟨declarator.name, kind⟩ : Lexical)) =
      declarators.map fun declarator => ⟨declarator.name, kind⟩ := by
    intro kind
    have h := congrArg (List.map fun name => (⟨name, kind⟩ : Lexical)) (names_mapDeclarators f declarators)
    rwa [List.map_map, List.map_map] at h
  cases kind
  · rfl
  · exact h .let_
  · exact h .const

theorem lexicalsOfStmt_map (f : σ → τ) (stmt : Stmt σ) :
    lexicalsOfStmt (stmt.map f) = lexicalsOfStmt stmt := by
  cases stmt with
  | declare decl => exact lexicalsOf_map f decl
  | _ => rfl

theorem lexicalsDeclared_map (f : σ → τ) (body : List (Stmt σ)) :
    lexicalsDeclared (mapStmts f body) = lexicalsDeclared body := by
  induction body with
  | nil => rfl
  | cons stmt rest ih =>
    unfold lexicalsDeclared at ih ⊢
    rw [mapStmts, List.flatMap_cons, List.flatMap_cons, lexicalsOfStmt_map, ih]

theorem functionLexical?_map (f : σ → τ) (stmt : Stmt σ) :
    functionLexical? (stmt.map f) = functionLexical? stmt := by
  unfold functionLexical?
  rw [functionOf?_map]
  cases functionOf? stmt with
  | none => rfl
  | some fn =>
    change (do return ⟨← (fn.map f).name, .function⟩ : Option Lexical) = _
    rw [name_map]
    rfl

theorem blockDeclared_map (f : σ → τ) (body : List (Stmt σ)) :
    blockDeclared (mapStmts f body) = blockDeclared body := by
  induction body with
  | nil => rfl
  | cons stmt rest ih =>
    unfold blockDeclared at ih ⊢
    rw [mapStmts, List.flatMap_cons, List.flatMap_cons, lexicalsOfStmt_map, functionLexical?_map, ih]

theorem caseStatements_map (f : σ → τ) (cases : List (Case σ)) :
    caseStatements (mapCases f cases) = mapStmts f (caseStatements cases) := by
  induction cases with
  | nil => rfl
  | cons clause rest ih =>
    obtain ⟨test, consequent⟩ := clause
    have happend : ∀ before after : List (Stmt σ), mapStmts f (before ++ after) =
        mapStmts f before ++ mapStmts f after := by
      intro before after
      induction before with
      | nil => rfl
      | cons stmt before ih => exact congrArg _ ih
    unfold caseStatements at ih ⊢
    rw [mapCases, List.flatMap_cons, List.flatMap_cons, happend, ih]

/-- The lexical names of the head of a loop. -/
def lexicalsOfHead : Head σ → List Lexical
  | .declaration decl => lexicalsOf decl
  | .expression _ => []

theorem lexicalsOfHead_map (f : σ → τ) (head : Head σ) :
    lexicalsOfHead (head.map f) = lexicalsOfHead head := by
  cases head with
  | declaration decl => exact lexicalsOf_map f decl
  | expression _ => rfl

theorem varNames_map (f : σ → τ) (decl : Declaration σ) :
    varNames (decl.map f) = varNames decl := by
  obtain ⟨kind, declarators⟩ := decl
  cases kind
  · exact names_mapDeclarators f declarators
  · rfl
  · rfl

theorem varNamesOfHead_map (f : σ → τ) (head : Head σ) :
    varNamesOfHead (head.map f) = varNamesOfHead head := by
  cases head with
  | declaration decl => exact varNames_map f decl
  | expression _ => rfl

mutual

theorem varNamesOf_map (f : σ → τ) : (stmt : Stmt σ) → varNamesOf (stmt.map f) = varNamesOf stmt
  | .declare decl => varNames_map f decl
  | .block ⟨_, body⟩ => varNamesOfList_map f body
  | .ifElse _ consequent alternate =>
    congrArg₂ _ (varNamesOf_map f consequent) (varNamesOf?_map f alternate)
  | .switchOn _ _ cases => varNamesOfCases_map f cases
  | .whileDo _ body | .doWhile body _ => varNamesOf_map f body
  | .forLoop _ none _ _ body => congrArg _ (varNamesOf_map f body)
  | .forLoop _ (some head) _ _ body =>
    congrArg₂ _ (varNamesOfHead_map f head) (varNamesOf_map f body)
  | .forIn _ left _ body | .forOf _ left _ body =>
    congrArg₂ _ (varNamesOfHead_map f left) (varNamesOf_map f body)
  | .tryBlock ⟨_, block⟩ handler finalizer =>
    congrArg₂ _ (congrArg₂ _ (varNamesOfList_map f block) (varNamesOfCatch?_map f handler))
      (varNamesOfBlock?_map f finalizer)
  | .withObject _ _ body | .labelled _ body => varNamesOf_map f body
  | .function _ | .expression _ | .returnValue _ | .breakTo _ | .continueTo _ | .throwValue _
  | .debugger | .empty => rfl

theorem varNamesOf?_map (f : σ → τ) : (stmt : Option (Stmt σ)) →
    varNamesOf? (mapStmt? f stmt) = varNamesOf? stmt
  | none => rfl
  | some stmt => varNamesOf_map f stmt

theorem varNamesOfList_map (f : σ → τ) : (body : List (Stmt σ)) →
    varNamesOfList (mapStmts f body) = varNamesOfList body
  | [] => rfl
  | stmt :: rest => congrArg₂ _ (varNamesOf_map f stmt) (varNamesOfList_map f rest)

theorem varNamesOfCases_map (f : σ → τ) : (cases : List (Case σ)) →
    varNamesOfCases (mapCases f cases) = varNamesOfCases cases
  | [] => rfl
  | ⟨_, consequent⟩ :: rest =>
    congrArg₂ _ (varNamesOfList_map f consequent) (varNamesOfCases_map f rest)

theorem varNamesOfBlock?_map (f : σ → τ) : (block : Option (Block σ)) →
    varNamesOfBlock? (mapBlock? f block) = varNamesOfBlock? block
  | none => rfl
  | some ⟨_, body⟩ => varNamesOfList_map f body

theorem varNamesOfCatch?_map (f : σ → τ) : (clause : Option (Catch σ)) →
    varNamesOfCatch? (mapCatch? f clause) = varNamesOfCatch? clause
  | none => rfl
  | some ⟨_, _, ⟨_, body⟩⟩ => varNamesOfList_map f body

end

theorem varDeclared_map (f : σ → τ) (body : List (Stmt σ)) :
    varDeclared (mapStmts f body) = varDeclared body :=
  congrArg List.eraseDups (varNamesOfList_map f body)

/-! ## Tables -/

/-- The names that a table holds. -/
def names (bindings : List Binding) : List String := bindings.map Binding.name

theorem kindIn?_isSome {bindings name} :
    (kindIn? bindings name).isSome = true ↔ name ∈ names bindings := by
  simp only [kindIn?, names, Option.isSome_map, List.find?_isSome, beq_iff_eq, List.mem_map]

theorem names_withKind (bindings : List Binding) (name : String) (kind : BindingKind) :
    names (withKind bindings name kind) = names bindings := by
  unfold names withKind
  rw [List.map_map]
  refine List.map_congr_left fun binding _ => ?_
  dsimp only [Function.comp_apply]
  split
  · next h => exact (beq_iff_eq.mp h).symm
  · rfl

theorem mem_addUnlessDeclared {bindings : List Binding} {name found : String} {kind : BindingKind} :
    found ∈ names (addUnlessDeclared bindings name kind) ↔ found ∈ names bindings ∨ found = name := by
  unfold addUnlessDeclared
  split
  · next h =>
    refine ⟨.inl, fun hf => hf.elim id fun he => ?_⟩
    exact he ▸ kindIn?_isSome.mp h
  · simp [names]

theorem mem_addOverVar {bindings name found kind} :
    found ∈ names (addOverVar bindings name kind) ↔ found ∈ names bindings ∨ found = name := by
  have known : ∀ {kind}, kindIn? bindings name = some kind →
      (found ∈ names bindings ↔ found ∈ names bindings ∨ found = name) := by
    intro kind h
    refine ⟨.inl, fun hf => hf.elim id fun he => ?_⟩
    exact he ▸ kindIn?_isSome.mp (by rw [h]; rfl)
  unfold addOverVar
  split
  · simp [names]
  · next h =>
    rw [names_withKind]
    exact known h
  · next h => exact known h

/-- A table to which a name is added for each element of a list. -/
theorem mem_foldl {α : Type} {add : List Binding → α → List Binding} (key : α → String)
    (h : ∀ bindings x found, found ∈ names (add bindings x) ↔ found ∈ names bindings ∨ found = key x)
    (xs : List α) (bindings : List Binding) (found : String) :
    found ∈ names (xs.foldl add bindings) ↔ found ∈ names bindings ∨ found ∈ xs.map key := by
  induction xs generalizing bindings with
  | nil => simp
  | cons x rest ih => rw [List.foldl_cons, ih, h, List.map_cons, List.mem_cons, or_assoc]

theorem addNew_ok {bindings after : List Binding} {name : String} {kind : BindingKind} :
    addNew bindings name kind = .ok after ↔
      name ∉ names bindings ∧ after = bindings ++ [⟨name, kind⟩] := by
  unfold addNew
  split
  · next h => exact ⟨nofun, fun hn => absurd (kindIn?_isSome.mp h) hn.1⟩
  · next h =>
    rw [Except.ok.injEq, eq_comm]
    exact ⟨fun he => ⟨fun hm => h (kindIn?_isSome.mpr hm), he⟩, And.right⟩

/-- Names that must all be new: they are different, and none of those before. -/
theorem addAll_ok {α : Type} {key : α → String} {kind : α → BindingKind} {xs : List α}
    {bindings after : List Binding} :
    xs.foldlM (fun bindings x => addNew bindings (key x) (kind x)) bindings = .ok after ↔
      (xs.map key).Nodup ∧ (∀ x ∈ xs, key x ∉ names bindings) ∧
        after = bindings ++ xs.map fun x => ⟨key x, kind x⟩ := by
  induction xs generalizing bindings with
  | nil =>
    change Except.ok bindings = Except.ok after ↔ _
    simp [eq_comm]
  | cons x rest ih =>
    have hnames : names (bindings ++ [⟨key x, kind x⟩]) = names bindings ++ [key x] := by
      simp [names]
    rw [List.foldlM_cons, Compile.except_bind_ok]
    simp only [addNew_ok, ih, List.map_cons, List.nodup_cons, List.forall_mem_cons]
    constructor
    · rintro ⟨_, ⟨hx, rfl⟩, hn, hrest, rfl⟩
      rw [hnames] at hrest
      simp only [List.mem_append, List.mem_singleton, not_or] at hrest
      refine ⟨⟨fun hm => ?_, hn⟩, ⟨hx, fun y hy => (hrest y hy).1⟩, by simp⟩
      obtain ⟨y, hy, he⟩ := List.mem_map.mp hm
      exact (hrest y hy).2 he
    · rintro ⟨⟨hx, hn⟩, ⟨hnew, hrest⟩, rfl⟩
      refine ⟨_, ⟨hnew, rfl⟩, hn, fun y hy hm => ?_, by simp⟩
      rw [hnames, List.mem_append, List.mem_singleton] at hm
      exact hm.elim (hrest y hy) fun he => hx (he ▸ List.mem_map_of_mem hy)

/-- A table is made exactly if the names are fair, and then for the declared ones. -/
structure Tabulates (made : Except EarlyError (List Binding)) (fair : Prop)
    (declared : List String) : Prop where
  iff : (∃ table, made = .ok table) ↔ fair
  declares : ∀ {table}, made = .ok table → ∀ name, name ∈ names table ↔ name ∈ declared

theorem addAll_tabulated {α : Type} (key : α → String) (kind : α → BindingKind) (xs : List α) :
    Tabulates (xs.foldlM (fun bindings x => addNew bindings (key x) (kind x)) [])
      (xs.map key).Nodup (xs.map key) := by
  refine ⟨⟨fun ⟨_, ht⟩ => (addAll_ok.mp ht).1, fun hn => ⟨_, addAll_ok.mpr ⟨hn, nofun, rfl⟩⟩⟩,
    fun ht name => ?_⟩
  rw [(addAll_ok.mp ht).2.2]
  simp [names, Function.comp_def]

theorem imports_tabulated (imports : List String) :
    Tabulates (importBindings imports) imports.Nodup imports := by
  have h := addAll_tabulated id (fun _ => .imported) imports
  rwa [List.map_id] at h

theorem foldlM_congr {α : Type} {f g : List Binding → α → Except EarlyError (List Binding)}
    (h : ∀ bindings x after, f bindings x = .ok after ↔ g bindings x = .ok after) {xs : List α}
    {bindings after : List Binding} :
    xs.foldlM f bindings = .ok after ↔ xs.foldlM g bindings = .ok after := by
  induction xs generalizing bindings with
  | nil => rfl
  | cons x rest ih => simp only [List.foldlM_cons, Compile.except_bind_ok, h, ih]

theorem parameters_tabulated (strict : Bool) (params : List String) :
    Tabulates (parameterBindings strict params) (strict = true → params.Nodup) params := by
  cases strict with
  | false =>
    have h : parameterBindings false params = .ok (params.foldl
        (fun bindings name => addUnlessDeclared bindings name .parameter) []) := List.foldlM_pure ..
    refine ⟨⟨fun _ => nofun, fun _ => ⟨_, h⟩⟩, fun ht name => ?_⟩
    rw [h] at ht
    cases ht
    simpa [names] using mem_foldl id (fun _ _ _ => mem_addUnlessDeclared) params [] name
  | true =>
    have h {table} : parameterBindings true params = .ok table ↔
        params.foldlM (fun bindings name => addNew bindings name .parameter) [] = .ok table := by
      refine foldlM_congr fun bindings name after => ?_
      unfold addNew addUnlessDeclared
      cases (kindIn? bindings name).isSome <;> simp
    have hnew := addAll_tabulated id (fun _ => .parameter) params
    rw [List.map_id] at hnew
    refine ⟨?_, fun ht => hnew.declares (h.mp ht)⟩
    simp only [h, true_imp_iff]
    exact hnew.iff

/-! ## Blocks -/

/-- A name is shared only by functions in sloppy code. -/
def Shareable (strict : Bool) (first second : Lexical) : Prop :=
  first.name = second.name → strict = false ∧ first.kind = .function ∧ second.kind = .function

/-- The table of the names of a block. -/
structure BlockTable (lexicals : List Lexical) (table : List Binding) : Prop where
  distinct : (names table).Nodup
  holds : ∀ binding, binding ∈ table ↔
    ∃ lexical ∈ lexicals, binding = ⟨lexical.name, lexical.kind.binding⟩

theorem binding_eq_function {kind : LexicalKind} : kind.binding = .function ↔ kind = .function := by
  cases kind <;> simp [LexicalKind.binding]

theorem kindIn?_eq_some {bindings : List Binding} (h : (names bindings).Nodup) {name : String}
    {kind : BindingKind} : kindIn? bindings name = some kind ↔ ⟨name, kind⟩ ∈ bindings := by
  induction bindings with
  | nil => simp [kindIn?]
  | cons binding rest ih =>
    obtain ⟨hn, hrest⟩ := List.nodup_cons.mp h
    have ih := ih hrest
    obtain ⟨other, found⟩ := binding
    unfold kindIn? at ih ⊢
    by_cases he : other = name
    · subst he
      have hne : (⟨other, kind⟩ : Binding) ∉ rest := fun hm => hn (List.mem_map.mpr ⟨_, hm, rfl⟩)
      simp [hne, eq_comm]
    · simp [he, ih, Ne.symm he]

theorem BlockTable.name_mem {lexicals : List Lexical} {table : List Binding}
    (h : BlockTable lexicals table) (name : String) :
    name ∈ names table ↔ name ∈ lexicals.map Lexical.name := by
  simp only [names, List.mem_map, h.holds]
  constructor
  · rintro ⟨_, ⟨lexical, hl, rfl⟩, rfl⟩
    exact ⟨lexical, hl, rfl⟩
  · rintro ⟨lexical, hl, rfl⟩
    exact ⟨_, ⟨lexical, hl, rfl⟩, rfl⟩

/-- The table of a block with one more name. -/
def addToBlock (strict : Bool) (table : List Binding) (lexical : Lexical) :
    Except EarlyError (List Binding) :=
  if (lexical.kind == .function && kindIn? table lexical.name == some .function) && !strict then
    .ok table
  else addNew table lexical.name lexical.kind.binding

namespace BlockTable

variable {strict : Bool} {done : List Lexical} {table after : List Binding} {lexical : Lexical}

/-- The name of a block that a table holds already. -/
theorem found (h : BlockTable done table) {name} (hm : name ∈ names table) :
    ∃ first ∈ done, first.name = name ∧ kindIn? table name = some first.kind.binding := by
  obtain ⟨first, hf, he⟩ := List.mem_map.mp ((h.name_mem _).mp hm)
  refine ⟨first, hf, he, (kindIn?_eq_some h.distinct).mpr ?_⟩
  rw [← he]
  exact (h.holds _).mpr ⟨first, hf, rfl⟩

theorem step (h : BlockTable done table) (hs : addToBlock strict table lexical = .ok after) :
    (∀ first ∈ done, Shareable strict first lexical) ∧ BlockTable (done ++ [lexical]) after := by
  unfold addToBlock at hs
  split at hs
  · next hr =>
    cases hs
    simp only [Bool.and_eq_true, beq_iff_eq, Bool.not_eq_true'] at hr
    obtain ⟨⟨hk, hf⟩, hstrict⟩ := hr
    have hmem := (kindIn?_eq_some h.distinct).mp hf
    refine ⟨fun first hm he => ⟨hstrict, ?_, hk⟩, h.distinct, fun binding => ?_⟩
    · have hfirst := (h.holds _).mpr ⟨first, hm, rfl⟩
      rw [he, ← kindIn?_eq_some h.distinct, hf] at hfirst
      exact binding_eq_function.mp (Option.some.inj hfirst).symm
    · simp only [h.holds, List.mem_append, List.mem_singleton, or_and_right, exists_or,
        exists_eq_left]
      refine ⟨.inl, fun hb => hb.elim id ?_⟩
      rintro rfl
      rw [hk]
      exact (h.holds _).mp hmem
  · obtain ⟨hn, rfl⟩ := addNew_ok.mp hs
    refine ⟨fun first hm he => absurd ?_ hn, ?_, fun binding => ?_⟩
    · exact (h.name_mem _).mpr (he ▸ List.mem_map_of_mem hm)
    · simp only [names, List.map_append, List.map_cons, List.map_nil]
      exact List.nodup_append.mpr ⟨h.distinct, by simp, fun a ha b hb he => hn (by
        rw [List.mem_singleton.mp hb] at he
        exact he ▸ ha)⟩
    · simp [h.holds, or_and_right, exists_or]

theorem made (h : BlockTable done table) (hs : ∀ first ∈ done, Shareable strict first lexical) :
    ∃ after, addToBlock strict table lexical = .ok after := by
  unfold addToBlock
  by_cases hm : lexical.name ∈ names table
  · obtain ⟨first, hf, he, hk⟩ := h.found hm
    obtain ⟨hstrict, hfirst, hlexical⟩ := hs first hf he
    rw [if_pos (by simp [hstrict, hlexical, hk, hfirst, LexicalKind.binding])]
    exact ⟨table, rfl⟩
  · split
    · exact ⟨table, rfl⟩
    · exact ⟨_, addNew_ok.mpr ⟨hm, rfl⟩⟩

theorem all (h : BlockTable done table) (lexicals : List Lexical) :
    ((∃ after, lexicals.foldlM (addToBlock strict) table = .ok after) ↔
      lexicals.Pairwise (Shareable strict) ∧
        ∀ first ∈ done, ∀ lexical ∈ lexicals, Shareable strict first lexical) ∧
    ∀ {after}, lexicals.foldlM (addToBlock strict) table = .ok after →
      BlockTable (done ++ lexicals) after := by
  induction lexicals generalizing done table with
  | nil => exact ⟨⟨fun _ => ⟨.nil, nofun⟩, fun _ => ⟨table, rfl⟩⟩, fun hs => by cases hs; simpa⟩
  | cons lexical rest ih =>
    simp only [List.foldlM_cons, Compile.except_bind_ok, List.pairwise_cons, List.mem_cons,
      forall_eq_or_imp]
    refine ⟨⟨?_, ?_⟩, ?_⟩
    · rintro ⟨after, next, hs, hr⟩
      obtain ⟨hshare, hnext⟩ := h.step hs
      obtain ⟨hp, hd⟩ := (ih hnext).1.mp ⟨after, hr⟩
      simp only [List.mem_append, List.mem_singleton, or_imp, forall_and, forall_eq] at hd
      exact ⟨⟨hd.2, hp⟩, fun first hf => ⟨hshare first hf, hd.1 first hf⟩⟩
    · rintro ⟨⟨hl, hp⟩, hd⟩
      obtain ⟨next, hs⟩ := h.made fun first hf => (hd first hf).1
      obtain ⟨after, hr⟩ := (ih (h.step hs).2).1.mpr ⟨hp, fun first hf => by
        rcases List.mem_append.mp hf with hf | hf
        · exact (hd first hf).2
        · exact List.mem_singleton.mp hf ▸ hl⟩
      exact ⟨after, next, hs, hr⟩
    · rintro after ⟨next, hs, hr⟩
      have htable := (ih (h.step hs).2).2 hr
      rwa [List.append_assoc] at htable

end BlockTable

/-- The table of a block is made exactly if its names are fair. -/
structure TabulatesBlock (made : Except EarlyError (List Binding)) (fair : Prop)
    (lexicals : List Lexical) : Prop where
  iff : (∃ table, made = .ok table) ↔ fair
  table : ∀ {table}, made = .ok table → BlockTable lexicals table

theorem block_tabulated (strict : Bool) (lexicals : List Lexical) :
    TabulatesBlock (blockBindings strict lexicals) (lexicals.Pairwise (Shareable strict))
      lexicals := by
  obtain ⟨hiff, htable⟩ := (⟨.nil, by simp⟩ : BlockTable [] []).all lexicals
  exact ⟨hiff.trans (by simp), htable⟩

theorem head_tabulated (head : Head σ) :
    TabulatesBlock (headBindings head) ((lexicalsOfHead head).map Lexical.name).Nodup
      (lexicalsOfHead head) := by
  cases head with
  | declaration decl =>
    have h := addAll_tabulated Lexical.name (fun lexical => lexical.kind.binding) (lexicalsOf decl)
    refine ⟨h.iff, fun ht => ?_⟩
    obtain ⟨hn, -, rfl⟩ := addAll_ok.mp ht
    refine ⟨?_, fun binding => ?_⟩
    · simpa [names, Function.comp_def] using hn
    · simp [eq_comm, lexicalsOfHead]
  | expression _ =>
    refine ⟨⟨fun _ => .nil, fun _ => ⟨[], rfl⟩⟩, fun ht => ?_⟩
    cases ht
    exact ⟨.nil, by simp [lexicalsOfHead]⟩

/-! ## Bodies -/

/-- The lexical names of a body are different from each other and from all that is declared there in
another way. -/
structure FairBody (outer : List String) (body : List (Stmt σ)) : Prop where
  distinct : ((lexicalsDeclared body).map Lexical.name).Nodup
  apart : ∀ lexical ∈ lexicalsDeclared body,
    lexical.name ∉ outer ++ varNamesOfList body ++ functionNamesOf body

def bodyTable (outer : List String) (body : List (Stmt σ)) : List String :=
  outer ++ varNamesOfList body ++ functionNamesOf body ++ (lexicalsDeclared body).map Lexical.name

theorem Tabulates.body {made : Except EarlyError (List Binding)} {fair : Prop} {outer : List String}
    (h : Tabulates made fair outer) (body : List (Stmt σ)) :
    Tabulates (do bodyBindings (← made) body) (fair ∧ FairBody outer body)
      (bodyTable outer body) := by
  have hbefore {start : List Binding} (hs : made = .ok start) (name : String) :
      name ∈ names ((functionNamesOf body).foldl
        (fun bindings name => addOverVar bindings name .function) ((varDeclared body).foldl
          (fun bindings name => addUnlessDeclared bindings name .var) start)) ↔
        name ∈ outer ++ varNamesOfList body ++ functionNamesOf body := by
    refine (mem_foldl id (fun _ _ _ => mem_addOverVar) _ _ name).trans ?_
    rw [List.map_id, List.mem_append, List.mem_append]
    refine or_congr ((mem_foldl id (fun _ _ _ => mem_addUnlessDeclared) _ _ name).trans ?_) .rfl
    rw [List.map_id, h.declares hs, varDeclared, List.mem_eraseDups]
  refine ⟨⟨?_, ?_⟩, fun ht name => ?_⟩
  · rintro ⟨table, ht⟩
    obtain ⟨start, hs, ht⟩ := Compile.except_bind_ok.mp ht
    obtain ⟨hd, ha, -⟩ := addAll_ok.mp ht
    exact ⟨h.iff.mp ⟨start, hs⟩, hd, fun lexical hl => (hbefore hs _).not.mp (ha lexical hl)⟩
  · rintro ⟨hf, hd, ha⟩
    obtain ⟨start, hs⟩ := h.iff.mpr hf
    exact ⟨_, Compile.except_bind_ok.mpr ⟨start, hs, addAll_ok.mpr
      ⟨hd, fun lexical hl => (hbefore hs _).not.mpr (ha lexical hl), rfl⟩⟩⟩
  · obtain ⟨start, hs, ht⟩ := Compile.except_bind_ok.mp ht
    obtain ⟨-, -, rfl⟩ := addAll_ok.mp ht
    rw [bodyTable, List.mem_append, ← hbefore hs]
    simp [names, Function.comp_def, functionNamesOf]

/-! ## Early errors -/

/-- What is demanded of the declarations in a program. The fixed names of properties are not looked
at. -/
def early : Demand σ where
  names := False
  function strict fn :=
    (strict = true → fn.params.Nodup) ∧ FairBody fn.params fn.statements
  block strict body := (blockDeclared body).Pairwise (Shareable strict) ∧
    ∀ lexical ∈ blockDeclared body, lexical.name ∉ varNamesOfList body
  head _ head body := ((lexicalsOfHead head).map Lexical.name).Nodup ∧
    ∀ lexical ∈ lexicalsOfHead head, lexical.name ∉ varNamesOfHead head ++ varNamesOf body
  withObject strict := strict = false

end Ecma.Scope
