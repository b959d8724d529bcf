/-
Programs at one pace. A script checks all names that it declares before it declares the first
one; a module has a record of its own.
-/
import Ecma.Proofs.Options.Functions

namespace Ecma.Compile

open Code (Template)
open Scope (functionsDeclared lexicalsDeclared varDeclared)

variable {opts : Choices} {ctx : Context} {hulls : List Hull} {es es' : List Exit}
  {fs fs' : List Fact} {here here' : Option Shape}

theorem statementsBody_paced {body} (hb : PacedStmt opts body) :
    PacedReturn opts (statementsBody body) := by
  intro ctx hulls
  obtain ⟨c, es, hb⟩ := hb ctx hulls
  refine ⟨es ++ [], fun fs => .complete (hb fs) ?_⟩
  cases hc : c.isAbrupt with
  | true =>
    simp only [Completion.reach, hc]
    exact .pure ⟨rfl, rfl⟩
  | false =>
    simp only [Completion.reach, hc]
    exact .step (.op rfl rfl) fun _ _ => .leave rfl

/-! ## Declarations of a script -/

/-- What a script knows of the names that it checked. -/
def checked (lexical vars : List String) : Option Shape := some ⟨0, .globals lexical vars⟩

/-- A round for each element of a list, each of which is learnt. -/
theorem Pace.sweep {α : Type} {f g} (learnt : List α → Option Shape) (xs : List α)
    (h : ∀ done x, Pace opts ctx hulls [] fs (learnt done) (f x ⟨⟩) (g x ⟨⟩)
      (Gives (· = .yield ⟨⟩) fs (learnt (x :: done)))) (done : List α) :
    Pace opts ctx hulls [] fs (learnt done) (forIn xs PUnit.unit f)
      (forIn xs PUnit.unit g) (Then fs (learnt (xs.reverse ++ done))) := by
  induction xs generalizing done with
  | nil => exact .pure ⟨rfl, rfl⟩
  | cons x rest ih =>
    simp only [List.forIn_cons, List.reverse_cons, List.append_assoc, List.singleton_append]
    refine .take (h done x) ?_
    rintro _ rfl
    exact ih (x :: done)

theorem hoistGlobal_paced {functions lexical vars}
    (hf : ∀ function ∈ functions, PacedTemplate opts function.2)
    (hv : ∀ function ∈ functions, function.1 ∈ vars)
    (hl : ∀ function ∈ functions, function.1 ∉ lexical) :
    Pace opts ctx hulls [] fs (checked lexical vars) (hoistGlobal functions)
      (hoistGlobal functions) (Then fs (checked lexical vars)) := by
  let emit : String × Emit Template → Emit Unit := fun function => do
    pushClosure (← function.2)
    opBinding .createGlobalFunction function.1 false
  have h := @Pace.forM _ opts ctx hulls emit emit (fun _ => []) (fun _ => fs)
    (fun _ => checked lexical vars) (declaredFunctions functions) fun function rest hs => by
      have hm := mem_declaredFunctions (hs.subset (.head _))
      refine @Pace.bind _ _ _ _ _ _ _ [] [] _ _ _ _ _ _ _ _ (hf function hm).pace ?_
      rintro a b _ _ ⟨ht, rfl, rfl⟩
      refine .step (.pushClosure ht) fun _ _ => ?_
      exact .opConstant (.addName _) fun _ _ _ hs hn =>
        .declareFunction hs rfl (hv function hm) (hl function hm) (hn _ rfl)
  rwa [List.flatMap_eq_nil_iff.mpr fun _ _ => rfl] at h

theorem declareGlobals_paced {σ : Type} {body : List (Syntax.Stmt σ)}
    {functions : List (String × Emit Template)}
    (hf : ∀ function ∈ functions, PacedTemplate opts function.2) (hn : ∀ function ∈ functions,
      function.1 ∈ (functionsDeclared body).filterMap Syntax.Func.name)
    (hapart : ∀ lexical ∈ lexicalsDeclared body,
      lexical.name ∉ varDeclared body ++ (functionsDeclared body).filterMap Syntax.Func.name) :
    Pace opts ctx hulls [] fs (checked [] []) (declareGlobals body (hoistGlobal functions))
      (declareGlobals body (hoistGlobal functions)) (Then fs (up 0)) := by
  let names := (functionsDeclared body).filterMap Syntax.Func.name
  let lexical := (lexicalsDeclared body).reverse.map Scope.Lexical.name
  let vars := (varDeclared body ++ names).reverse
  have hlexical : ∀ name, name ∈ vars → name ∉ lexical := by
    intro name hv hl
    obtain ⟨found, hfound, rfl⟩ := List.mem_map.mp hl
    exact hapart found (List.mem_reverse.mp hfound) (List.mem_reverse.mp hv)
  have hvars : ∀ name ∈ names, name ∈ vars := fun name hm =>
    List.mem_reverse.mpr (List.mem_append_right _ hm)
  have hplain : ∀ name ∈ plainVars body, name ∈ vars := fun name hm =>
    List.mem_reverse.mpr (List.mem_append_left _ (List.mem_filter.mp hm).1)
  have done : ∀ {found}, Gives (α := ForInStep PUnit) (· = .yield ⟨⟩) fs found (.yield ⟨⟩)
      (.yield ⟨⟩) fs found := ⟨rfl, rfl, rfl, rfl⟩
  refine .step (Pace.sweep (fun found => checked (found.map Scope.Lexical.name) []) _
    (fun _ _ => .step (.opConstant (.addName _) fun _ _ _ hs hn => .checkLexical hs rfl (hn _ rfl))
      fun _ _ => .pure done) []) fun _ _ => ?_
  rw [List.append_nil]
  refine .step (Pace.sweep (fun found => checked lexical found) _
    (fun _ _ => .step (.opConstant (.addName _) fun _ _ _ hs hn => .checkVar hs rfl (hn _ rfl))
      fun _ _ => .pure done) []) fun _ _ => ?_
  rw [List.append_nil]
  refine .step (.loop fun _ _ => .step (.opConstant (.addName _) fun _ _ _ hs hn =>
    .check rfl hs (hn _ rfl)) fun _ _ => .pure done) fun _ _ => ?_
  refine .step (.loop fun _ _ => .step (.opConstant (.addName _) fun _ _ _ hs hn =>
    .check rfl hs (hn _ rfl)) fun _ _ => .pure done) fun _ _ => ?_
  refine .step (.loop fun found hm => .step (.opConstant (.addName _) fun _ _ _ hs hn =>
    .declareLexical hs rfl ?_ ?_ (hn _ rfl)) fun _ _ => .pure done) fun _ _ => ?_
  · exact List.mem_map_of_mem (List.mem_reverse.mpr hm)
  · exact fun hv => hapart found hm (List.mem_reverse.mp hv)
  refine .step (hoistGlobal_paced hf (fun function hm => hvars _ (hn function hm))
    fun function hm => hlexical _ (hvars _ (hn function hm))) fun _ _ => ?_
  refine .step (.loop fun name hm => .step (.opConstant (.addName _) fun _ _ _ hs hn =>
    .declareVar hs rfl (hplain name hm) (hlexical _ (hplain name hm)) (hn _ rfl)) fun _ _ =>
      .pure done) fun _ _ => ?_
  refine .ease ?_ (.pure ⟨rfl, rfl⟩)
  rintro _ ⟨⟩
  exact ⟨_, rfl, rfl, .any⟩

/-! ## Whole programs -/

/-- Outside of all constructs, exits teach nothing. -/
theorem Pace.outside {α β : Type} {x : Emit α} {y : Emit β} {after : After α β}
    (h : Pace opts ctx [] es fs here x y after) :
    Pace opts ctx [] es' fs here x y after := by
  intro cs one other hh hs
  obtain rfl := List.map_eq_nil_iff.mp hh
  have h := h [] one other rfl hs
  generalize x (opts.first ctx) one = first at h ⊢
  generalize y (opts.second ctx) other = second at h ⊢
  cases h with
  | error he => exact .error he
  | ok h =>
    obtain ⟨fs', here', cs', ha, hl, hs⟩ := h
    cases hl
    exact .ok ⟨fs', here', [], ha, .nil, hs⟩

theorem scriptCode_paced {body : List (Syntax.Stmt (Option ScopeId))}
    (hf : ∀ function ∈ functions body, PacedTemplate opts function.2)
    (hn : ∀ function ∈ functions body,
      function.1 ∈ (functionsDeclared body).filterMap Syntax.Func.name)
    (hapart : ∀ lexical ∈ lexicalsDeclared body,
      lexical.name ∉ varDeclared body ++ (functionsDeclared body).filterMap Syntax.Func.name)
    (hb : PacedStmt opts (inOrder (stmts body))) :
    Pace opts ctx [] [] fs (checked [] []) (scriptCode body) (scriptCode body)
      (Then fs none) := by
  refine .step (declareGlobals_paced hf hn hapart) fun _ _ => .take .newRegister fun register _ => ?_
  obtain ⟨c, es, hb⟩ := hb { ctx with completion := some register } []
  refine @Pace.outside _ _ (es ++ []) _ _ _ _ _ _ _ _ (.complete (hb fs) ?_)
  cases hc : c.isAbrupt with
  | true =>
    simp only [Completion.reach, hc]
    exact .pure ⟨rfl, rfl⟩
  | false =>
    simp only [Completion.reach, hc]
    exact .step (.opRegister rfl rfl) fun _ _ => .leave rfl

theorem moduleCode_paced {body} (hf : ∀ function ∈ functions body, PacedTemplate opts function.2)
    (hb : PacedStmt opts (inOrder (stmts body))) (scope : ScopeId) (imports : List String) :
    ∃ es, ∀ fs, Pace opts ctx [] es fs (some ⟨0, .cells 0⟩)
      (moduleCode scope imports body) (moduleCode scope imports body) (Then fs none) := by
  obtain ⟨es, hb⟩ := statementsBody_paced hb ctx []
  exact ⟨es, fun fs => .step (createBindings_paced scope) fun _ _ =>
    .step (initializeImports_paced scope imports) fun _ _ =>
    .step (initializeVars_paced scope) fun _ _ => .step (hoist_paced hf scope) fun _ _ => hb fs⟩

/-- A program whose parts are at one pace is compiled in step. -/
theorem template_paced {analysed} (hscopes : opts.scopes = analysed.scopes)
    (hf : ∀ function ∈ functions analysed.program.body, PacedTemplate opts function.2)
    (hn : ∀ function ∈ functions analysed.program.body,
      function.1 ∈ (functionsDeclared analysed.program.body).filterMap Syntax.Func.name)
    (hapart : ∀ lexical ∈ lexicalsDeclared analysed.program.body,
      lexical.name ∉ varDeclared analysed.program.body ++
        (functionsDeclared analysed.program.body).filterMap Syntax.Func.name)
    (hb : PacedStmt opts (inOrder (stmts analysed.program.body))) :
    Templates opts.room (template opts.one analysed) (template opts.other analysed) := by
  have hinside : ∀ options kind, opts.under options (opts.inside 0 kind) =
      { scopes := analysed.scopes, options, kind, strict := (analysed.scopes.scope 0).strict,
        scope := 0 } := by
    intro options kind
    rw [← hscopes]
    rfl
  unfold template
  dsimp only
  cases analysed.program.goal with
  | script =>
    have h := @compileUnit_paced opts (opts.inside 0 .script) [] _ _ [.entry ⟨0, .globals [] []⟩]
      _ _ _ _ _ rfl rfl (standing_fresh _ _ _)
      (.weaken (scriptCode_paced hf hn hapart hb) fun _ _ _ _ ⟨hfacts, hnone⟩ =>
        ⟨_, _, .refl _, .refl _, hnone, by simp [hfacts], by simp [hfacts]; rfl, nofun⟩)
      "<script>" 0
    rwa [Choices.first, Choices.second, hinside, hinside] at h
  | module =>
    obtain ⟨es, hm⟩ := @moduleCode_paced opts (opts.inside 0 .module) _ hf hb 0
      analysed.program.imports
    have heases : Eases (some ⟨0, .start⟩) (some ⟨0, .cells 0⟩) := by
      rintro _ ⟨⟩
      exact ⟨_, rfl, rfl, .start⟩
    have h := @compileUnit_paced opts (opts.inside 0 .module) es _ _ [.entry ⟨0, .start⟩]
      _ _ _ _ _ rfl rfl (standing_fresh _ _ _)
      (.ease heases (.weaken (hm _) fun _ _ _ _ ⟨hfacts, hnone⟩ =>
        ⟨_, _, .refl _, .refl _, hnone, by simp [hfacts], by simp [hfacts]; rfl, nofun⟩))
      "<module>" 0
    rwa [Choices.first, Choices.second, hinside, hinside] at h

end Ecma.Compile
