/-
Whole functions and programs at one pace: their declarations, their body, and the templates that
are made of them.
-/
import Ecma.Compile.Program
import Ecma.Proofs.Finishing

namespace Ecma.Compile

open Code (Instruction Label Template FunctionKind InStep)

variable {opts : Choices} {ctx : Context} {hulls : List Hull} {es : List Exit}
  {fs fs' : List Fact} {here here' : Option Shape}

/-! ## Declarations of a function -/

theorem initializeIn_paced (scope : ScopeId) (name : String) :
    PacedPlain opts (initializeIn scope name) 1 0 := by
  intro ctx hulls fs height
  refine .take .scopeAt fun found _ => ?_
  cases found.slotOf? name with
  | none => exact .throw rfl
  | some slot => exact initializeSlot_paced slot

theorem initializeVars_paced (scope : ScopeId) : PacedPlain opts (initializeVars scope) 0 0 := by
  intro ctx hulls fs height
  refine .take .scopeAt fun found _ => .step (.loop ?_) fun _ _ => .pure ⟨rfl, rfl⟩
  rintro ⟨binding, slot⟩ -
  dsimp only
  split
  · exact .step (.op rfl rfl) fun _ _ => .step (initializeSlot_paced slot) fun _ _ =>
      .pure ⟨rfl, rfl, rfl, rfl⟩
  · exact .pure ⟨rfl, rfl, rfl, rfl⟩

theorem initializeParams_paced (scope : ScopeId) (params : List String) :
    PacedPlain opts (initializeParams scope params) 0 0 := by
  intro ctx hulls fs height
  refine .step (.loop ?_) fun _ _ => .pure ⟨rfl, rfl⟩
  rintro ⟨param, index⟩ -
  exact .step (.opWith rfl rfl rfl) fun _ _ => .step (initializeIn_paced scope param) fun _ _ =>
    .pure ⟨rfl, rfl, rfl, rfl⟩

theorem initializeImports_paced (scope : ScopeId) (imports : List String) :
    PacedPlain opts (initializeImports scope imports) 0 0 := by
  intro ctx hulls fs height
  refine .step (.loop ?_) fun _ _ => .pure ⟨rfl, rfl⟩
  rintro ⟨name, index⟩ -
  exact .step (.opWith rfl rfl rfl) fun _ _ => .step (initializeIn_paced scope name) fun _ _ =>
    .pure ⟨rfl, rfl, rfl, rfl⟩

theorem initializeArguments_paced (scope : ScopeId) :
    PacedPlain opts (initializeArguments scope) 0 0 := by
  intro ctx hulls fs height
  refine .take .scopeAt fun found _ => ?_
  split
  · exact .step (.op rfl rfl) fun _ _ => initializeIn_paced scope _
  · exact .pure ⟨rfl, rfl⟩

theorem initializeCallee_paced (scope : ScopeId) (name : Option String) :
    PacedPlain opts (initializeCallee scope name) 0 0 := by
  intro ctx hulls fs height
  cases name with
  | none => exact .pure ⟨rfl, rfl⟩
  | some name =>
    refine .take .scopeAt fun found _ => ?_
    split
    · exact .step (.op rfl rfl) fun _ _ => initializeIn_paced scope name
    · exact .pure ⟨rfl, rfl⟩

theorem hoist_paced {functions} (hf : ∀ function ∈ functions, PacedTemplate opts function.2)
    (scope : ScopeId) : PacedPlain opts (hoist scope functions) 0 0 := by
  intro ctx hulls fs height
  let emit : String × Emit Template → Emit Unit := fun function => do
    pushClosure (← function.2)
    initializeIn scope function.1
  have h := @Pace.forM _ opts ctx hulls emit emit (fun _ => []) (fun _ => fs)
    (fun _ => up height) (declaredFunctions functions)
    fun function rest hs => by
      have hm := mem_declaredFunctions (hs.subset (.head _))
      refine .lead (hf function hm).pace ?_
      rintro a b _ _ ⟨ht, rfl, rfl⟩
      refine .step (.pushClosure ht) fun _ _ => ?_
      exact initializeIn_paced scope function.1
  rwa [List.flatMap_eq_nil_iff.mpr fun _ _ => rfl] at h

/-! ## From a fresh start -/

/-- Nothing is made yet. -/
def Ledger.fresh : Ledger where
  seam p q := p = 0 ∧ q = 0
  point _ _ _ := False
  target _ _ _ := False

theorem Emitter.Side.fresh_start (known : Label → Prop) : ({} : Emitter).Side [] known where
  fresh := List.nodup_nil
  unplaced _ hl := nomatch hl
  units := rfl
  code _ hi := nomatch hi
  resume _ hl := nomatch hl
  tables _ ht := nomatch ht
  apartCode _ hu := nomatch hu

theorem standing_fresh (room : Nat) (kind : FunctionKind) (shape : Shape) :
    Standing room kind [.entry shape] [] (some shape) {} {} := by
  refine ⟨⟨.fresh, ⟨⟨⟨rfl, rfl⟩, ?_, ?_, nofun, nofun⟩, ⟨nofun, .fresh_start _, .fresh_start _⟩,
    ⟨.nil, .nil, rfl, rfl, rfl⟩, ?_⟩⟩, rfl, rfl⟩
  · rintro p q p' q' ⟨rfl, rfl⟩ ⟨rfl, rfl⟩
    exact Iff.rfl
  · rintro p q ⟨rfl, rfl⟩
    exact Nat.le_refl _
  · intro fact hf
    obtain rfl := List.mem_singleton.mp hf
    exact .next rfl rfl rfl (.refl shape)

/-- The way back to a suspension stands first. -/
theorem standing_begins {room kind} :
    Standing room kind [.begins, .entry ⟨0, .start⟩] [] (some ⟨0, .cells 0⟩)
      (({} : Emitter).emit ⟨.resumeDispatch, none⟩)
      (({} : Emitter).emit ⟨.resumeDispatch, none⟩) := by
  obtain ⟨⟨ledger, h⟩, -, -⟩ := standing_fresh room kind ⟨0, .start⟩
  obtain ⟨later, h⟩ := h.emit (.nothing _)
    (@Instruction.Alike.begin (emitting ledger (fun _ _ _ => False) (some ⟨0, .cells 0⟩) {} {}) _ rfl
      ⟨_, rfl, .refl _⟩)
  exact ⟨⟨later, h.note rfl ⟨rfl, rfl⟩⟩, rfl, rfl⟩

/-- What code making that ends must leave. -/
structure Ended (kind : FunctionKind) (fs : List Fact) (here : Option Shape) : Prop where
  here : here = none
  settled : ∀ l m height, Fact.label l m (some height) ∉ fs
  entry : Fact.entry kind.entry ∈ fs
  begins : kind.isResumable = true → Fact.begins ∈ fs

/-- The same error of the tree, or templates in step. -/
inductive Templates (room : Nat) : Except CompileError Template → Except CompileError Template → Prop
  | ok {template template'} : InStep room template template' →
    Templates room (.ok template) (.ok template')
  | error {error} : error.blamesTree = true → Templates room (.error error) (.error error)

/-- Code that is made at one pace from a fresh start is finished in step. -/
theorem compileUnit_paced {code code' fs here one other rest rest'}
    (hone : code (opts.first ctx) {} = rest (opts.first ctx) one)
    (hother : code' (opts.second ctx) {} = rest' (opts.second ctx) other)
    (hs : Standing opts.room ctx.kind fs [] here one other)
    (h : Pace opts ctx [] es fs here rest rest' fun _ _ fs' here' =>
      Ended ctx.kind fs' here') (name : String) (paramCount : Nat) :
    Templates opts.room (compileUnit (opts.first ctx) name paramCount code)
      (compileUnit (opts.second ctx) name paramCount code') := by
  have h := h [] one other rfl hs
  unfold compileUnit
  rw [hone, hother]
  generalize rest (opts.first ctx) one = first at h
  generalize rest' (opts.second ctx) other = second at h
  cases h with
  | error he => exact .error he
  | ok h =>
    obtain ⟨fs', here', cs, hended, hl, ⟨⟨ledger, ha⟩, -, -⟩⟩ := h
    cases hl
    rw [List.flatMap_nil, List.append_nil] at ha
    obtain ⟨first, second, hfirst, hsecond, hstep⟩ :=
      finish_inStep ha hended.here hended.settled hended.entry hended.begins name paramCount
    change Templates _ (finish _ _ _ _) (finish _ _ _ _)
    rw [hfirst, hsecond]
    exact .ok hstep

/-! ## Functions -/

/-- The code of a function after the way back to its suspensions. -/
def functionRest (scope : ScopeId) (name : Option String) (params : List String)
    (functions : List (String × Emit Template)) (gen : Bool) (code : Emit Unit) :
    Emit Unit := do
  createBindings scope
  initializeParams scope params
  initializeArguments scope
  initializeVars scope
  hoist scope functions
  initializeCallee scope name
  if gen then generatorStart
  code

theorem functionCode_eq (scope : ScopeId) (name : Option String) (params : List String)
    (functions : List (String × Emit Template)) (code : Emit Unit) (options : Options) :
    functionCode scope name params functions code (opts.under options ctx) {} =
      functionRest scope name params functions (ctx.kind == .generator) code
        (opts.under options ctx)
        (if ctx.kind.isResumable then ({} : Emitter).emit ⟨.resumeDispatch, none⟩ else {}) := by
  unfold functionCode
  cases hk : ctx.kind.isResumable with
  | true | false =>
    change ((if ctx.kind.isResumable then _ else _ : Emit Unit) _ {}) = _
    rw [hk]
    rfl

theorem functionRest_paced {functions} (hf : ∀ function ∈ functions, PacedTemplate opts function.2)
    {code} (hc : ∀ fs, Pace opts ctx hulls es fs (up 0) code code (Then fs none))
    (scope : ScopeId) (name : Option String) (params : List String) :
    Pace opts ctx hulls es fs (some ⟨0, .cells 0⟩)
      (functionRest scope name params functions (ctx.kind == .generator) code)
      (functionRest scope name params functions (ctx.kind == .generator) code)
      (Then fs none) := by
  refine .step (createBindings_paced scope) fun _ _ =>
    .step (initializeParams_paced scope params) fun _ _ =>
    .step (initializeArguments_paced scope) fun _ _ =>
    .step (initializeVars_paced scope) fun _ _ => .step (hoist_paced hf scope) fun _ _ =>
    .step (initializeCallee_paced scope name) fun _ _ => ?_
  split
  · next hg =>
    refine .step (generatorStart_paced ?_) fun _ _ => hc fs
    rw [beq_iff_eq.mp hg]
    rfl
  · exact hc fs

def Choices.inside (opts : Choices) (id : ScopeId) (kind : FunctionKind) : Context :=
  { scopes := opts.scopes, options := opts.one, kind,
    strict := (opts.scopes.scope id).strict, scope := id }

theorem functionForm_eq (id : ScopeId) (name : Option String) (params : List String)
    (isAsync isGenerator : Bool) (functions : List (String × Emit Template)) (code : Emit Unit)
    (options : Options) (em : Emitter) :
    functionForm (some id) name params isAsync isGenerator functions code
        (opts.under options ctx) em =
      (functionKind (opts.scopes.scope id).arrow isAsync isGenerator >>= fun kind =>
        compileUnit (opts.under options (opts.inside id kind)) (name.getD "") params.length
          (functionCode id name params functions code)).map fun template => (template, em) := by
  let unit : FunctionKind → Except CompileError Template := fun kind =>
    compileUnit (opts.under options (opts.inside id kind)) (name.getD "") params.length
      (functionCode id name params functions code)
  change ((liftM (functionKind (opts.scopes.scope id).arrow isAsync isGenerator) >>= fun kind =>
    liftM (unit kind) : Emit Template) (opts.under options ctx) em) =
    (functionKind (opts.scopes.scope id).arrow isAsync isGenerator >>= unit).map _
  cases functionKind (opts.scopes.scope id).arrow isAsync isGenerator with
  | error error => rfl
  | ok kind =>
    change (liftM (unit kind) : Emit Template) (opts.under options ctx) em = (unit kind).map _
    cases unit kind <;> rfl

theorem functionCode_templates {functions code}
    (hf : ∀ function ∈ functions, PacedTemplate opts function.2) (hc : PacedReturn opts code)
    (id : ScopeId) (kind : FunctionKind) (hk : kind ≠ .script) (name : Option String)
    (params : List String) (title : String) (paramCount : Nat) : Templates opts.room
      (compileUnit (opts.first (opts.inside id kind)) title paramCount
        (functionCode id name params functions code))
      (compileUnit (opts.second (opts.inside id kind)) title paramCount
        (functionCode id name params functions code)) := by
  obtain ⟨es, hc⟩ := hc (opts.inside id kind) []
  have hentry : kind.entry = ⟨0, .start⟩ := by cases kind <;> first | rfl | exact absurd rfl hk
  have hrest := fun fs => @functionRest_paced _ _ _ _ fs _ hf _ hc id name params
  cases hr : kind.isResumable with
  | true =>
    have hone := @functionCode_eq opts (opts.inside id kind) id name params functions code
    simp only [show (opts.inside id kind).kind = kind from rfl, hr, if_true] at hone
    refine compileUnit_paced (hone _) (hone _) standing_begins (.weaken (hrest _) ?_) title paramCount
    rintro _ _ _ _ ⟨rfl, rfl⟩
    refine ⟨_, _, .refl _, .refl _, rfl, by simp, ?_, fun _ => by simp⟩
    change Fact.entry kind.entry ∈ _
    simp [hentry]
  | false =>
    have hone := @functionCode_eq opts (opts.inside id kind) id name params functions code
    simp only [show (opts.inside id kind).kind = kind from rfl, hr, Bool.false_eq_true,
      if_false] at hone
    have heases : Eases (some ⟨0, .start⟩) (some ⟨0, .cells 0⟩) := by
      rintro _ ⟨⟩
      exact ⟨_, rfl, rfl, .start⟩
    refine compileUnit_paced (hone _) (hone _) (standing_fresh _ _ ⟨0, .start⟩)
      (.ease heases (.weaken (hrest _) ?_)) title paramCount
    rintro _ _ _ _ ⟨rfl, rfl⟩
    refine ⟨_, _, .refl _, .refl _, rfl, by simp, ?_, fun h => ?_⟩
    · change Fact.entry kind.entry ∈ _
      simp [hentry]
    · exact absurd (hr.symm.trans h) Bool.false_ne_true

theorem functionForm_paced (opened : Option ScopeId) (name : Option String) (params : List String)
    (isAsync isGenerator : Bool) {functions code}
    (hf : ∀ function ∈ functions, PacedTemplate opts function.2) (hc : PacedReturn opts code) :
    PacedTemplate opts (functionForm opened name params isAsync isGenerator functions code) := by
  intro ctx one other
  cases opened with
  | none => exact .error rfl
  | some id =>
    rw [functionForm_eq, functionForm_eq]
    cases hk : functionKind (opts.scopes.scope id).arrow isAsync isGenerator with
    | error error =>
      refine .error ?_
      unfold functionKind at hk
      split at hk <;> cases hk
      rfl
    | ok kind =>
      have hne : kind ≠ .script := by
        rintro rfl
        unfold functionKind at hk
        split at hk <;> cases hk
      have h := functionCode_templates hf hc id kind hne name params (name.getD "") params.length
      change Made _ (Except.map _ (compileUnit _ _ _ _)) (Except.map _ (compileUnit _ _ _ _))
      generalize compileUnit (opts.first (opts.inside id kind)) _ _ _ = first at h
      generalize compileUnit (opts.second (opts.inside id kind)) _ _ _ = second at h
      cases h with
      | error he => exact .error he
      | ok h => exact .ok ⟨h, rfl, rfl⟩

end Ecma.Compile
