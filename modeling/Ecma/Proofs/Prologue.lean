/-
Functions, with the code that is asked for. All that stands before the first suspension of a
generator function is its prologue: it makes the declarations and neither jumps nor calls, and
nothing protects it, so that a call of the function leads to the suspension or raises, and no
further.
-/
import Ecma.Compile.Program
import Ecma.Proofs.Totality

namespace Ecma.Compile

open Code Syntax

variable {α β : Type}

/-! ## Finished code -/

theorem linkHandler_span {draft : Draft} {handler : DraftHandler} {linked : Handler}
    (h : draft.linkHandler handler = .ok linked) : Span.linked linked = Span.of handler := by
  unfold Draft.linkHandler at h
  split at h
  · obtain ⟨_, -, h⟩ := except_bind_ok.mp h
    cases h
    rfl
  · cases h
    rfl

theorem link_handlers {draft : Draft} {template : Template} (h : draft.link = .ok template) :
    draft.handlers.toList.mapM draft.linkHandler = .ok template.handlers := by
  simp only [Draft.link, except_bind_ok] at h
  obtain ⟨_, -, _, -, _, -, _, -, _, hh, h⟩ := h
  cases h
  exact hh

theorem map_of_mapM_ok {ε γ : Type} {f : α → Except ε β} {g : α → γ} {k : β → γ}
    (hk : ∀ {a b}, f a = .ok b → k b = g a) : {items : List α} → {made : List β} →
    items.mapM f = .ok made → made.map k = items.map g
  | [], _, h => by
    cases h
    rfl
  | item :: rest, _, h => by
    rw [List.mapM_cons] at h
    obtain ⟨first, hf, h⟩ := except_bind_ok.mp h
    obtain ⟨others, ho, h⟩ := except_bind_ok.mp h
    cases h
    rw [List.map_cons, List.map_cons, hk hf, map_of_mapM_ok hk ho]

variable {ctx : Context} {name : String} {paramCount : Nat} {em : Emitter} {made : Template}

/-- Finished code has what was made. -/
theorem finish_made (h : finish ctx name paramCount em = .ok made) :
    made.kind = ctx.kind ∧ made.constants = em.draft.constants ∧
      made.functions = em.draft.functions.toList ∧
      made.handlers.map Span.linked = Draft.spans em.draft ∧
      ∀ {position : Nat} {instr}, em.draft.instructions.toList[position]? = some instr →
        ∃ target, made.instructions[position]? = some (toward target instr) := by
  have hw := appended em.apart em.draft
  unfold finish at h
  dsimp only at h
  split at h
  case h_2 => cases h
  case h_1 linked hl =>
    change (em.apart.foldl withUnit em.draft).link = .ok linked at hl
    generalize em.apart.foldl withUnit em.draft = whole at hl hw
    cases h
    obtain ⟨⟨instructions, hi, hins⟩, hconst, hfun⟩ := link_ok hl
    refine ⟨rfl, ?_, ?_, ?_, fun {position instr} hg => ?_⟩
    · rw [hconst, hw.constants]
    · rw [hfun, hw.functions]
    · have hspans := map_of_mapM_ok linkHandler_span (link_handlers hl)
      rw [hw.handlers] at hspans
      exact hspans
    · obtain ⟨rest, hrest⟩ := hw.instructions
      have hg : whole.instructions.toList[position]? = some instr := by
        rw [← hrest, List.getElem?_append_left (List.getElem?_eq_some_iff.mp hg).1, hg]
      obtain ⟨found, hfound, hat⟩ := mapM_ok_getElem? hi hg
      refine ⟨placedAt whole, ?_⟩
      rw [← linkInstruction_ok hfound, hins, List.getElem?_toArray, hat]

/-- What was made before the first handler is not protected. -/
theorem finish_unprotected {started : Emitter} {site} (hnone : Draft.spans started.draft = [])
    (hl : started.Leads site em) (h : finish ctx name paramCount em = .ok made) :
    ∀ handler ∈ made.handlers, started.position ≤ handler.start := by
  intro handler hm
  obtain ⟨-, -, -, hhandlers, -⟩ := finish_made h
  obtain ⟨guards, hg, hlayout, -⟩ := hl.handlers
  rw [hnone, List.nil_append] at hg
  have hm := List.mem_map_of_mem (f := Span.linked) hm
  rw [hhandlers, hg] at hm
  obtain ⟨guard, hguard, he⟩ := List.mem_map.mp hm
  obtain ⟨hsound, hlow, -⟩ := hlayout.within guard hguard
  have hs : guard.start = handler.start := congrArg Span.start he
  have := hsound.low
  omega

theorem compileUnit_ok {code : Emit Unit} (h : compileUnit ctx name paramCount code = .ok made) :
    ∃ em, code ctx {} = .ok ((), em) ∧ finish ctx name paramCount em = .ok made := by
  obtain ⟨⟨⟨⟩, em⟩, hc, hf⟩ := except_bind_ok.mp h
  exact ⟨em, hc, hf⟩

/-- Code that has to be made, and that never blames the draft, is finished. -/
theorem compileUnit_total {code} {order : Order} (hs : order.strict) (h : Obeys order ctx [] code)
    (hlink : ∀ error, compileUnit ctx name paramCount code = .error error →
      error.blamesTree = true) :
    ∃ template, compileUnit ctx name paramCount code = .ok template := by
  obtain ⟨_, em, hcode, -⟩ := @Obeys.made _ _ _ _ {} _ h hs rfl
  have hunit : compileUnit ctx name paramCount code = finish ctx name paramCount em := by
    unfold compileUnit
    rw [hcode]
    rfl
  rw [hunit] at hlink ⊢
  unfold finish at hlink ⊢
  dsimp only at hlink ⊢
  split at hlink
  · exact ⟨_, rfl⟩
  · cases hlink _ rfl

/-- Code is as it has to be if it has a prologue where it needs one. -/
theorem compileUnit_formed {code strict body} (hc : Obeys (.ofBody strict body) ctx [] code)
    (hbody : made.MadeOf body) (h : compileUnit ctx name paramCount code = .ok made)
    (hk : ctx.kind = .generator → ∃ stop, made.OpensAt stop) : made.Formed := by
  obtain ⟨em, hcode, hf⟩ := compileUnit_ok h
  have hl := @Obeys.kept _ _ _ _ {} _ _ hc rfl _ hcode
  obtain ⟨hkind, -, hfunctions, hhandlers, -⟩ := finish_made hf
  obtain ⟨guards, hg, hlayout, hin⟩ := hl.handlers
  refine .of_parts ⟨body, guards, em.position, hbody, hhandlers.trans hg, hlayout, hin⟩ (hkind ▸ hk)
    fun inner hm => ?_
  obtain ⟨fns, hfns, hformed⟩ := hl.functions
  rw [hfunctions, hfns] at hm
  exact hformed inner hm

theorem compileUnit_obeys {code strict body} (hk : ctx.kind ≠ .generator)
    (hc : Obeys (.ofBody strict body) ctx [] code)
    (hbody : ∀ made, compileUnit ctx name paramCount code = .ok made → made.MadeOf body)
    (hlink : ∀ error, compileUnit ctx name paramCount code = .error error →
      error.blamesTree = true) :
    (∀ made, compileUnit ctx name paramCount code = .ok made → made.Formed) ∧
      (strict → ∃ made, compileUnit ctx name paramCount code = .ok made) :=
  ⟨fun _ h => compileUnit_formed hc (hbody _ h) h fun hg => absurd hg hk,
    fun hs => compileUnit_total hs hc hlink⟩

/-! ## Prologues -/

/-- The declarations of a generator function. -/
def generatorPrologue (scope : ScopeId) (name : Option String) (params : List String)
    (fns : List (String × Emit Template)) : Emit Unit := do
  op .resumeDispatch
  createBindings scope
  initializeParams scope params
  initializeArguments scope
  initializeVars scope
  hoist scope fns
  initializeCallee scope name

/-- The first suspension ends an opening. -/
theorem generatorStart_opens {prepared started : Emitter} (hs : ({} : Emitter).Straight prepared)
    (h : generatorStart ctx prepared = .ok ((), started)) :
    started.control = [] ∧ Draft.spans started.draft = [] ∧
      ∃ opening, (∀ instr ∈ opening, instr.op.isStraight = true) ∧
        opening ++ [⟨.suspend, some (.state 0)⟩] <+: started.draft.instructions.toList := by
  obtain ⟨⟨⟩, pushed, hp, h⟩ := bind_ok.mp h
  have hs := hs.trans ((@Straight.op ctx .pushUndefined rfl).straight hp)
  obtain ⟨⟨⟩, suspended, hsuspend, h⟩ := bind_ok.mp h
  obtain ⟨resume, labelled, hl, hsuspend⟩ := bind_ok.mp hsuspend
  obtain ⟨rfl, rfl⟩ := onDraft_ok.mp hl
  obtain ⟨state, added, ha, hsuspend⟩ := bind_ok.mp hsuspend
  obtain ⟨rfl, rfl⟩ := onDraft_ok.mp ha
  obtain ⟨⟨⟩, emitted, he, hplace⟩ := bind_ok.mp hsuspend
  obtain rfl := opWith_ok.mp he
  have hrest : Obeys (.bare False) ctx [] (do
      place pushed.draft.newLabel.1
      op .resumeValue
      op .pop) := inferInstance
  have hrest := hrest.kept (by exact congrArg (List.map Control.hull) hs.control)
    (bind_ok.mpr ⟨_, _, hplace, h⟩)
  obtain ⟨opening, ho, hopening⟩ := hs.instructions
  have hstate : pushed.draft.resume.size = 0 := by rw [hs.resume]; rfl
  refine ⟨?_, hrest.spans.trans ?_, opening, hopening, List.IsPrefix.trans ?_ hrest.instructions⟩
  · exact List.map_eq_nil_iff.mp (hrest.control.hulls.trans (congrArg _ hs.control))
  · exact congrArg (fun handlers => handlers.toList.map Span.of) hs.handlers
  · simp [Emitter.emit, Draft.emit, Draft.addResume, Draft.newLabel, hstate, ho]

theorem toward_straight {target : Label → Nat} {instr : Instruction} :
    (toward target instr).op = instr.op := by
  unfold toward
  split <;> rfl

section

variable {strict : Prop} {body : List (Stmt (Option ScopeId))} {scope : ScopeId}
  {callee : Option String} {params : List String} {fns : List (String × Emit Template)} {code : Emit Unit}

theorem functionCode_generator (hk : ctx.kind = .generator) :
    functionCode scope callee params fns code ctx em =
      (do
        generatorPrologue scope callee params fns
        generatorStart
        code : Emit Unit) ctx em := by
  unfold functionCode generatorPrologue
  simp only [bind_assoc]
  change ((if ctx.kind.isResumable then _ else _ : Emit Unit) ctx em) = _
  rw [hk]
  rfl

variable (hp : ∀ name ∈ params, name ∈ Scope.names (ctx.scopes.scope scope).bindings)
  (hf : ∀ fn ∈ fns, YieldsCode strict ctx fn.2)
  (hn : ∀ fn ∈ fns, fn.1 ∈ Scope.names (ctx.scopes.scope scope).bindings)
  (hc : Obeys (.ofBody strict body) ctx [] code)

include hf hc in
/-- The code of a generator function has a prologue. -/
theorem functionCode_opensAt (hk : ctx.kind = .generator)
    (h : compileUnit ctx name paramCount (functionCode scope callee params fns code) =
      .ok made) : ∃ stop, made.OpensAt stop := by
  obtain ⟨em, hcode, hfinish⟩ := compileUnit_ok h
  rw [functionCode_generator hk] at hcode
  obtain ⟨⟨⟩, prepared, hprepared, hcode⟩ := bind_ok.mp hcode
  obtain ⟨⟨⟩, started, hstart, hcode⟩ := bind_ok.mp hcode
  have hstraight : Straight ctx (generatorPrologue scope callee params fns) :=
    (Straight.op rfl).bind fun _ => Straight.createBindings.bind fun _ =>
      Straight.initializeParams.bind fun _ => Straight.initializeArguments.bind fun _ =>
      Straight.initializeVars.bind fun _ => (Straight.hoist hf).bind fun _ =>
      Straight.initializeCallee
  obtain ⟨hcontrol, hnone, opening, hopening, hpre⟩ :=
    generatorStart_opens (hstraight.straight hprepared) hstart
  have hl := hc.kept (congrArg _ hcontrol) hcode
  obtain ⟨-, -, -, -, hat⟩ := finish_made hfinish
  have hat : ∀ {position : Nat} {instr},
      (opening ++ [⟨.suspend, some (.state 0)⟩])[position]? = some instr →
        ∃ target, made.instructions[position]? = some (toward target instr) := by
    intro position instr hg
    obtain ⟨rest, hrest⟩ := hpre.trans hl.instructions
    refine hat ?_
    rw [← hrest, List.getElem?_append_left (List.getElem?_eq_some_iff.mp hg).1, hg]
  refine ⟨opening.length, fun position hlt => ?_, ?_, fun handler hm => ?_⟩
  · have hg : opening[position]? = some opening[position] := List.getElem?_eq_getElem hlt
    obtain ⟨target, ht⟩ := @hat position opening[position]
      (by rw [List.getElem?_append_left hlt, hg])
    rw [ht, Option.any_some, toward_straight]
    exact hopening _ (List.getElem_mem hlt)
  · obtain ⟨target, ht⟩ := @hat opening.length ⟨.suspend, some (.state 0)⟩ (by simp)
    exact ht
  · have hlen : opening.length + 1 ≤ started.position := by
      simpa [Emitter.position, Draft.position] using hpre.length_le
    have := finish_unprotected hnone hl hfinish handler hm
    omega

include hp hf hn hc in
theorem functionCode_formed (hbody : made.MadeOf body)
    (h : compileUnit ctx name paramCount (functionCode scope callee params fns code) =
      .ok made) : made.Formed :=
  compileUnit_formed (.functionCode hp hf hn hc) hbody h fun hk => functionCode_opensAt hf hc hk h

end

/-! ## Functions -/

/-- One choice of options, twice. -/
def Context.alone (ctx : Context) : Choices :=
  ⟨ctx.scopes, ctx.options, ctx.options, 1, rfl, Nat.le_refl 1, .inl rfl⟩

/-- A function that is made at one pace with itself is made, unless its tree is to blame. -/
theorem functionForm_yields {strict body id name params isAsync isGenerator fns code}
    (hk : strict → ∃ kind, functionKind (ctx.scopes.scope id).arrow isAsync isGenerator = .ok kind)
    (hbody : ∀ made em, functionForm (some id) name params isAsync isGenerator fns code ctx em =
      .ok (made, em) → made.MadeOf body)
    (hpaced : PacedTemplate ctx.alone
      (functionForm (some id) name params isAsync isGenerator fns code))
    (hp : ∀ name ∈ params, name ∈ Scope.names (ctx.scopes.scope id).bindings)
    (hf : ∀ kind, ∀ fn ∈ fns, YieldsCode strict (ctx.alone.inside id kind) fn.2)
    (hn : ∀ fn ∈ fns, fn.1 ∈ Scope.names (ctx.scopes.scope id).bindings)
    (hc : ∀ kind, functionKind (ctx.scopes.scope id).arrow isAsync isGenerator = .ok kind →
      Obeys (.ofBody strict body) (ctx.alone.inside id kind) [] code) : YieldsCode strict ctx
      (functionForm (some id) name params isAsync isGenerator fns code) := by
  refine ⟨fun {em} => ?_⟩
  have heq := @functionForm_eq ctx.alone ctx id name params isAsync isGenerator fns
    code ctx.options em
  change functionForm _ _ _ _ _ _ _ ctx em =
    (functionKind (ctx.scopes.scope id).arrow isAsync isGenerator >>= fun kind =>
      compileUnit (ctx.alone.inside id kind) _ _ _).map _ at heq
  cases hkind : functionKind (ctx.scopes.scope id).arrow isAsync isGenerator with
  | error error =>
    rw [hkind] at heq
    refine .inr ⟨fun hs => ?_, error, heq⟩
    obtain ⟨kind, hok⟩ := hk hs
    rw [hkind] at hok
    cases hok
  | ok kind =>
    rw [hkind] at heq
    let inner := ctx.alone.inside id kind
    have hp : ∀ name ∈ params, name ∈ Scope.names (inner.scopes.scope id).bindings := hp
    have hn : ∀ fn ∈ fns, fn.1 ∈ Scope.names (inner.scopes.scope id).bindings := hn
    have hcode := hc kind hkind
    change functionForm _ _ _ _ _ _ _ ctx em = (compileUnit inner _ _ _).map _ at heq
    cases hu : compileUnit inner (name.getD "") params.length
        (functionCode id name params fns code) with
    | ok made =>
      rw [hu] at heq
      exact .inl ⟨made, functionCode_formed hp (hf kind) hn hcode (hbody made em heq) hu, heq⟩
    | error error =>
      refine .inr ⟨fun hs => ?_, error, by rw [heq, hu]; rfl⟩
      obtain ⟨template, ht⟩ := @compileUnit_total _ (name.getD "") params.length _
          _ hs (.functionCode hp (hf kind) hn hcode) fun error hu => by
        have hmade := hpaced ctx em em
        change Made _ (functionForm _ _ _ _ _ _ _ ctx em)
          (functionForm _ _ _ _ _ _ _ ctx em) at hmade
        rw [heq, hu] at hmade
        cases hmade with
        | error hb => exact hb
      rw [hu] at ht
      cases ht

end Ecma.Compile
