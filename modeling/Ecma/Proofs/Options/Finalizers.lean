/-
Protected blocks at one pace. Every copy of a finalizer ends in the same way, so that the exits
which it leads on are known from those of the block.
-/
import Ecma.Proofs.Options.Returns

namespace Ecma.Compile

open Code (Label)

variable {opts : Choices} {ctx : Context} {hulls : List Hull} {es es' : List Exit}
  {fs fs' : List Fact} {here here' : Option Shape}

/-! ## Catch clauses -/

/-- A catch clause at one pace, given the register of the record to return to. -/
def PacedCatch (opts : Choices) (x : Nat → Emit Completion) : Prop :=
  ∀ ctx hulls, ∃ c es, ∀ savedEnv fs, Pace opts ctx hulls es fs
    (up 1) (x savedEnv) (x savedEnv) (Gives (· = c) fs c.reach)

theorem catchForm_paced (opened : Option ScopeId) {body} (hb : PacedStmt opts body) :
    PacedCatch opts fun savedEnv => catchForm opened savedEnv body := by
  intro ctx hulls
  cases opened with
  | none => exact ⟨.normal, [], fun savedEnv fs => .step (.opRegister rfl rfl) fun _ _ => .throw rfl⟩
  | some scope =>
    obtain ⟨c, es, hb⟩ := hb { ctx with
      scope, envDepth := ctx.envDepth +
        if (opts.scopes.scope scope).materializes then 1 else 0 } hulls
    refine ⟨c, es ++ [], fun savedEnv fs => ?_⟩
    refine .step (.opRegister rfl (rfl : _ = 1)) fun _ _ => .take .scopeOf fun found hf => ?_
    cases hf
    refine .take .scopeAt fun found hf => ?_
    subst hf
    cases hm : (opts.scopes.scope scope).materializes with
    | true =>
      rw [hm] at hb
      refine .step .pushBlockEnv fun _ _ => .complete (.inScope ?_) (popEnv_paced true c)
      refine .step (createBindings_paced scope) fun _ _ => ?_
      exact .step (initializeSlot_paced 0) fun _ _ => hb fs
    | false =>
      rw [hm] at hb
      refine .complete (.inScope ?_) (popEnv_paced false c)
      exact .step (.op rfl rfl) fun _ _ => hb fs

/-- A label that may be aimed at gets its place where nothing arrives from above. -/
theorem placeAfter_paced {l m} (aimed : Option Nat) :
    Pace opts ctx hulls [] (.label l m aimed :: fs) none (place l) (place m)
      (Then fs (aimed.bind up)) := by
  cases aimed with
  | none => exact .place [] fs nofun
  | some height => exact .land [] fs (.none _)

theorem tryCatch_paced {block catchClause} (hb : PacedStmt opts block)
    (hc : PacedCatch opts catchClause) (ctx : Context) (hulls : List Hull)
    : ∃ c es, ∀ savedEnv fs,
      Pace opts ctx hulls es fs (up 0) (tryCatch block (catchClause savedEnv))
        (tryCatch block (catchClause savedEnv))
        (Gives (· = c) fs c.reach) := by
  obtain ⟨c, es, hb⟩ := hb { ctx with tryDepth := ctx.tryDepth + 1 } hulls
  obtain ⟨caught, es', hc⟩ := hc ctx hulls
  refine ⟨c.select caught, es ++ (es' ++ []), fun savedEnv fs => ?_⟩
  refine .withPosition fun p q => .complete (.guarded (hb _)) ?_
  refine .withPosition fun p' q' => .withLabel fun after after' => ?_
  cases hcompletion : c.isAbrupt with
  | true =>
    simp only [hcompletion, Completion.reach]
    refine .withLabel fun entry entry' => ?_
    refine .step (.addTaking rfl (.label [] _ (.inl rfl)) (by simp) (by simp)) fun _ _ => ?_
    refine .step (.land [] _ (.none _)) fun _ _ => .complete (hc savedEnv _) ?_
    refine .step (.place [] _ (by simp)) fun _ _ => ?_
    refine .retain (@Retains.dropAll [_, _] (by simp) fs) (.pure ⟨rfl, rfl, rfl, ?_⟩)
    simp only [Completion.reach, Completion.isAbrupt_select, hcompletion, Bool.true_and]
  | false =>
    simp only [hcompletion, Completion.reach]
    refine .step (.jump (.label [] _ (.inl rfl))) fun _ _ => .withLabel fun entry entry' => ?_
    refine .step (.addTaking rfl (.label [] _ (.inl rfl)) (by simp) (by simp)) fun _ _ => ?_
    refine .step (.land [] _ (.none _)) fun _ _ => .complete (hc savedEnv _) ?_
    refine .step (.land [] _ caught.reach_eases) fun _ _ => ?_
    refine .retain (@Retains.dropAll [_, _] (by simp) fs) (.pure ⟨rfl, rfl, rfl, ?_⟩)
    simp only [Completion.isAbrupt_select, hcompletion, Bool.false_and]
    rfl

/-! ## Finalizers -/

theorem underFinalizer_paced {α : Type} {x y : Emit α} {after : After α α}
    (h : Pace opts ctx (.finalizer :: hulls) es fs here x y after) :
    Pace opts ctx hulls (Hull.passed .finalizer hulls es ++ []) fs here
      (underFinalizer x) (underFinalizer y) fun a b fs' here' =>
        ∃ (learnt : List ((Label × Label) × Exit)) (fs'' : List Fact),
          a.2 = learnt.map (fun exit => (exit.1.1, exit.2)) ∧
          b.2 = learnt.map (fun exit => (exit.1.2, exit.2)) ∧
          learnt.map Prod.snd = (Hull.taken .finalizer hulls es).foldl addTarget [] ∧
          after a.1 b.1 fs'' here' ∧
          fs' = learnt.map (fun exit => mark true exit.1) ++ fs'' := by
  refine Pace.within (.finalizer []) h ?_
  intro a b fs' here' entry' ha hl
  cases hl with
  | @finalizer _ learnt hl => exact .pure ⟨learnt, fs', rfl, rfl, hl, ha, rfl⟩

/-- How a label is aimed at to which code goes at its end. -/
def Completion.aimed (c : Completion) : Option Nat :=
  if c.isAbrupt then none else some 0

theorem finallyProtected_paced {block} {catchClause : Option (Nat → Emit Completion)}
    (hb : PacedStmt opts block) (hc : ∀ clause ∈ catchClause, PacedCatch opts clause)
    (ctx : Context) (hulls : List Hull) : ∃ c es, ∀ savedEnv l m fs,
      Pace opts ctx hulls es (.label l m none :: fs) (up 0)
        (finallyProtected block (catchClause.map (· savedEnv)) l)
        (finallyProtected block (catchClause.map (· savedEnv)) m)
        (Gives (· = c) (.label l m c.aimed :: fs) none) := by
  obtain ⟨c, es, hb⟩ := hb { ctx with tryDepth := ctx.tryDepth + 1 } hulls
  cases catchClause with
  | none =>
    refine ⟨c, es ++ [], fun savedEnv l m fs => .guarded ?_⟩
    refine .withPosition fun p q => .complete (hb _) (.withPosition fun p' q' => ?_)
    refine .retain (@Retains.dropAll [_, _] (by simp) _) ?_
    cases hcompletion : c.isAbrupt with
    | true =>
      simp only [hcompletion, Completion.reach]
      refine .pure ⟨rfl, rfl, ?_, rfl⟩
      simp only [Completion.aimed, hcompletion, if_true]
    | false =>
      simp only [hcompletion, Completion.reach]
      refine .step (.jump (.label [] fs (.inl rfl))) fun _ _ => .pure ⟨rfl, rfl, ?_, rfl⟩
      simp only [Completion.aimed, hcompletion]
      rfl
  | some clause =>
    obtain ⟨caught, es', hc⟩ := hc clause rfl { ctx with tryDepth := ctx.tryDepth + 1 } hulls
    refine ⟨c.select caught, es ++ (es' ++ []),
      fun savedEnv l m fs => .guarded ?_⟩
    refine .withPosition fun p q => .complete (hb _) (.withPosition fun p' q' => ?_)
    have tail : Pace opts { ctx with tryDepth := ctx.tryDepth + 1 } hulls (es' ++ [])
        (.seam p' q' :: .seam p q :: .label l m c.aimed :: fs) none
        (do
          let entry ← newLabel
          addHandler p p' entry .catches
          place entry
          let caught ← clause savedEnv
          if !caught.isAbrupt then jump .jump l
          return c.select caught)
        (do
          let entry ← newLabel
          addHandler q q' entry .catches
          place entry
          let caught ← clause savedEnv
          if !caught.isAbrupt then jump .jump m
          return c.select caught)
        (Gives (· = c.select caught)
          (.label l m (c.select caught).aimed :: fs) none) := by
      refine .withLabel fun entry entry' => ?_
      refine .step (.addTaking rfl (.label [] _ (.inl rfl)) (by simp) (by simp)) fun _ _ => ?_
      refine .step (.land [] _ (.none _)) fun _ _ => .complete (hc savedEnv _) ?_
      refine .retain (@Retains.dropAll [_, _] (by simp) _) ?_
      cases hcaught : caught.isAbrupt with
      | true =>
        simp only [hcaught, Completion.reach]
        refine .pure ⟨rfl, rfl, ?_, rfl⟩
        simp only [Completion.aimed, Completion.isAbrupt_select, hcaught, Bool.and_true]
      | false =>
        simp only [hcaught, Completion.reach]
        refine .step (.jump (.label [] fs ?_)) fun _ _ => .pure ⟨rfl, rfl, ?_, rfl⟩
        · cases hcompletion : c.isAbrupt <;> simp [Completion.aimed, hcompletion]
        · simp only [Completion.aimed, Completion.isAbrupt_select, hcaught, Bool.and_false]
          rfl
    cases hcompletion : c.isAbrupt with
    | true =>
      simp only [Completion.aimed, hcompletion, if_true] at tail
      simp only [hcompletion, Completion.reach]
      exact tail
    | false =>
      simp only [Completion.aimed, hcompletion] at tail
      simp only [hcompletion, Completion.reach]
      exact .step (.jump (.label [_, _] fs (.inl rfl))) fun _ _ => tail

/-- The copy of a finalizer that an exception runs. -/
theorem finallyRethrow_paced (savedEnv pending : Nat) {l m finalizer last}
    (hf : ∀ fs, Pace opts ctx hulls es fs (up 0) finalizer
      finalizer (Gives (· = last) fs last.reach)) :
    Pace opts ctx hulls (es ++ []) (.label l m (some 0) :: fs) none
      (finallyRethrow savedEnv pending l finalizer) (finallyRethrow savedEnv pending m finalizer)
      (Gives (· = last) fs none) := by
  refine .step (.land [] fs (.none _)) fun _ _ => .step (.opRegister rfl rfl) fun _ _ => ?_
  refine .withPosition fun p q => .complete (hf _) (.withPosition fun p' q' => ?_)
  refine .step (.addHandler rfl (by simp) (by simp)) fun _ _ => ?_
  refine .retain (@Retains.dropAll [_, _] (by simp) fs) ?_
  cases hlast : last.isAbrupt with
  | true =>
    simp only [hlast, Completion.reach]
    exact .pure ⟨rfl, rfl, rfl, rfl⟩
  | false =>
    simp only [hlast, Completion.reach]
    exact .step (.leaveWith rfl rfl) fun _ _ => .pure ⟨rfl, rfl, rfl, rfl⟩

/-- The exits of a copy of a finalizer that leads an exit on. -/
def ledOn (last : Completion) (es : List Exit) (target : Exit) : List Exit :=
  es ++ if last.isAbrupt then [] else [target]

/-- The copies of a finalizer for the exits of its block. -/
theorem finallyExits_paced (savedEnv : Nat) {finalizer last}
    (hf : ∀ fs, Pace opts ctx hulls es fs (up 0) finalizer finalizer
      (Gives (· = last) fs last.reach)) (learnt : List ((Label × Label) × Exit))
    (fs : List Fact) :
    Pace opts ctx hulls ((learnt.map Prod.snd).flatMap (ledOn last es) ++ [])
      (learnt.map (fun exit => mark true exit.1) ++ fs) none
      (finallyExits savedEnv finalizer (!last.isAbrupt) (learnt.map fun exit => (exit.1.1, exit.2)))
      (finallyExits savedEnv finalizer (!last.isAbrupt) (learnt.map fun exit => (exit.1.2, exit.2)))
      (Then fs none) := by
  rw [List.flatMap_map]
  refine .andThen (Pace.rounds (fun exit => ledOn last es exit.2)
    (fun rest => rest.map (fun exit => mark true exit.1) ++ fs) (fun _ => none) learnt ?_)
    fun _ _ => .pure ⟨rfl, rfl⟩
  rintro ⟨⟨l, m⟩, target⟩ rest -
  refine .step (.land [] _ (.none _)) fun _ _ => .step (.opRegister rfl rfl) fun _ _ => ?_
  refine .complete (hf _) ?_
  cases hlast : last.isAbrupt with
  | true =>
    simp only [Completion.reach, hlast]
    exact .pure ⟨rfl, rfl, rfl, rfl⟩
  | false =>
    simp only [Completion.reach, hlast]
    exact .closing (exitTo_paced target) fun _ _ =>
      .pure ⟨rfl, rfl, rfl, rfl⟩

/-- How a block with a finalizer is left. -/
def finalCompletion (last c : Completion) : Completion :=
  if last.isAbrupt then last else c

/-- The copies of a finalizer for exits, and its end, which a finalizer that falls through after
its block aims at. -/
theorem finallyEnd_paced (savedEnv : Nat) {finalizer last} (c : Completion) (l m : Label)
    (aimed : Option Nat) (hf : ∀ fs, Pace opts ctx hulls es fs (up 0) finalizer finalizer
      (Gives (· = last) fs last.reach)) (learnt : List ((Label × Label) × Exit))
    (fs : List Fact) (ha : aimed.bind up = (finalCompletion last c).reach) :
    Pace opts ctx hulls ((learnt.map Prod.snd).flatMap (ledOn last es) ++ [] ++ [])
      (.label l m aimed :: (learnt.map (fun exit => mark true exit.1) ++ fs)) none
      (do
        finallyExits savedEnv finalizer (!last.isAbrupt)
          (learnt.map fun exit => (exit.1.1, exit.2))
        place l
        return if last.isAbrupt then last else c)
      (do
        finallyExits savedEnv finalizer (!last.isAbrupt)
          (learnt.map fun exit => (exit.1.2, exit.2))
        place m
        return if last.isAbrupt then last else c)
      (Gives (· = finalCompletion last c) fs
        (finalCompletion last c).reach) := by
  refine .retain (.of_perm List.perm_middle) ?_
  refine .andThen (finallyExits_paced savedEnv hf learnt _) fun _ _ => ?_
  exact .step (placeAfter_paced aimed) fun _ _ => .pure ⟨rfl, rfl, rfl, ha⟩

theorem tryFinally_paced {block} {catchClause : Option (Nat → Emit Completion)} {finalizer}
    (hb : PacedStmt opts block) (hc : ∀ clause ∈ catchClause, PacedCatch opts clause)
    (hf : PacedStmt opts finalizer) (ctx : Context) (hulls : List Hull)
    : ∃ c es, ∀ savedEnv fs, Pace opts ctx hulls es fs (up 0)
        (tryFinally savedEnv block (catchClause.map (· savedEnv)) finalizer)
        (tryFinally savedEnv block (catchClause.map (· savedEnv)) finalizer)
        (Gives (· = c) fs c.reach) := by
  obtain ⟨c, es, hp⟩ := finallyProtected_paced hb hc ctx (.finalizer :: hulls)
  obtain ⟨last, es', hf⟩ := hf ctx hulls
  let ends := ((Hull.taken .finalizer hulls es).foldl addTarget []).flatMap (ledOn last es')
  refine ⟨finalCompletion last c, Hull.passed .finalizer hulls es ++ [] ++
    (es' ++ [] ++ (if c.isAbrupt then ends ++ [] ++ [] else es' ++ (ends ++ [] ++ []))),
    fun savedEnv fs => ?_⟩
  refine .take .newRegister fun pending _ => .withLabel fun l m => .withPosition fun p q => ?_
  refine .retain (.of_perm (.swap ..)) (.bind (underFinalizer_paced (hp savedEnv l m _)) ?_)
  rintro ⟨a, _⟩ ⟨b, _⟩ _ _ ⟨learnt, _, rfl, rfl, ht, ⟨hb, ha, rfl, rfl⟩, rfl⟩
  obtain rfl : a = b := hb.symm
  obtain rfl : c = a := ha.symm
  refine .withPosition fun p' q' => .withLabel fun n n' => ?_
  refine .step (.addTaking rfl (.label [] _ (.inl rfl)) (by simp) (by simp)) fun _ _ => ?_
  refine .complete (finallyRethrow_paced savedEnv pending hf) ?_
  refine .retain (.drop (fun _ _ _ => Fact.noConfusion) _) ?_
  refine .retain (((Retains.drop (fun _ _ _ => Fact.noConfusion) fs).append_left [_]).append_left _) ?_
  refine .withLabel fun done done' => ?_
  have tail := fun aimed ha => finallyEnd_paced savedEnv c done done' aimed hf learnt fs ha
  rw [ht] at tail
  cases hcompletion : c.isAbrupt with
  | true =>
    simp only [Completion.aimed, hcompletion, if_true]
    refine .retain (((Retains.drop (by simp) fs).append_left _).append_left [_]) (tail none ?_)
    cases hlast : last.isAbrupt <;>
      simp [finalCompletion, Completion.reach, hcompletion, hlast]
  | false =>
    simp only [Completion.aimed, hcompletion]
    refine .step (.land (_ :: _) fs (.none _)) fun _ _ => .complete (hf _) ?_
    cases hlast : last.isAbrupt with
    | true =>
      simp only [hlast, Completion.reach] at tail ⊢
      refine tail none ?_
      simp [finalCompletion, hlast]
    | false =>
      simp only [hlast, Completion.reach] at tail ⊢
      refine .step (.jump (.label [] _ (.inl rfl))) fun _ _ => tail (some 0) ?_
      simp [finalCompletion, hlast, hcompletion]

theorem tryForm_paced {block : Emit Completion} {catchClause : Option (Nat → Emit Completion)}
    {finalizer : Option (Emit Completion)} (hb : PacedStmt opts block)
    (hc : ∀ clause ∈ catchClause, PacedCatch opts clause)
    (hf : ∀ body ∈ finalizer, PacedStmt opts body) :
    PacedStmt opts (tryForm block catchClause finalizer) := by
  intro ctx hulls
  cases finalizer with
  | some finalizer =>
    obtain ⟨c, es, h⟩ := tryFinally_paced hb hc (hf finalizer rfl) ctx hulls
    refine ⟨c, es, fun fs => .take .newRegister fun savedEnv _ => ?_⟩
    refine .step (.opRegister rfl (rfl : _ = 0)) fun _ _ => ?_
    have h := h savedEnv fs
    cases catchClause <;> exact h
  | none =>
    cases catchClause with
    | some clause =>
      obtain ⟨c, es, h⟩ := tryCatch_paced hb (hc clause rfl) ctx hulls
      refine ⟨c, es, fun fs => .take .newRegister fun savedEnv _ => ?_⟩
      exact .step (.opRegister rfl (rfl : _ = 0)) fun _ _ => h savedEnv fs
    | none =>
      refine ⟨.normal, [], fun fs => .take .newRegister fun savedEnv _ => ?_⟩
      exact .step (.opRegister rfl (rfl : _ = 0)) fun _ _ => .throw rfl

end Ecma.Compile
