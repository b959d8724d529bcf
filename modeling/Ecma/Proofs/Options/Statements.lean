/-
The forms of statements keep emitters abreast if their parts do. How control leaves a statement,
and the exits that it makes, do not depend on the options.
-/
import Ecma.Proofs.Options.Exits

namespace Ecma.Compile

open Code (Label)

/-- Code for a statement, at one pace. -/
def PacedStmt (opts : Choices) (x : Emit Completion) : Prop :=
  ∀ ctx hulls, ∃ c es, ∀ fs, Pace opts ctx hulls es fs (up 0) x x
    (Gives (· = c) fs c.reach)

variable {α : Type} {opts : Choices} {ctx : Context} {hulls : List Hull}
  {es es' : List Exit} {fs fs' : List Fact} {here here' : Option Shape}
  {body : Emit Completion} {test update : Option (Emit ValueType)}

namespace Pace

/-- Code that changes the scope. -/
theorem inScope {scope : ScopeId} {entered : Bool} {x y : Emit α} {after : After α α} (h : Pace opts
      { ctx with scope, envDepth := ctx.envDepth + if entered then 1 else 0 }
      hulls es fs here x y after) :
    Pace opts ctx hulls es fs here (inScope scope entered x)
      (Compile.inScope scope entered y) after :=
  h

theorem guarded {x y : Emit α} {after : After α α}
    (h : Pace opts { ctx with tryDepth := ctx.tryDepth + 1 } hulls es fs here x y after) :
    Pace opts ctx hulls es fs here (guarded x) (Compile.guarded y) after :=
  h

theorem complete {c : Completion} {x y : Emit Completion} {k j : Completion → Emit α}
    {last : After α α}
    (h : Pace opts ctx hulls es fs here x y (Gives (· = c) fs' here'))
    (hk : Pace opts ctx hulls es' fs' here' (k c) (j c) last) :
    Pace opts ctx hulls (es ++ es') fs here (x >>= k) (y >>= j) last := by
  refine h.with_ ?_
  rintro _ rfl
  exact hk

end Pace

/-! ## Simple statements -/

theorem inOrder_paced : {statements : List (Emit Completion)} →
    (∀ stmt ∈ statements, PacedStmt opts stmt) → PacedStmt opts (inOrder statements)
  | [], _ => fun _ _ => ⟨.normal, [], fun _ => .pure ⟨rfl, rfl, rfl, rfl⟩⟩
  | stmt :: rest, h => by
    intro ctx hulls
    obtain ⟨c, es, hs⟩ := h stmt (.head _) ctx hulls
    cases hc : c.isAbrupt with
    | true =>
      refine ⟨c, es ++ [], fun fs => .complete (hs fs) ?_⟩
      simp only [hc, if_true]
      exact .pure ⟨rfl, rfl, rfl, rfl⟩
    | false =>
      obtain ⟨last, es', hr⟩ := @inOrder_paced rest
        (fun stmt hm => h stmt (.tail _ hm)) ctx hulls
      refine ⟨last, es ++ es', fun fs => .complete (hs fs) ?_⟩
      simp only [hc, Completion.reach]
      exact hr fs

theorem expressionForm_paced {v} (h : PacedValue opts v) : PacedStmt opts (expressionForm v) := by
  intro ctx hulls
  obtain ⟨es, h⟩ := h ctx hulls
  refine ⟨.normal, es ++ [], fun fs => .with_ (h fs 0) fun _ _ => .read ?_⟩
  obtain ⟨scopes, options, kind, strict, scope, envDepth, tryDepth, _ | reg⟩ := ctx
  · exact .step (.op rfl rfl) fun _ _ => .pure ⟨rfl, rfl, rfl, rfl⟩
  · exact .step (.opRegister rfl rfl) fun _ _ => .pure ⟨rfl, rfl, rfl, rfl⟩

theorem declaratorForm_paced (kind : Syntax.VariableKind) (name : String) {init}
    (h : ∀ v ∈ init, PacedValue opts v) : PacedCode opts (declaratorForm kind name init) 0 0 := by
  unfold declaratorForm
  split
  · exact (h _ rfl).then_ fun _ => initializeName_paced name
  · exact PacedPlain.code fun {_ _ _ _} => .step (.op rfl rfl) fun _ _ => initializeName_paced name
  · exact (h _ rfl).then_ fun _ => storeName_paced name
  · exact PacedPlain.code fun {_ _ _ _} => .pure ⟨rfl, rfl⟩

theorem ifForm_paced {test : Emit ValueType} {consequent : Emit Completion}
    {alternate : Option (Emit Completion)} (ht : PacedValue opts test)
    (hc : PacedStmt opts consequent) (ha : ∀ body ∈ alternate, PacedStmt opts body) :
    PacedStmt opts (ifForm test consequent alternate) := by
  intro ctx hulls
  obtain ⟨es₁, ht⟩ := condition_paced ht ctx hulls
  obtain ⟨first, es₂, hc⟩ := hc ctx hulls
  cases alternate with
  | none =>
    refine ⟨first.select .normal, es₁ ++ (es₂ ++ []), fun fs => ?_⟩
    refine .andThen (ht fs 0) fun _ _ => .withLabel fun l m => ?_
    refine .step (.branch rfl (.label [] fs (.inl rfl))) fun _ _ => ?_
    refine .complete (hc _) (.step (.land [] fs first.reach_eases) fun _ _ => ?_)
    refine .pure ⟨rfl, rfl, rfl, ?_⟩
    cases first <;> rfl
  | some alternate =>
    obtain ⟨second, es₃, ha⟩ := ha alternate rfl ctx hulls
    refine ⟨first.select second, es₁ ++ (es₂ ++ (es₃ ++ [])), fun fs => ?_⟩
    refine .andThen (ht fs 0) fun _ _ => .withLabel fun l m => ?_
    refine .step (.branch rfl (.label [] fs (.inl rfl))) fun _ _ => ?_
    refine .complete (hc _) (.withLabel fun l' m' => ?_)
    cases hab : first.isAbrupt with
    | true =>
      simp only [Bool.not_true]
      refine .step (.land [_] fs first.reach_eases) fun _ _ => ?_
      refine .complete (ha _) (.step (.place [] fs nofun) fun _ _ => ?_)
      refine .pure ⟨rfl, rfl, rfl, ?_⟩
      simp only [Completion.reach, Completion.isAbrupt_select, hab, Bool.true_and]
    | false =>
      simp only [Bool.not_false, if_true, Completion.reach, hab]
      refine .step (.jump (.label [] _ (.inl rfl))) fun _ _ => ?_
      refine .step (.land [_] fs (.none _)) fun _ _ => ?_
      refine .complete (ha _) (.step (.land [] fs second.reach_eases) fun _ _ => ?_)
      refine .pure ⟨rfl, rfl, rfl, ?_⟩
      simp only [Completion.isAbrupt_select, hab, Bool.false_and]
      rfl

theorem popEnv_paced (entered : Bool) (c : Completion) :
    Pace opts ctx hulls [] fs c.reach
      (if entered && !c.isAbrupt then do op .popEnv; return c
        else return c)
      (if entered && !c.isAbrupt then do op .popEnv; return c
        else return c) (Gives (· = c) fs c.reach) := by
  cases hab : c.isAbrupt with
  | true =>
    simp only [Bool.not_true, Bool.and_false]
    exact .pure ⟨rfl, rfl, rfl, rfl⟩
  | false =>
    cases entered with
    | false => exact .pure ⟨rfl, rfl, rfl, rfl⟩
    | true =>
      simp only [Completion.reach, hab]
      exact .step (.op rfl rfl) fun _ _ => .pure ⟨rfl, rfl, rfl, rfl⟩

theorem withForm_paced (opened : Option ScopeId) {obj : Emit ValueType}
    (ho : PacedValue opts obj) (hb : PacedStmt opts body) :
    PacedStmt opts (withForm opened obj body) := by
  intro ctx hulls
  obtain ⟨es, ho⟩ := ho ctx hulls
  cases opened with
  | none => exact ⟨.normal, es ++ [], fun fs => .with_ (ho fs 0) fun _ _ => .throw rfl⟩
  | some scope =>
    obtain ⟨c, es', hb⟩ := hb { ctx with scope, envDepth := ctx.envDepth + 1 } hulls
    refine ⟨c, es ++ (es' ++ []), fun fs => .with_ (ho fs 0) fun _ _ => ?_⟩
    refine .take .scopeOf fun found hf => ?_
    cases hf
    refine .step (.op rfl rfl) fun _ _ => .complete (.inScope (hb fs)) ?_
    exact popEnv_paced true c

theorem labelledForm_paced (labels : List String)
    (hb : PacedStmt opts body) : PacedStmt opts (labelledForm labels body) := by
  intro ctx hulls
  obtain ⟨c, es, hb⟩ := hb ctx (.jumps labels false false :: hulls)
  refine ⟨c.orReachable
      (breaksOff false (Hull.taken (.jumps labels false false) hulls es)),
    Hull.passed (.jumps labels false false) hulls es ++ [],
    fun fs => .bind (.inBreakable (hb fs)) ?_⟩
  rintro ⟨_, _⟩ ⟨_, _⟩ _ _ ⟨l, m, fs'', ⟨rfl, rfl, rfl, rfl⟩, rfl, rfl, rfl⟩
  exact .step (placeEnd_paced _ (.inl rfl) _) fun _ _ => .pure ⟨rfl, rfl, rfl, rfl⟩

/-! ## Loops -/

/-- What is known after the rounds of a loop: one that goes on for ever is left only by jumps. -/
def LoopLeft (infinite used : Bool) (fs : List Fact) : After (α × Jumps) (α × Jumps) :=
  fun a b fs' here' => ∃ jumps : PairedJumps, jumps.Idle ∧ jumps.breakUsed = used ∧
    a.2 = jumps.one ∧ b.2 = jumps.other ∧ fs' = jumps.facts ++ fs ∧ Eases here' (up 0) ∧
    (infinite = true → here' = none)

/-- How control leaves a loop. -/
def loopCompletion (infinite used : Bool) : Completion :=
  if infinite && !used then .abrupt else .normal

theorem loopEnd_paced {a b : α × Jumps} {infinite used : Bool}
    (h : LoopLeft infinite used fs a b fs' here') : Pace opts ctx hulls [] fs' here'
      (do place a.2.breakLabel; return a.2.loopCompletion infinite)
      (do place b.2.breakLabel; return b.2.loopCompletion infinite)
      (Gives (· = loopCompletion infinite used) fs (loopCompletion infinite used).reach) := by
  obtain ⟨jumps, hidle, rfl, ha, hb, rfl, he, hi⟩ := h
  rw [ha, hb]
  have hreach : Pace opts ctx hulls [] (jumps.facts ++ fs) here'
      (place jumps.one.breakLabel) (place jumps.other.breakLabel)
      (Then fs (loopCompletion infinite jumps.breakUsed).reach) := by
    cases infinite with
    | true =>
      cases hi rfl
      have hp := @placeEnd_paced opts ctx hulls fs jumps hidle .abrupt
      cases hb : jumps.breakUsed <;> rw [hb] at hp <;> exact hp
    | false =>
      have hp := @placeEnd_paced opts ctx hulls fs jumps hidle .normal
      refine .ease he ?_
      cases hb : jumps.breakUsed <;> rw [hb] at hp <;> exact hp
  exact .step hreach fun _ _ => .pure ⟨rfl, rfl, rfl, rfl⟩

/-- The last part of the rounds of a loop. -/
theorem rounds_paced (jumps : PairedJumps) (hidle : ∀ es, (jumps.learn es).Idle)
    {infinite : Bool} {x y : Emit Unit} {last : Option Shape}
    (h : Pace opts ctx (jumps.hull :: hulls) es fs here x y (Then fs last))
    (he : Eases last (up 0)) (hi : infinite = true → last = none) (hr : Retains fs fs') :
    Pace opts ctx hulls (jumps.hull.passed hulls es) (jumps.facts ++ fs) here
      (withJumps jumps.one x) (withJumps jumps.other y)
      (LoopLeft infinite (jumps.learn (jumps.hull.taken hulls es)).breakUsed fs') := by
  refine (Pace.withJumps jumps h).weaken ?_
  rintro ⟨_, _⟩ ⟨_, _⟩ _ _ ⟨_, ⟨rfl, rfl⟩, rfl, rfl, rfl⟩
  exact ⟨_, _, hr.append_left _, .refl _, jumps.learn (jumps.hull.taken hulls es),
    hidle _, rfl, rfl, rfl, rfl, he, hi⟩

/-- A test of a loop, at one pace. -/
def PacedTest (opts : Choices) (test : Option (Emit ValueType)) : Prop :=
  ∀ v ∈ test, PacedValue opts v

theorem loopTest_paced (h : PacedTest opts test)
    (ctx : Context) (labels : List String) (plain continues : Bool) (hulls : List Hull) :
    ∃ es, ∀ fs, Pace opts ctx (.jumps labels plain continues :: hulls) es fs (up 0)
      (loopTest test) (loopTest test) (Then fs (up 0)) := by
  cases test with
  | none => exact ⟨[], fun fs => .pure ⟨rfl, rfl⟩⟩
  | some test =>
    obtain ⟨es, ht⟩ := condition_paced (h test rfl) ctx (.jumps labels plain continues :: hulls)
    refine ⟨es ++ [.breakTo hulls.length], fun fs => ?_⟩
    refine .andThen (ht fs 0) fun _ _ => .withBreak fun l m => ?_
    exact (Pace.branch rfl (.aim (.head _))).forget
      (.drop (fun _ _ _ => Fact.noConfusion) fs)

/-- A statement after which a loop jumps back unless it was left. -/
theorem jumpBack_paced {c : Completion} {l m : Label} (h : Fact.aim l m 0 ∈ fs) :
    Pace opts ctx hulls [] fs c.reach
      (if !c.isAbrupt then jump .jump l else pure ())
      (if !c.isAbrupt then jump .jump m else pure ()) (Then fs none) := by
  cases hab : c.isAbrupt with
  | true =>
    simp only [Completion.reach, hab, Bool.not_true]
    exact .pure ⟨rfl, rfl⟩
  | false =>
    simp only [Completion.reach, hab, Bool.not_false]
    exact .jump (.aim h)

theorem whileForm_paced (labels : List String)
    (ht : PacedTest opts test) (hb : PacedStmt opts body) :
    PacedStmt opts (whileForm labels test body) := by
  intro ctx hulls
  let hull : Hull := .jumps labels true true
  obtain ⟨es, ht⟩ := loopTest_paced ht ctx labels true true hulls
  obtain ⟨c, es', hb⟩ := hb ctx (hull :: hulls)
  let all := es ++ (es' ++ [])
  have hrounds (fs : List Fact) : Pace opts ctx hulls (hull.passed hulls all) fs (up 0)
      (inLoop labels fun head => do
        place head
        loopTest test
        if !(← body).isAbrupt then jump .jump head)
      (inLoop labels fun head => do
        place head
        loopTest test
        if !(← body).isAbrupt then jump .jump head)
      (LoopLeft test.isNone (breaksOff true (hull.taken hulls all)) fs) := by
    refine .inLoop fun l m l' m' => ?_
    refine .withJumps_blind (.changeDraft _) (.changeDraft _) ?_
    refine .step (.placeNext _ rfl rfl (.refl _)) fun _ _ => ?_
    refine @Pace.again _ _ _ _ _ _ _ _ _ _ _ (.aim l m 0) rfl (by simp [PairedJumps.facts, PairedJumps.continueFacts,
      PairedJumps.loop]) ?_
    refine .retain (.of_perm List.perm_middle) ?_
    refine rounds_paced _ (fun _ => .inr (.inl rfl)) ?_ (.none _) (fun _ => rfl)
      (.drop (fun _ _ _ => Fact.noConfusion) fs)
    refine .andThen (ht _) fun _ _ => .complete (hb _) ?_
    exact jumpBack_paced (.head _)
  exact ⟨_, hull.passed hulls all ++ [], fun fs => .bind (hrounds fs) fun _ _ _ _ h =>
    loopEnd_paced h⟩

/-- The rounds of a loop that continues after its body, if its body completes or continues. -/
def lateRounds (labels : List String) (first : Emit Unit) (body : Emit Completion)
    (tail : Label → Emit Unit) : Emit (Unit × Jumps) :=
  inLoop labels fun next => do
    let head ← newLabel
    place head
    first
    let c ← body
    if !c.isAbrupt || (← continueUsed) then
      place next
      tail head

theorem lateRounds_paced (labels : List String) (first : Emit Unit)
    {tail : Label → Emit Unit} {c : Completion} {es₁ es₂ es₃ : List Exit}
    {last : Option Shape} (infinite : Bool)
    (hf : ∀ fs, Pace opts ctx (.jumps labels true true :: hulls) es₁ fs (up 0) first
      first (Then fs (up 0)))
    (hb : ∀ fs, Pace opts ctx (.jumps labels true true :: hulls) es₂ fs (up 0) body
      body (Gives (· = c) fs c.reach))
    (ht : ∀ l m fs, Fact.aim l m 0 ∈ fs → Pace opts ctx
      (.jumps labels true true :: hulls) es₃ fs (up 0) (tail l) (tail m) (Then fs last))
    (he : Eases last (up 0)) (hi : infinite = true → last = none) :
    ∃ es used, ∀ fs, Pace opts ctx hulls es fs (up 0)
      (lateRounds labels first body tail) (lateRounds labels first body tail)
      (LoopLeft infinite used fs) := by
  let hull : Hull := .jumps labels true true
  let learn : PairedJumps → PairedJumps := fun jumps =>
    (jumps.learn (hull.taken hulls es₁)).learn (hull.taken hulls es₂)
  let start := learn (.loop labels ctx.envDepth (0, 0) (0, 0))
  -- Up to the end of the body, both outcomes go the same way.
  have hstart {es : List Exit} {fs : List Fact} {last : After (Unit × Jumps) (Unit × Jumps)}
      (h : ∀ l m l' m' n n', Pace opts ctx hulls es
        ((learn (.loop labels ctx.envDepth (l, m) (l', m'))).facts ++ .aim n n' 0 :: fs)
        c.reach
        (withJumps (learn (.loop labels ctx.envDepth (l, m) (l', m'))).one
          (if !c.isAbrupt || start.continueUsed then do place l; tail n else pure ()))
        (withJumps (learn (.loop labels ctx.envDepth (l, m) (l', m'))).other
          (if !c.isAbrupt || start.continueUsed then do place m; tail n' else pure ()))
        last) :
      Pace opts ctx hulls (hull.passed hulls es₁ ++ (hull.passed hulls es₂ ++ es))
        fs (up 0) (lateRounds labels first body tail) (lateRounds labels first body tail) last := by
    refine .inLoop fun l m l' m' => ?_
    refine .withJumps_blind (.onDraft _) (.onDraft _) (.withLabel fun n n' => ?_)
    refine .withJumps_blind (.changeDraft _) (.changeDraft _) ?_
    refine .step (.placeAim [] _ nofun) fun _ _ => ?_
    refine .retain (.of_perm (List.perm_middle : (PairedJumps.facts _ ++ _ :: fs).Perm _)) ?_
    refine .withJumps_bind (.loop labels ctx.envDepth (l, m) (l', m')) (hf _) ?_
    rintro _ _ _ _ ⟨rfl, rfl⟩
    refine .withJumps_bind (PairedJumps.learn _ _) (hb _) ?_
    rintro _ _ _ _ ⟨rfl, rfl, rfl, rfl⟩
    exact .withJumps_continueUsed (h l m l' m' n n')
  by_cases hgo : (!c.isAbrupt || start.continueUsed) = true
  · refine ⟨hull.passed hulls es₁ ++ (hull.passed hulls es₂ ++ hull.passed hulls es₃),
      (start.learn (hull.taken hulls es₃)).breakUsed, fun fs => hstart ?_⟩
    intro l m l' m' n n'
    simp only [hgo, if_true]
    refine .withJumps_blind (.changeDraft _) (.changeDraft _) ?_
    refine .step (.placeNext (learn (.loop labels ctx.envDepth (l, m) (l', m'))) rfl rfl
      c.reach_eases) fun _ _ => ?_
    exact rounds_paced { learn (.loop labels ctx.envDepth (l, m) (l', m')) with placed := true }
      (fun _ => .inr (.inl rfl)) (ht n n' _ (.head _)) he hi
      (.drop (fun _ _ _ => Fact.noConfusion) fs)
  · refine ⟨hull.passed hulls es₁ ++ (hull.passed hulls es₂ ++ []), start.breakUsed,
      fun fs => hstart ?_⟩
    intro l m l' m' n n'
    simp only [hgo, Bool.false_eq_true, if_false]
    obtain ⟨habrupt, hidle⟩ := Bool.or_eq_false_iff.mp (Bool.not_eq_true _ ▸ hgo)
    refine .retain ((Retains.drop (fun _ _ _ => Fact.noConfusion) fs).append_left _) ?_
    refine .pure ⟨learn (.loop labels ctx.envDepth (l, m) (l', m')), .inr (.inr hidle), rfl, rfl,
      rfl, rfl, c.reach_eases, fun _ => ?_⟩
    have habrupt : c.isAbrupt = true := by simpa using habrupt
    simp only [Completion.reach, habrupt, if_true]

/-- The jump back from the end of a round, if the test holds. -/
def goBack (test : Option (Emit ValueType)) (start : Label) : Emit Unit :=
  match test with
  | none => jump .jump start
  | some test => do
    condition test
    jump .jumpIfTrue start

theorem doWhileForm_paced (labels : List String)
    (ht : PacedTest opts test) (hb : PacedStmt opts body) :
    PacedStmt opts (doWhileForm labels test body) := by
  intro ctx hulls
  obtain ⟨c, es, hb⟩ := hb ctx (.jumps labels true true :: hulls)
  have htail : ∃ es' last, Eases last (up 0) ∧ (test.isNone = true → last = none) ∧
      ∀ l m fs, Fact.aim l m 0 ∈ fs →
        Pace opts ctx (.jumps labels true true :: hulls) es' fs (up 0)
          (goBack test l) (goBack test m) (Then fs last) := by
    cases test with
    | none => exact ⟨[], none, .none _, fun _ => rfl, fun l m fs h => .jump (.aim h)⟩
    | some test =>
      obtain ⟨es, ht⟩ := condition_paced (ht test rfl) ctx (.jumps labels true true :: hulls)
      refine ⟨es ++ [], up 0, .refl _, nofun, fun l m fs h => ?_⟩
      exact .andThen (ht fs 0) fun _ _ => .branch rfl (.aim h)
  obtain ⟨es', last, he, hi, htail⟩ := htail
  obtain ⟨es, used, hr⟩ := lateRounds_paced labels (pure ()) _ (fun _ => .pure ⟨rfl, rfl⟩) hb htail he
    hi
  exact ⟨_, es ++ [], fun fs => .bind (hr fs) fun _ _ _ _ h => loopEnd_paced h⟩

/-! ### Loops with a head -/

theorem createBinding_paced {height count} (binding : Binding) :
    Pace opts ctx hulls [] fs (some ⟨height, .cells count⟩) (createBinding binding)
      (createBinding binding) (Then fs (some ⟨height, .cells (count + 1)⟩)) := by
  refine .read ?_
  cases binding.kind with
  | arguments =>
    change Pace _ _ _ _ _ _ (if ctx.strict then _ else _) (if ctx.strict then _ else _) _
    cases ctx.strict <;> exact .opBinds rfl
  | _ => exact .opBinds rfl

theorem bindings_paced {height} (bindings : List Binding) (count : Nat) :
    Pace opts ctx hulls [] fs (some ⟨height, .cells count⟩) (bindings.forM createBinding)
      (bindings.forM createBinding)
      (Then fs (some ⟨height, .cells (count + bindings.length)⟩)) := by
  induction bindings generalizing count with
  | nil => exact .pure ⟨rfl, rfl⟩
  | cons binding rest ih =>
    rw [List.length_cons, Nat.add_comm rest.length, ← Nat.add_assoc]
    exact .step (createBinding_paced binding) fun _ _ => ih (count + 1)

/-- The bindings of a scope are added to its record. -/
theorem createBindings_paced {height : Nat} (scope : ScopeId) :
    Pace opts ctx hulls [] fs (some ⟨height, .cells 0⟩) (createBindings scope)
      (createBindings scope) (Then fs (up height)) := by
  refine .take .scopeAt fun found _ => (bindings_paced found.bindings 0).weaken ?_
  rintro _ _ fs _ ⟨rfl, rfl⟩
  exact ⟨fs, up height, .refl fs, fun _ h => ⟨_, rfl, by cases h; exact ⟨rfl, .any⟩⟩, rfl, rfl⟩

theorem initializeSlot_paced (slot : Nat) : PacedPlain opts (initializeSlot slot) 1 0 :=
  fun {_ _ _ _} => .opWith rfl rfl rfl

theorem dropped_paced {v} (h : PacedValue opts v) : PacedCode opts (dropped v) 0 0 :=
  h.then_ fun _ {_ _ _ _} => .op rfl rfl

/-- What a loop with a head does between its rounds. -/
def nextRound (copies : Bool) (update : Option (Emit ValueType)) (head : Label) : Emit Unit := do
  if copies then op .copyEnv
  match update with
  | some update => dropped update
  | none => pure ()
  jump .jump head

theorem nextRound_paced (copies : Bool)
    (hu : ∀ v ∈ update, PacedValue opts v) (ctx : Context) (hulls : List Hull) :
    ∃ es, ∀ l m fs, Fact.aim l m 0 ∈ fs → Pace opts ctx hulls es fs (up 0)
      (nextRound copies update l) (nextRound copies update m) (Then fs none) := by
  have hlast : ∃ es, ∀ l m fs, Fact.aim l m 0 ∈ fs →
      Pace opts ctx hulls es fs (up 0) (nextRound false update l)
        (nextRound false update m) (Then fs none) := by
    cases update with
    | none => exact ⟨[], fun l m fs h => .jump (.aim h)⟩
    | some update =>
      obtain ⟨es, hu⟩ := dropped_paced (hu update rfl) ctx hulls
      exact ⟨es ++ [], fun l m fs h => .andThen (hu fs 0) fun _ _ => .jump (.aim h)⟩
  obtain ⟨es, hlast⟩ := hlast
  refine ⟨es, fun l m fs h => ?_⟩
  cases copies with
  | false => exact hlast l m fs h
  | true => exact .step (.op rfl rfl) fun _ _ => hlast l m fs h

/-- The start and the rounds of a loop with a head. -/
def headRounds (labels : List String) (init : Emit Unit) (copies : Bool)
    (test update : Option (Emit ValueType)) (body : Emit Completion) : Emit Completion := do
  init
  if copies then op .copyEnv
  let (_, jumps) ← lateRounds labels (loopTest test) body (nextRound copies update)
  place jumps.breakLabel
  return jumps.loopCompletion test.isNone

theorem headRounds_paced (labels : List String) {init : Emit Unit} (copies : Bool)
    (hi : PacedCode opts init 0 0) (ht : PacedTest opts test)
    (hu : ∀ v ∈ update, PacedValue opts v) (hb : PacedStmt opts body) :
    PacedStmt opts (headRounds labels init copies test update body) := by
  intro ctx hulls
  obtain ⟨es, hi⟩ := hi ctx hulls
  obtain ⟨es₁, ht⟩ := loopTest_paced ht ctx labels true true hulls
  obtain ⟨c, es₂, hb⟩ := hb ctx (.jumps labels true true :: hulls)
  obtain ⟨es₃, hu⟩ := nextRound_paced copies hu ctx (.jumps labels true true :: hulls)
  obtain ⟨es', used, hr⟩ := lateRounds_paced labels (loopTest test) test.isNone ht hb
    hu (.none _) fun _ => rfl
  refine ⟨loopCompletion test.isNone used, es ++ (es' ++ []), fun fs => ?_⟩
  refine .andThen (hi fs 0) fun _ _ => ?_
  cases copies with
  | true => exact .step (.op rfl rfl) fun _ _ => .bind (hr fs) fun _ _ _ _ h => loopEnd_paced h
  | false => exact .bind (hr fs) fun _ _ _ _ h => loopEnd_paced h

/-- Code in the record of a scope, if it has one. -/
def inRecord (scope : ScopeId) (entered : Bool) (body : Emit Completion) : Emit Completion := do
  if entered then op .pushBlockEnv
  let c ← inScope scope entered do
    if entered then createBindings scope
    body
  if entered && !c.isAbrupt then op .popEnv
  return c

theorem inRecord_paced (scope : ScopeId) (entered : Bool)
    (hb : PacedStmt opts body) : PacedStmt opts (inRecord scope entered body) := by
  intro ctx hulls
  obtain ⟨c, es, hb⟩ :=
    hb { ctx with scope, envDepth := ctx.envDepth + if entered then 1 else 0 } hulls
  refine ⟨c, es ++ [], fun fs => ?_⟩
  cases entered with
  | true =>
    refine .step .pushBlockEnv fun _ _ => ?_
    refine .complete (.inScope (.step (createBindings_paced scope) fun _ _ => hb fs)) ?_
    exact popEnv_paced true c
  | false => exact .complete (.inScope (hb fs)) (popEnv_paced false c)

theorem forForm_paced (labels : List String) (opened : Option ScopeId) {init} (copies : Bool)
    (hi : PacedCode opts init 0 0) (ht : PacedTest opts test) (hu : ∀ v ∈ update, PacedValue opts v)
    (hb : PacedStmt opts body) :
    PacedStmt opts (forForm labels opened init copies test update body) := by
  intro ctx hulls
  cases opened with
  | none => exact ⟨.normal, [], fun _ => .throw rfl⟩
  | some scope =>
    let entered := (opts.scopes.scope scope).materializes
    obtain ⟨c, es, hr⟩ := inRecord_paced scope entered
      (headRounds_paced labels (copies && entered) hi ht hu hb) ctx hulls
    refine ⟨c, es, fun fs => ?_⟩
    refine .take .scopeOf fun found hf => ?_
    cases hf
    refine .take .scopeAt fun found hf => ?_
    subst hf
    exact hr fs

/-! ### Loops over an iterator -/

/-- The ranges of a loop are protected by handlers that close its iterator. -/
theorem closeRanges_paced (reg : Nat) {l m} (closing : PairedClosing)
    (hf : ∀ fact ∈ closing.facts, fact ∈ fs) : Pace opts ctx hulls [] fs here
      (forIn closing.one.ranges PUnit.unit fun range _ => do
        changeDraft fun draft => draft.addHandler ⟨range.1, range.2, l, .closes reg⟩
        return .yield PUnit.unit)
      (forIn closing.other.ranges PUnit.unit fun range _ => do
        changeDraft fun draft => draft.addHandler ⟨range.1, range.2, m, .closes reg⟩
        return .yield PUnit.unit)
      (Then fs here) := by
  have hr := @Pace.rounds _ _ _ opts ctx hulls
    (fun range : (Nat × Nat) × (Nat × Nat) => (range.1.1, range.2.1))
    (fun range : (Nat × Nat) × (Nat × Nat) => (range.1.2, range.2.2))
    (fun range _ => do
        changeDraft fun draft => draft.addHandler ⟨range.1, range.2, l, .closes reg⟩
        return .yield PUnit.unit)
    (fun range _ => do
        changeDraft fun draft => draft.addHandler ⟨range.1, range.2, m, .closes reg⟩
        return .yield PUnit.unit)
    (fun _ => []) (fun _ => fs) (fun _ => here) closing.ranges fun range rest hs => by
      have hin : range ∈ closing.ranges := hs.subset (.head _)
      refine .step (.addHandler rfl (hf _ ?_) (hf _ ?_)) fun _ _ => .pure ⟨rfl, rfl, rfl, rfl⟩
      · exact List.mem_append_right _ (List.mem_flatMap.mpr ⟨range, hin, by simp⟩)
      · exact List.mem_append_right _ (List.mem_flatMap.mpr ⟨range, hin, by simp⟩)
  rwa [List.flatMap_eq_nil_iff.mpr fun _ _ => rfl] at hr

theorem PairedClosing.retains (closing : PairedClosing) (fs : List Fact) :
    Retains (closing.facts ++ fs) fs := by
  refine .dropAll (fun fact hf l m height he => ?_) fs
  subst he
  simp [PairedClosing.facts] at hf

/-- A loop whose iterator is closed when an exception passes. -/
theorem closingIterator_paced (reg : Nat) {x y : Emit α} {after : After α α}
    (h : Pace opts ctx (.closing :: hulls) es fs here x y after) :
    Pace opts ctx hulls (Hull.passed .closing hulls es ++ []) fs here
      (closingIterator reg x) (closingIterator reg y) after := by
  refine .within (.closing ⟨reg, none, []⟩) h fun a b fs' here' entry' ha hl => ?_
  cases hl with
  | @closing _ closing _ =>
    refine .withPosition fun p q => ?_
    rw [← closing.one_suspend p q, ← closing.other_suspend p q]
    refine .retain (closing.retains_suspend p q fs') (.withLabel fun l m => ?_)
    refine .step (closeRanges_paced reg (closing.suspend p q) fun fact hf => ?_) fun _ _ => ?_
    · exact List.mem_cons_of_mem _ (List.mem_append_left _ hf)
    · refine .retain (.drop (fun _ _ _ h => by cases h) _) (.retain (PairedClosing.retains _ fs') ?_)
      exact .pure ha

theorem roundForm_paced (scope : ScopeId) {assign} (ha : PacedCode opts assign 1 0)
    (hb : PacedStmt opts body) (ctx : Context) (hulls : List Hull)
    : ∃ es, ∀ l m fs, Fact.aim l m 0 ∈ fs →
      Pace opts ctx hulls es fs (up 1) (roundForm scope assign body l)
        (roundForm scope assign body m) (Then fs none) := by
  cases he : (opts.scopes.scope scope).materializes with
  | true =>
    obtain ⟨c, es, hb⟩ := hb { ctx with scope, envDepth := ctx.envDepth + 1 } hulls
    refine ⟨es ++ [], fun l m fs hf => .take .scopeAt fun found hfound => ?_⟩
    simp only [hfound, he, if_true]
    refine .step .pushBlockEnv fun _ _ => ?_
    refine .complete (.inScope (.step (createBindings_paced scope) fun _ _ =>
      .step (initializeSlot_paced 0) fun _ _ => hb fs)) ?_
    cases hab : c.isAbrupt with
    | true =>
      simp only [Completion.reach, hab, Bool.not_true]
      exact .pure ⟨rfl, rfl⟩
    | false =>
      simp only [Completion.reach, hab, Bool.not_false]
      exact .step (.op rfl rfl) fun _ _ => .jump (.aim hf)
  | false =>
    obtain ⟨es, ha⟩ := ha { ctx with scope } hulls
    obtain ⟨c, es', hb⟩ := hb { ctx with scope } hulls
    refine ⟨es ++ es' ++ [], fun l m fs hf => .take .scopeAt fun found hfound => ?_⟩
    simp only [hfound, he, Bool.false_eq_true, if_false]
    refine .complete (.inScope (.andThen (ha fs 0) fun _ _ => hb fs)) ?_
    exact jumpBack_paced hf

/-- What is known after the rounds of a loop over an iterator: its value is on the stack at a
label. -/
def IteratorLeft (used : Bool) (fs : List Fact) : After (Label × Jumps) (Label × Jumps) :=
  fun a b fs' here' => ∃ jumps : PairedJumps, jumps.Idle ∧ jumps.breakUsed = used ∧
    a.2 = jumps.one ∧ b.2 = jumps.other ∧
    fs' = jumps.facts ++ .label a.1 b.1 (some 1) :: fs ∧ here' = none

theorem roundsForm_paced (labels : List String) (opened : Option ScopeId) (closes : Bool) {assign}
    (ha : PacedCode opts assign 1 0) (hb : PacedStmt opts body) (ctx : Context) (hulls : List Hull)
    : ∃ es used, ∀ iterator fs,
      Pace opts ctx hulls es fs (up 0) (roundsForm labels opened iterator closes assign body)
        (roundsForm labels opened iterator closes assign body) (IteratorLeft used fs) := by
  let hull : Hull := .jumps labels true true
  have hround : ∃ es, ∀ l m (n n' : Label) fs, Fact.aim l m 0 ∈ fs →
      Pace opts ctx (hull :: hulls) es fs (up 1)
        (do roundForm (← scopeOf opened) assign body l; return n)
        (do roundForm (← scopeOf opened) assign body m; return n')
        fun a b fs' here' => a = n ∧ b = n' ∧ fs' = fs ∧ here' = none := by
    cases opened with
    | none => exact ⟨[], fun _ _ _ _ _ _ => .throw rfl⟩
    | some scope =>
      obtain ⟨es, hr⟩ := roundForm_paced scope ha hb ctx (hull :: hulls)
      refine ⟨es ++ [], fun l m n n' fs hf => .take .scopeOf fun found hfound => ?_⟩
      cases hfound
      exact .andThen (hr l m fs hf) fun _ _ => .pure ⟨rfl, rfl, rfl, rfl⟩
  obtain ⟨es, hround⟩ := hround
  refine ⟨hull.passed hulls es, breaksOff true (hull.taken hulls es),
    fun iterator fs => .inLoop fun l m l' m' => ?_⟩
  refine .withJumps_blind (.onDraft _) (.onDraft _) (.withLabel fun n n' => ?_)
  refine .withJumps_blind (.changeDraft _) (.changeDraft _) ?_
  refine .retain (.of_perm List.perm_middle) ?_
  refine .step (.placeNext (.loop labels ctx.envDepth (l, m) (l', m')) rfl rfl (.refl _))
    fun _ _ => ?_
  refine @Pace.again _ _ _ _ _ _ _ _ _ _ _ (.aim l m 0) rfl (by simp [PairedJumps.facts, PairedJumps.continueFacts,
    PairedJumps.loop]) ?_
  refine .retain (.of_perm List.perm_middle) ?_
  let last : After Label Label := fun a b fs' here' => a = n ∧ b = n' ∧
    fs' = .aim l m 0 :: .label n n' (some 1) :: fs ∧ here' = none
  refine (Pace.withJumps
    { PairedJumps.loop labels ctx.envDepth (l, m) (l', m') with placed := true }
    (?_ : Pace _ _ _ _ _ _ _ _ last)).weaken ?_
  · refine .step (.opRegister rfl rfl) fun _ _ => .step (.op rfl rfl) fun _ _ => ?_
    refine .step (.op rfl rfl) fun _ _ => .step (.op rfl rfl) fun _ _ => ?_
    refine .step (.op rfl (rfl : _ = 2)) fun _ _ => ?_
    refine .step (.branch rfl (.label [_] fs (.inl rfl))) fun _ _ => ?_
    refine .step (.op rfl (rfl : _ = 1)) fun _ _ => ?_
    have hr := hround l m n n' (.aim l m 0 :: .label n n' (some 1) :: fs) (.head _)
    cases closes with
    | true => exact .step openClosing_paced fun _ _ => hr
    | false => exact hr
  · rintro ⟨_, _⟩ ⟨_, _⟩ _ _ ⟨_, ⟨rfl, rfl, rfl, rfl⟩, rfl, rfl, rfl⟩
    exact ⟨_, none, (Retains.drop (fun _ _ _ => Fact.noConfusion) _).append_left _, .refl _, _,
      .inr (.inl rfl), rfl, rfl, rfl, rfl, rfl⟩

def iteratorEnd (iterator : Nat) (overValues : Bool) (left : Label × Jumps) : Emit Completion := do
  let (done, jumps) := left
  place done
  op .pop
  if jumps.breakUsed then
    let exit ← newLabel
    jump .jump exit
    place jumps.breakLabel
    if overValues then
      opRegister .loadReg iterator
      op .iteratorClose
    place exit
  return .normal

theorem iteratorEnd_paced (iterator : Nat) (overValues : Bool) {a b used}
    (h : IteratorLeft used fs a b fs' here') :
    Pace opts ctx hulls [] fs' here' (iteratorEnd iterator overValues a)
      (iteratorEnd iterator overValues b) (Gives (· = .normal) fs Completion.normal.reach) := by
  obtain ⟨done, jumps⟩ := a
  obtain ⟨done', jumps'⟩ := b
  obtain ⟨jumps, hidle, rfl, rfl, rfl, rfl, rfl⟩ := h
  refine .step (.land jumps.facts fs (.none _)) fun _ _ => .step (.op rfl rfl) fun _ _ => ?_
  simp only [PairedJumps.one, PairedJumps.other]
  have hfacts : jumps.facts ++ fs = mark jumps.breakUsed jumps.breaks ::
    (jumps.continueFacts ++ fs) := rfl
  rw [hfacts]
  cases hb : jumps.breakUsed with
  | false =>
    simp only [Bool.false_eq_true, if_false]
    refine .retain (.drop (fun _ _ _ h => by simp [mark] at h) _) ?_
    exact .retain (hidle.retains fs) (.pure ⟨rfl, rfl, rfl, rfl⟩)
  | true =>
    simp only [if_true]
    refine .withLabel fun l m => ?_
    refine .step (.jump (.label [] _ (.inl rfl))) fun _ _ => ?_
    refine .step (.land [_] _ (.none _)) fun _ _ => ?_
    have hlast : Pace opts ctx hulls [] (.label l m (some 0) :: (jumps.continueFacts ++ fs))
        (up 0) (do place l; return Completion.normal) (do place m; return Completion.normal)
        (Gives (· = .normal) fs Completion.normal.reach) :=
      .step ((Pace.land [] _ (.refl _)).forget (hidle.retains fs)) fun _ _ =>
        .pure ⟨rfl, rfl, rfl, rfl⟩
    cases overValues with
    | false => exact hlast
    | true => exact .step (.opRegister rfl rfl) fun _ _ => .step (.op rfl rfl) fun _ _ => hlast

theorem forEachForm_paced (labels : List String) (opened : Option ScopeId) {right}
    (overValues : Bool) {assign} (hr : PacedValue opts right) (ha : PacedCode opts assign 1 0)
    (hb : PacedStmt opts body) :
    PacedStmt opts (forEachForm labels opened right overValues assign body) := by
  intro ctx hulls
  obtain ⟨es, hr⟩ := hr ctx hulls
  cases overValues with
  | true =>
    obtain ⟨es', used, hrounds⟩ :=
      roundsForm_paced labels opened true ha hb ctx (.closing :: hulls)
    refine ⟨.normal, es ++ (Hull.passed .closing hulls es' ++ [] ++ []), fun fs =>
      .with_ (hr fs 0) fun _ _ => ?_⟩
    refine .step (.op rfl rfl) fun _ _ => .take .newRegister fun iterator _ => ?_
    refine .step (.opRegister rfl rfl) fun _ _ => ?_
    refine .bind (closingIterator_paced iterator (hrounds iterator fs)) fun _ _ _ _ h => ?_
    exact iteratorEnd_paced iterator true h
  | false =>
    obtain ⟨es', used, hrounds⟩ := roundsForm_paced labels opened false ha hb ctx hulls
    refine ⟨.normal, es ++ (es' ++ []), fun fs => .with_ (hr fs 0) fun _ _ => ?_⟩
    refine .step (.op rfl rfl) fun _ _ => .take .newRegister fun iterator _ => ?_
    refine .step (.opRegister rfl rfl) fun _ _ => ?_
    exact .bind (hrounds iterator fs) fun _ _ _ _ h => iteratorEnd_paced iterator false h

end Ecma.Compile

