/-
Returns, suspensions and protected blocks keep emitters abreast. A finalizer is emitted for every
way of leaving its block, and the ways are the same under all options.
-/
import Ecma.Proofs.Options.Statements

namespace Ecma.Compile

variable {opts : Choices} {ctx : Context} {hulls : List Hull}
  {es es' : List Exit} {fs fs' : List Fact} {here here' : Option Shape}

/-! ## Returns -/

/-- Code that never falls off its end, at one pace. -/
def PacedReturn (opts : Choices) (x : Emit Unit) : Prop :=
  ∀ ctx hulls, ∃ es, ∀ fs, Pace opts ctx hulls es fs (up 0) x x
    (Then fs none)

theorem emitReturn_paced (ctx : Context) (hulls : List Hull) : ∃ es, ∀ fs,
    Pace opts ctx hulls es fs (up 1) emitReturn emitReturn (Then fs none) := by
  cases hc : hulls.any Hull.cleansUp with
  | true =>
    refine ⟨[.function], fun fs => .take hasCleanup_paced fun found hf => ?_⟩
    rw [hf, hc]
    refine .take .returnRegister fun _ _ => .step (.opRegister rfl rfl) fun _ _ => ?_
    exact exitTo_paced .function
  | false =>
    refine ⟨[], fun fs => .take hasCleanup_paced fun found hf => ?_⟩
    rw [hf, hc]
    exact .leave rfl

/-- Whether calls in tail position are allowed inside constructs. -/
def allowsTailCall (opts : Choices) (ctx : Context) (hulls : List Hull) : Bool :=
  opts.one.tailCalls && ctx.strict
    && (ctx.kind == .normal || ctx.kind == .arrow)
    && ctx.tryDepth == 0 && !hulls.any Hull.cleansUp

theorem tailCallAllowed_paced : Pace opts ctx hulls [] fs here tailCallAllowed tailCallAllowed
    (Gives (· = allowsTailCall opts ctx hulls) fs here) := by
  refine .read (.take hasCleanup_paced fun found hf => ?_)
  subst hf
  refine .pure ⟨?_, rfl, rfl, rfl⟩
  change (opts.other.tailCalls && _ && _ && _ && _) = (opts.one.tailCalls && _ && _ && _ && _)
  rw [opts.tailCalls]
  rfl

theorem returnOf_paced {v tailCall} (hv : PacedValue opts v)
    (ht : ∀ call ∈ tailCall, PacedReturn opts call) : PacedReturn opts (returnOf v tailCall) := by
  intro ctx hulls
  obtain ⟨es, hv⟩ := hv ctx hulls
  obtain ⟨es', hr⟩ := emitReturn_paced ctx hulls
  have hplain : ∀ fs, Pace opts ctx hulls (es ++ es') fs (up 0)
      (do let _ ← v; emitReturn) (do let _ ← v; emitReturn) (Then fs none) :=
    fun fs => .with_ (hv fs 0) fun _ _ => hr fs
  cases tailCall with
  | none =>
    exact ⟨_, fun fs => .take tailCallAllowed_paced fun _ _ => hplain fs⟩
  | some call =>
    cases hallowed : allowsTailCall opts ctx hulls with
    | true =>
      obtain ⟨es, ht⟩ := ht call rfl ctx hulls
      refine ⟨es, fun fs => .take tailCallAllowed_paced fun found hf => ?_⟩
      rw [hf, hallowed]
      exact ht fs
    | false =>
      refine ⟨es ++ es', fun fs => .take tailCallAllowed_paced fun found hf => ?_⟩
      rw [hf, hallowed]
      exact hplain fs

/-- The code of a return with this operand. -/
def returning (code : Option (Emit Unit)) : Emit Completion := do
  match code with
  | some code => code
  | none =>
    op .pushUndefined
    emitReturn
  return .returns

theorem returnForm_paced {code} (h : ∀ body ∈ code, PacedReturn opts body) :
    PacedStmt opts (returnForm code) := by
  intro ctx hulls
  cases hk : (ctx.kind == .script || ctx.kind == .module) with
  | true =>
    refine ⟨.returns, [], fun fs => .read ?_⟩
    change Pace _ _ _ _ _ _ (if (ctx.kind == .script || ctx.kind == .module) = true then _
      else _) (if (ctx.kind == .script || ctx.kind == .module) = true then _ else _) _
    rw [hk]
    exact .throw rfl
  | false =>
    have hcode : ∃ es, ∀ fs, Pace opts ctx hulls es fs (up 0)
        (returning code) (returning code) (Gives (· = .returns) fs none) := by
      cases code with
      | some code =>
        obtain ⟨es, h⟩ := h code rfl ctx hulls
        exact ⟨es ++ [], fun fs => .andThen (h fs) fun _ _ => .pure ⟨rfl, rfl, rfl, rfl⟩⟩
      | none =>
        obtain ⟨es, hr⟩ := @emitReturn_paced opts ctx hulls
        refine ⟨es ++ [], fun fs => .step (.op rfl rfl) fun _ _ => ?_⟩
        exact .andThen (hr fs) fun _ _ => .pure ⟨rfl, rfl, rfl, rfl⟩
    obtain ⟨es, hcode⟩ := hcode
    refine ⟨.returns, es, fun fs => .read ?_⟩
    change Pace _ _ _ _ _ _ (if (ctx.kind == .script || ctx.kind == .module) = true then _
      else _) (if (ctx.kind == .script || ctx.kind == .module) = true then _ else _) _
    rw [hk]
    exact hcode fs

/-! ## Suspensions -/

theorem generatorStart_paced (hk : ctx.kind.isResumable = true) :
    Pace opts ctx hulls [] fs (up 0) generatorStart generatorStart (Then fs (up 0)) :=
  .step (.op rfl rfl) fun _ _ => .step (.suspend hk) fun _ _ => .step (.op rfl rfl) fun _ _ =>
    .op rfl rfl

/-- A return of the value on top of the stack. -/
theorem returnFromStack_paced {height} : Pace opts ctx hulls [.function] fs
    (up (height + 1)) returnFromStack returnFromStack (Then fs none) :=
  .take .returnRegister fun _ _ => .step (.opRegister rfl rfl) fun _ _ =>
    .step .clearStack fun _ _ => exitTo_paced .function

theorem yieldOf_paced {v} (h : PacedCode opts v 0 1) (hk : ctx.kind.isResumable = true)
    : ∃ es, ∀ fs height, Pace opts ctx hulls es fs (up height) (yieldOf v) (yieldOf v)
      (fun a b fs' here' => ∃ known operands, Left a b known operands ∧ fs' = known ++ fs ∧
        here' = up (height + operands)) := by
  obtain ⟨es, h⟩ := h ctx hulls
  refine ⟨es ++ ([.function] ++ []), fun fs height => .andThen (h fs height) fun _ _ => ?_⟩
  refine .step (.opWith rfl rfl rfl) fun _ _ => .step (.suspend hk) fun _ _ => ?_
  refine .withLabel fun l m => .withLabel fun l' m' => ?_
  refine .step (.op rfl (rfl : _ = height)) fun _ _ => ?_
  refine .step (.returnAfterResume (.label [_] fs (.inl rfl))) fun _ _ => ?_
  refine .step (.op rfl rfl) fun _ _ => .step (.jump (.label [] _ (.inl rfl))) fun _ _ => ?_
  refine .step (.land [_] fs (.none _)) fun _ _ => ?_
  refine .andThen returnFromStack_paced fun _ _ => ?_
  refine .step (.land [] fs (.none _)) fun _ _ => ?_
  exact .pure ⟨_, _, .value, rfl, rfl⟩

/-- What was sent is handed to a method of the inner iterator. -/
theorem forwardTo_paced (method : String) (iterator received : Nat) {height l m}
    (ht : Pace.Target l m (height + 1) fs fs') :
    Pace opts ctx hulls [] fs (up height) (forwardTo method iterator received l)
      (forwardTo method iterator received m) (Then fs' (up (height + 1))) := by
  refine .step (.op rfl rfl) fun _ _ => .step (.opRegister rfl rfl) fun _ _ => ?_
  refine .step (.opRegister rfl (rfl : _ = height + 1)) fun _ _ => ?_
  refine .step (.opName rfl fun _ => (rfl : _ = height + 1)) fun _ _ => ?_
  refine .step (.op rfl (rfl : _ = height + 2)) fun _ _ => ?_
  refine .step (.op rfl (rfl : _ = height + 2)) fun _ _ => ?_
  refine .step (.branch rfl ht) fun _ _ => ?_
  refine .step (.opRegister rfl rfl) fun _ _ => .step (.opRegister rfl rfl) fun _ _ => ?_
  refine .step (.opWith rfl rfl (rfl : _ = height + 1)) fun _ _ => ?_
  exact .op rfl rfl

theorem handThrow_paced (iterator received : Nat) {height l m}
    (hf : Fact.aim l m (height + 1) ∈ fs) :
    Pace opts ctx hulls [] fs (up height) (handThrow iterator received l)
      (handThrow iterator received m) (Then fs none) := by
  refine .withLabel fun n n' => ?_
  refine .step (forwardTo_paced "throw" iterator received (.label [] fs (.inl rfl))) fun _ _ => ?_
  refine .step (.jump (.aim (List.mem_append_right [] (.tail _ hf)))) fun _ _ => ?_
  refine .step (.land [] fs (.none _)) fun _ _ => .step (.op rfl rfl) fun _ _ => ?_
  refine .step (.opRegister rfl rfl) fun _ _ => .step (.op rfl rfl) fun _ _ => ?_
  exact .throwNewError

theorem handReturn_paced (iterator received : Nat) {height l m}
    (hf : Fact.aim l m (height + 1) ∈ fs) :
    Pace opts ctx hulls [.function, .function] fs (up height)
      (handReturn iterator received l) (handReturn iterator received m) (Then fs none) := by
  refine .withLabel fun n n' => ?_
  refine .step (forwardTo_paced "return" iterator received (.label [] fs (.inl rfl))) fun _ _ => ?_
  refine .step (.op rfl rfl) fun _ _ => .step (.op rfl (rfl : _ = height + 2)) fun _ _ => ?_
  refine .step (.branch rfl (.aim (List.mem_append_right [] (.tail _ hf)))) fun _ _ => ?_
  refine .step (.op rfl (rfl : _ = height + 1)) fun _ _ => ?_
  refine Pace.andThen returnFromStack_paced fun _ _ => ?_
  refine .step (.land [] fs (.none _)) fun _ _ => .step (.op rfl rfl) fun _ _ => ?_
  refine .step (.opRegister rfl rfl) fun _ _ => ?_
  exact returnFromStack_paced

theorem delegateTo_paced {iterable} (h : PacedValue opts iterable)
    (hk : ctx.kind.isResumable = true) : ∃ es, ∀ fs height,
    Pace opts ctx hulls es fs (up height) (delegateTo iterable) (delegateTo iterable)
      (fun a b fs' here' => ∃ known operands, Left a b known operands ∧ fs' = known ++ fs ∧
        here' = up (height + operands)) := by
  obtain ⟨es, h⟩ := h ctx hulls
  refine ⟨es ++ ([.function, .function] ++ []), fun fs height => ?_⟩
  refine .take .newRegister fun iterator _ => .take .newRegister fun received _ => ?_
  refine .with_ (h fs height) fun _ _ => .step (.op rfl (rfl : _ = height + 1)) fun _ _ => ?_
  refine .step (.opRegister rfl rfl) fun _ _ => .step (.op rfl rfl) fun _ _ => ?_
  refine .step (.opRegister rfl (rfl : _ = height)) fun _ _ => ?_
  refine .withLabel fun next next' => .withLabel fun check check' => ?_
  refine .withLabel fun outer outer' => .withLabel fun onThrow onThrow' => ?_
  refine .withLabel fun onReturn onReturn' => .withLabel fun done done' => ?_
  refine .step (.placeAim [_, _, _, _, _] fs nofun) fun _ _ => ?_
  refine .step (.opRegister rfl rfl) fun _ _ => .step (.opRegister rfl rfl) fun _ _ => ?_
  refine .step (.op rfl (rfl : _ = height + 1)) fun _ _ => ?_
  refine .step (.placeAim [_, _, _, _, _] fs nofun) fun _ _ => ?_
  refine .step (.op rfl rfl) fun _ _ => .step (.op rfl (rfl : _ = height + 2)) fun _ _ => ?_
  refine .step (.branch rfl (.label [_, _] _ (.inl rfl))) fun _ _ => ?_
  refine .step (.placeAim [_, _, _, _, _] fs nofun) fun _ _ => ?_
  refine .step (.suspend hk) fun _ _ => ?_
  refine .step (.branchOnResumption rfl (.label [_, _, _, _, _] fs (.inl rfl))) fun _ _ => ?_
  refine .step (.branchOnResumption rfl (.label [_, _, _, _] _ (.inl rfl))) fun _ _ => ?_
  refine .step (.op rfl rfl) fun _ _ => .step (.opRegister rfl (rfl : _ = height)) fun _ _ => ?_
  refine .step (.jump (.aim (by simp))) fun _ _ => ?_
  refine .step (.land [_, _, _, _, _] fs (.none _)) fun _ _ => ?_
  refine .step (handThrow_paced iterator received (by simp)) fun _ _ => ?_
  refine .step (.land [_, _, _, _] fs (.none _)) fun _ _ => ?_
  refine .andThen (handReturn_paced iterator received (by simp)) fun _ _ => ?_
  refine .step (.land [_, _, _] fs (.none _)) fun _ _ => ?_
  refine .step (.op rfl (rfl : _ = height + 1)) fun _ _ => ?_
  refine .retain (@Retains.dropAll [_, _, _] ?_ fs) (.pure ⟨_, _, .value, rfl, rfl⟩)
  simp

/-- The code of a `yield` or `yield*` in a generator. -/
def yielding (arg : Option (Emit ValueType)) (delegate : Bool) : Emit Emitted :=
  match arg, delegate with
  | some iterable, true => delegateTo iterable
  | none, true => throw .delegateWithoutOperand
  | some v, false => yieldOf do let _ ← v
  | none, false => yieldOf (op .pushUndefined)

theorem yieldForm_paced {arg} (delegate : Bool) (h : ∀ v ∈ arg, PacedValue opts v) :
    PacedExpr opts (yieldForm arg delegate) := by
  intro ctx hulls
  by_cases hk : ctx.kind = .generator
  · have hresume : ctx.kind.isResumable = true := by rw [hk]; rfl
    have hform : ∃ es, ∀ fs height, Pace opts ctx hulls es fs (up height)
        (yielding arg delegate) (yielding arg delegate)
        (fun a b fs' here' => ∃ known operands, Left a b known operands ∧
          fs' = known ++ fs ∧ here' = up (height + operands)) := by
      cases arg with
      | none =>
        cases delegate with
        | true => exact ⟨[], fun _ _ => .throw rfl⟩
        | false => exact yieldOf_paced (PacedPlain.code fun {_ _ _ _} => .op rfl rfl) hresume
      | some v =>
        cases delegate with
        | true => exact delegateTo_paced (h v rfl) hresume
        | false => exact yieldOf_paced ((h v rfl).then_ fun _ {_ _ _ _} => .pure ⟨rfl, rfl⟩) hresume
    obtain ⟨es, hform⟩ := hform
    refine ⟨es, fun fs height => .read ?_⟩
    change Pace _ _ _ _ _ _ (if (ctx.kind != .generator) = true then _ else _)
      (if (ctx.kind != .generator) = true then _ else _) _
    rw [hk]
    exact hform fs height
  · refine ⟨[], fun fs height => .read ?_⟩
    change Pace _ _ _ _ _ _ (if (ctx.kind != .generator) = true then _ else _)
      (if (ctx.kind != .generator) = true then _ else _) _
    rw [if_pos (by simpa using hk)]
    exact .throw rfl

theorem awaitForm_paced {v} (h : PacedValue opts v) : PacedExpr opts (awaitForm v) := by
  intro ctx hulls
  cases hk : ctx.kind.isAsync with
  | true =>
    have hresume : ctx.kind.isResumable = true := by
      cases hkind : ctx.kind <;> rw [hkind] at hk <;> first | rfl | cases hk
    obtain ⟨es, h⟩ := h ctx hulls
    refine ⟨es ++ [], fun fs height => .read ?_⟩
    change Pace _ _ _ _ _ _ (if (!ctx.kind.isAsync) = true then _ else _)
      (if (!ctx.kind.isAsync) = true then _ else _) _
    rw [hk]
    refine .with_ (h fs height) fun _ _ => .step (.op rfl (rfl : _ = height + 1)) fun _ _ => ?_
    refine .step (.suspend hresume) fun _ _ => .step (.op rfl (rfl : _ = height)) fun _ _ => ?_
    refine .step (.op rfl (rfl : _ = height + 1)) fun _ _ => ?_
    exact .pure ⟨_, _, .value, rfl, rfl⟩
  | false =>
    refine ⟨[], fun fs height => .read ?_⟩
    change Pace _ _ _ _ _ _ (if (!ctx.kind.isAsync) = true then _ else _)
      (if (!ctx.kind.isAsync) = true then _ else _) _
    rw [hk]
    exact .throw rfl

end Ecma.Compile
