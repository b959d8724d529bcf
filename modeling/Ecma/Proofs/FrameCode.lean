/-
A frame runs one code, with a bounded stack: whatever an instruction does, the frame that goes on,
is suspended or meets an exception has the code it had, and at most two operands more.
-/
import Ecma.Machine.Run

namespace Ecma

open Code (Template Instruction)

variable {α β : Type}

/-! ## What an action gives -/

/-- Whatever an action gives has a property. -/
structure Action.Gives (post : α → Prop) (action : Action α) : Prop where
  gives : ∀ {m a later}, action m = .ok a later → post a

namespace Action.Gives

variable {post : α → Prop} {goal : β → Prop}

theorem pure {a : α} (h : post a) : Gives post (pure a : Action α) := by
  refine ⟨?_⟩
  rintro _ _ _ ⟨⟩
  exact h

theorem raise {exception : Exception} : Gives post (raise exception : Action α) := ⟨nofun⟩

theorem fail {cause : Cause} : Gives post (fail cause : Action α) := ⟨nofun⟩

theorem bind {x : Action α} {f : α → Action β} (hx : Gives post x)
    (hf : ∀ a, post a → Gives goal (f a)) : Gives goal (x >>= f) := by
  refine ⟨fun {m b later} h => ?_⟩
  change EStateM.bind x f m = _ at h
  unfold EStateM.bind at h
  split at h
  · next a mid ha => exact (hf a (hx.gives ha)).gives h
  · cases h

/-- Nothing is asked of what comes first. -/
theorem after {x : Action α} {f : α → Action β} (hf : ∀ a, Gives goal (f a)) :
    Gives goal (x >>= f) :=
  @bind _ _ (fun _ => True) _ _ _ ⟨fun _ => trivial⟩ fun a _ => hf a

theorem failed {cause : Cause} {f : α → Action β} : Gives goal (Action.fail cause >>= f) := ⟨nofun⟩

theorem choice {condition : Prop} [Decidable condition] {x y : Action α} (hx : Gives post x)
    (hy : Gives post y) : Gives post (if condition then x else y) := by
  split
  · exact hx
  · exact hy

end Action.Gives

/-! ## Operand stacks -/

namespace Stack

theorem size_of_pop? {stack rest : Stack} {v : Value} (h : stack.pop? = some (v, rest)) :
    rest.size = stack.size - 1 := by
  obtain ⟨items, size, hs⟩ := stack
  cases items with
  | nil => cases h
  | cons item items =>
    simp only [pop?, Option.some.injEq, Prod.mk.injEq] at h
    rw [← h.2]

theorem size_of_popMany? {stack rest : Stack} {count} {vs : List Value}
    (h : stack.popMany? count = some (vs, rest)) :
    vs.length = count ∧ rest.size + count = stack.size := by
  unfold popMany? at h
  split at h
  · next hc =>
    simp only [Option.some.injEq, Prod.mk.injEq] at h
    obtain ⟨rfl, rfl⟩ := h
    have := stack.size_eq
    simp
    omega
  · cases h

theorem length_rotateRight (vs : List Value) (count : Nat) :
    (vs.rotateRight count).length = vs.length := by
  unfold List.rotateRight
  grind

theorem size_pushMany (stack : Stack) (vs : List Value) :
    (stack.pushMany vs).size = stack.size + vs.length := by
  induction vs generalizing stack with
  | nil => rfl
  | cons v rest ih =>
    change (pushMany (stack.push v) rest).size = _
    rw [ih]
    simp only [push, List.length_cons]
    omega

end Stack

/-! ## Frames that go on -/

/-- A frame of a code, with so many operands at most. -/
def Frame.Bounded (code : Template) (room : Nat) (fr : Frame) : Prop :=
  fr.code = code ∧ fr.stack.size ≤ room

namespace Frame.Bounded

variable {code : Template} {room : Nat} {fr : Frame} (h : fr.Bounded code room)

include h

theorem more : fr.Bounded code (room + 2) := ⟨h.1, Nat.le_add_right_of_le h.2⟩

theorem pushed (v : Value) : (fr.push v).Bounded code (room + 2) :=
  ⟨h.1, Nat.succ_le_succ (Nat.le_succ_of_le h.2)⟩

end Frame.Bounded

def Exit.Has (prop : Frame → Prop) : Exit → Prop
  | .suspended _ fr => prop fr
  | .returned _ | .tailCall .. => True

theorem Exit.Has.imp {prop other} (h : ∀ fr, prop fr → other fr) {exit : Exit} (he : exit.Has prop)
    : exit.Has other := by
  cases exit with
  | suspended v fr => exact h fr he
  | _ => trivial

/-- The frame that an instruction leaves has a property. -/
def Effect.Has (prop : Frame → Prop) : Effect → Prop
  | .next fr | .raise _ fr => prop fr
  | .exit left => left.Has prop

/-- The frame that goes on or is kept has a property. -/
def Action.Progress.Has (prop : Frame → Prop) : Action.Progress → Prop
  | .next fr => prop fr
  | .exit left => left.Has prop

namespace Action

/-- An instruction that leaves frames of a code only, with at most two operands more. -/
abbrev Stays (code : Template) (room : Nat) (action : Action Effect) : Prop :=
  Gives (Effect.Has (Frame.Bounded code (room + 2))) action

section

variable {code : Template} {room : Nat} {fr : Frame} (h : fr.Bounded code room)
  {instr : Instruction} {call : Caller}

include h

theorem pop_stays : Gives (fun taken : Value × Frame => taken.2.Bounded code room) (pop fr) := by
  unfold pop
  split
  · next he => exact .pure ⟨h.1, by have := Stack.size_of_pop? he; have := h.2; dsimp only; omega⟩
  · exact .fail

theorem popMany_counts {count : Nat} :
    Gives (fun taken : List Value × Frame => taken.1.length = count ∧ taken.2.code = code ∧
      taken.2.stack.size + count ≤ room) (popMany fr count) := by
  unfold popMany
  split
  · next he =>
    obtain ⟨hl, hs⟩ := Stack.size_of_popMany? he
    exact .pure ⟨hl, h.1, hs ▸ h.2⟩
  · exact .fail

theorem popMany_stays {count : Nat} :
    Gives (fun taken : List Value × Frame => taken.2.Bounded code room) (popMany fr count) :=
  ⟨fun he => have ht := (popMany_counts h).gives he; ⟨ht.2.1, Nat.le_of_add_right_le ht.2.2⟩⟩

theorem popCall_stays : Gives (fun taken : (Value × Value × List Value) × Frame =>
    taken.2.Bounded code room) (popCall fr instr) :=
  .after fun _ => (popMany_stays h).bind fun _ h => (pop_stays h).bind fun _ h =>
    (pop_stays h).bind fun _ h => .pure h

theorem pushing_stays {action : Action Value} : Stays code room (pushing fr action) :=
  .after fun v => .pure (h.pushed v)

theorem going_stays {action : Action Unit} : Stays code room (going fr action) :=
  .after fun _ => .pure h.more

theorem unary_stays {f : Value → Action Value} : Stays code room (unary fr f) :=
  (pop_stays h).bind fun _ h => pushing_stays h

theorem binary_stays {f : Value → Value → Action Value} : Stays code room (binary fr f) :=
  (pop_stays h).bind fun _ h => (pop_stays h).bind fun _ h => pushing_stays h

theorem rearrange_stays {count : Nat} {f : List Value → List Value}
    (hf : ∀ vs, vs.length = count → (f vs).length ≤ count + 2) :
    Stays code room (rearrange fr count f) := by
  refine (popMany_counts h).bind fun taken ht => .pure ⟨ht.2.1, ?_⟩
  have := hf _ ht.1
  have := ht.2.2
  rw [Stack.size_pushMany]
  omega

/-! ### Control -/

theorem jumpIf_stays {wanted : Bool} : Stays code room (jumpIf fr instr wanted) := by
  refine .after fun _ => (pop_stays h).bind fun _ h => .pure ?_
  split <;> exact h.more

theorem switchTable_stays : Stays code room (switchTable fr instr) := by
  unfold switchTable
  split
  · split
    · exact (pop_stays h).bind fun _ h => .pure h.more
    · exact .fail
  · exact .fail

theorem callUnit_stays : Stays code room (callUnit fr instr) := by
  unfold callUnit
  split
  · split
    · exact .pure h.more
    · exact .fail
  · exact .fail

theorem returnUnit_stays : Stays code room (returnUnit fr) := by
  unfold returnUnit
  split
  · exact .pure h.more
  · exact .fail

theorem rethrow_stays : Stays code room (rethrow fr instr) := by
  refine .after fun content => ?_
  dsimp only
  split <;> exact .pure h.more

theorem resumeDispatch_stays : Stays code room (resumeDispatch fr) := by
  unfold resumeDispatch
  split
  · exact .pure h.more
  · split
    · exact .pure h.more
    · exact .fail

theorem suspend_stays : Stays code room (suspend fr instr) := by
  unfold suspend
  split
  · exact (pop_stays h).bind fun _ h => .pure h.more
  · exact .fail

theorem throwAfterResume_stays : Stays code room (throwAfterResume fr) := by
  unfold throwAfterResume
  split <;> exact .pure h.more

theorem returnAfterResume_stays : Stays code room (returnAfterResume fr instr) := by
  refine .after fun _ => ?_
  split
  · next v _ => exact .pure (h.pushed v)
  · exact .pure h.more

theorem jumpIfResumed_stays {test : Resumption → Bool} :
    Stays code room (jumpIfResumed fr instr test) := by
  refine .after fun _ => .pure ?_
  split <;> exact h.more

/-! ### Records and names -/

theorem leaveRecord_stays : Stays code room (leaveRecord fr) := by
  refine .after fun _ => ?_
  split
  · exact .pure h.more
  · exact .fail

theorem restoreRecord_stays : Stays code room (restoreRecord fr instr) := by
  refine .after fun _ => ?_
  split
  · exact .pure h.more
  · exact .fail

theorem enterObject_stays : Stays code room (enterObject fr) :=
  (pop_stays h).bind fun _ h => .after fun _ => .after fun _ => .pure h.more

theorem setName_stays : Stays code room (setName fr instr) := by
  refine .after fun _ => (pop_stays h).bind fun _ h => .after fun _ => ?_
  split
  · exact going_stays h
  · exact .choice .failed (.after fun _ => going_stays h)

theorem checkLexical_stays : Stays code room (checkLexical fr instr) :=
  .after fun _ => .after fun _ => .after fun _ => .choice .failed <| .after fun _ =>
    .choice .failed <| .after fun _ => .choice .failed <| .pure h.more

theorem checkVar_stays : Stays code room (checkVar fr instr) :=
  .after fun _ => .after fun _ => .after fun _ => .choice .failed (.pure h.more)

theorem checkFunction_stays : Stays code room (checkFunction fr instr) :=
  .after fun _ => .after fun _ => .after fun _ => .choice (.pure h.more) .failed

theorem checkDeclarable_stays : Stays code room (checkDeclarable fr instr) :=
  .after fun _ => .after fun _ => .after fun _ => .choice (.pure h.more) .failed

/-! ### Objects -/

theorem pushConstant_stays : Stays code room (pushConstant fr instr) := by
  unfold pushConstant
  split
  · split
    · exact .pure (h.pushed _)
    · exact .pure (h.pushed _)
    · exact .fail
  · exact .fail

theorem makeClosure_stays : Stays code room (makeClosure fr instr) := by
  unfold makeClosure
  split
  · split
    · exact pushing_stays h
    · exact .fail
  · exact .fail

/-- An instruction leaves a frame with the code it had. -/
theorem step_stays : Stays code room (step call fr instr) := by
  obtain ⟨op, operand⟩ := instr
  cases op
  case const => exact pushConstant_stays h
  case popEnv => exact leaveRecord_stays h
  case restoreEnv => exact restoreRecord_stays h
  case pushWithEnv => exact enterObject_stays h
  case setName => exact setName_stays h
  case checkGlobalLexical => exact checkLexical_stays h
  case checkGlobalVar => exact checkVar_stays h
  case checkGlobalFunction => exact checkFunction_stays h
  case checkGlobalVarDeclarable => exact checkDeclarable_stays h
  case callUnit => exact callUnit_stays h
  case returnUnit => exact returnUnit_stays h
  case closure => exact makeClosure_stays h
  case jumpIfTrue | jumpIfFalse => exact jumpIf_stays h
  case switchTable => exact switchTable_stays h
  case rethrow => exact rethrow_stays h
  case resumeDispatch => exact resumeDispatch_stays h
  case suspend => exact suspend_stays h
  case throwAfterResume => exact throwAfterResume_stays h
  case returnAfterResume => exact returnAfterResume_stays h
  case jumpIfResumeThrow | jumpIfResumeReturn => exact jumpIfResumed_stays h
  case createMutableBinding | createImmutableBinding => exact .after fun _ => going_stays h
  case getNameWithThis =>
    exact .after fun _ => .after fun _ => .after fun _ => .after fun _ =>
      .pure ⟨h.1, Nat.add_le_add_right h.2 2⟩
  case call => exact (popCall_stays h).bind fun _ h => pushing_stays h
  case tailCall => exact .after fun _ => .pure trivial
  case construct =>
    exact .after fun _ => (popMany_stays h).bind fun _ h => (pop_stays h).bind fun _ h =>
      pushing_stays h
  case defineComputed =>
    exact (pop_stays h).bind fun _ h => (pop_stays h).bind fun _ h => .after fun _ =>
      going_stays h
  case newArray => exact .after fun _ => (popMany_stays h).bind fun _ h => pushing_stays h
  case throwNewError =>
    dsimp only [step]
    unfold throwNewError
    split <;> exact .fail
  case dup | dup2 | swap | rot3 | rot4 =>
    dsimp only [step]
    refine rearrange_stays h fun vs hl => ?_
    simp [Stack.length_rotateRight, hl]
  case clearStack => exact .pure ⟨h.1, Nat.zero_le _⟩
  -- The others take operands from the stack and push a result.
  all_goals dsimp only [step]
  all_goals first
    | exact unary_stays h
    | exact binary_stays h
    | exact pushing_stays h
    | exact .pure h.more
    | exact .pure (h.pushed _)
    | exact .pure trivial
    | exact .after fun _ => unary_stays h
    | exact .after fun _ => binary_stays h
    | exact .after fun _ => pushing_stays h
    | exact .after fun _ => .after fun _ => going_stays h
    | exact .after fun _ => .pure h.more
    | exact .after fun _ => .pure (h.pushed _)
    | exact .after fun _ => .raise
    | exact (pop_stays h).bind fun _ h => .pure h.more
    | exact (pop_stays h).bind fun _ h => .after fun _ => .pure h.more
    | exact (pop_stays h).bind fun _ h => binary_stays h
    | exact (pop_stays h).bind fun _ h => going_stays h
    | exact .after fun _ => (pop_stays h).bind fun _ h => going_stays h

omit h in
/-- An exception that is caught leaves at most its value on the stack. -/
theorem unwind_stays {thrown handlers} (h : fr.code = code) :
    Gives (Frame.Bounded code 1) (unwind call fr thrown handlers) := by
  induction handlers generalizing fr thrown with
  | nil => exact .raise
  | cons handler rest ih =>
    unfold unwind
    split
    · exact .after fun _ => .pure ⟨h, Nat.le_refl 1⟩
    · exact .choice (.pure ⟨h, Nat.zero_le 1⟩) .failed
    · split
      · exact ih (by exact h)
      · exact .fail
    · exact .after fun _ => ih h

omit h in
theorem handle_stays {pos exception} (h : fr.code = code) :
    Gives (Frame.Bounded code 1) (handle call fr pos exception) := by
  unfold handle
  split
  · exact .raise
  · exact .after fun _ => unwind_stays h

end

theorem attempt_gives {post action} (h : Gives post action) :
    Gives (fun outcome : Except Exception α => ∀ a, outcome = .ok a → post a) (attempt action) := by
  refine ⟨fun {m outcome later} ho => ?_⟩
  rintro a rfl
  unfold attempt at ho
  split at ho <;> cases ho
  exact h.gives ‹_›

/-- An instruction runs only if the stack is within its limit. -/
theorem guardedStep_stays {call fr instr m later effect}
    (h : guardedStep call fr instr m = .ok effect later) :
    effect.Has (Frame.Bounded fr.code (m.limits.stackSize + 2)) := by
  change (if m.limits.stackSize < fr.stack.size then _ else _ : Action Effect) m = _ at h
  split at h
  · cases h
  · next hroom => exact (step_stays ⟨rfl, Nat.le_of_not_lt hroom⟩).gives h

/-- A frame goes on with its code, and with at most two operands more than the limit. -/
theorem advance_within {call fr m later progress} (h : advance call fr m = .ok progress later) :
    progress.Has (Frame.Bounded fr.code (m.limits.stackSize + 2)) := by
  have hcaught {changed : Frame} {exception : Exception} (hc : changed.code = fr.code) :
      Gives (Progress.Has (Frame.Bounded fr.code (m.limits.stackSize + 2)))
        (.next <$> handle call changed fr.position exception) :=
    (handle_stays hc).bind fun _ hw => .pure ⟨hw.1, by have := hw.2; omega⟩
  unfold advance at h
  cases hi : fr.code.instructions[fr.position]? with
  | none =>
    rw [hi] at h
    cases h
    trivial
  | some instr =>
    rw [hi] at h
    let guarded := guardedStep call (fr.jump (fr.position + 1)) instr
    have hs : ∀ {effect middle}, attempt guarded m = .ok (.ok effect) middle →
        effect.Has (Frame.Bounded fr.code (m.limits.stackSize + 2)) := by
      intro effect middle he
      unfold attempt at he
      split at he <;> cases he
      next hg => exact @guardedStep_stays _ (fr.jump (fr.position + 1)) _ _ _ _ hg
    change EStateM.bind (attempt guarded) _ m = _ at h
    unfold EStateM.bind at h
    split at h
    · next outcome middle he =>
      dsimp only at h
      split at h
      · cases h; exact hs he
      · cases h; exact hs he
      · exact (hcaught (hs he).1).gives h
      · exact (@hcaught (fr.jump (fr.position + 1)) _ rfl).gives h
    · cases h

theorem advance_stays {call fr} :
    Gives (Progress.Has fun kept => kept.code = fr.code) (advance call fr) := by
  refine ⟨fun {m progress later} h => ?_⟩
  have hw := advance_within h
  cases progress with
  | next following => exact hw.1
  | exit left => exact hw.imp fun _ => And.left

end Action

end Ecma
