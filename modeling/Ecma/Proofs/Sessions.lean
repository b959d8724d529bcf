/-
What is done to a machine from outside: programs are run on it, its jobs, and calls of functions.
A law holds between a machine and every one that a session reaches from it.
-/
import Ecma.Proofs.Coroutines
import Ecma.Proofs.NewMachine

namespace Ecma

variable {α β : Type} {law : Law}

/-- Runs the job that waits longest, if there is one. -/
def Action.runNext (n : Nat) : Action Unit := do
  match ← nextJob with
  | none => pure ()
  | some job => runJob (call n) (run n) job

/-- A law that functions and jobs uphold. -/
class Law.Serves (law : Law) : Prop extends law.Complete where
  runNext : ∀ n, Upholds law (Action.runNext n)

instance [law.TakesJobs] [law.Complete] : law.Serves where
  runNext n := by
    unfold Action.runNext
    refine .next fun job => ?_
    split <;> infer_instance

/-! ## Programs -/

/-- An execution that upholds a law. -/
class Execution.Upholds (law : Law) (execution : Execution α) : Prop where
  action : Ecma.Upholds law execution.run

namespace Execution

section

variable {x : Execution α} {k : α → Execution β}

instance bind_upholds [hx : Upholds law x] [hk : ∀ a, Upholds law (k a)] : Upholds law (x >>= k) := by
  refine ⟨@Ecma.Upholds.bind _ _ _ x.run _ hx.action fun outcome => ?_⟩
  cases outcome with
  | ok a => exact (hk a).action
  | error failure => exact .pure _

end

instance pure_upholds (a : α) : Upholds law (pure a : Execution α) := ⟨.pure _⟩

instance {failure} : Upholds law (throw failure : Execution α) := ⟨.pure _⟩

instance {action} [h : Ecma.Upholds law action] : Upholds law (liftM action : Execution α) :=
  ⟨@Ecma.Upholds.bind _ _ _ action _ h fun _ => .pure _⟩

instance {p : Prop} [Decidable p] {x y : Execution α} [Upholds law x]
    [Upholds law y] : Upholds law (if p then x else y) := by
  split <;> infer_instance

instance {f : α → Execution β} [h : ∀ a, Upholds law (f a)] {items : List α} :
    Upholds law (items.mapM f) := by
  induction items with
  | nil => exact pure_upholds _
  | cons item rest ih =>
    rw [List.mapM_cons]
    infer_instance

variable [law.Complete] (n : Nat)

instance display_upholds (v : Value) : Ecma.Upholds law (display n v) := Action.display_upholds v

instance {exception} : Ecma.Upholds law (uncaught n exception) := by
  unfold uncaught
  split <;> infer_instance

theorem ofAction_upholds {action : Action α} (h : Ecma.Upholds law action) :
    Upholds law (ofAction n action) := by
  refine ⟨@Ecma.Upholds.bind _ _ _ (Action.attempt action) _ inferInstance fun outcome => ?_⟩
  split <;> infer_instance

theorem runFrame_upholds {fr : Frame} (h : law.standard.frame fr) :
    Upholds law (runFrame n fr) := by
  unfold runFrame
  have := ofAction_upholds n (Action.run_upholds n h)
  refine @bind_upholds _ _ _ _ _ inferInstance fun exit => ?_
  split <;> infer_instance

instance {imports name} : Upholds law (importValue imports name) := by
  unfold importValue
  split <;> infer_instance

variable {script : Compile.Script} (h : law.standard.code script.template)

include h

theorem runScriptCode_upholds : Upholds law (runScriptCode n script.template) := by
  have := fun record recv => runFrame_upholds n (law.standard.start record recv none [] #[] h)
  unfold runScriptCode
  refine @bind_upholds _ _ _ _ _ inferInstance fun realm => ?_
  exact this realm.globalRecord (.object realm.globalObject)

theorem runModule_upholds (imports : List (String × Value)) :
    Upholds law (runModule n script imports) := by
  have : ∀ vs, Upholds law (runModuleCode n script.template vs) := by
    intro vs
    have := fun record => runFrame_upholds n
      (law.standard.start record .undefined none [] vs.toArray h)
    unfold runModuleCode
    infer_instance
  unfold runModule
  infer_instance

theorem runCompiled_upholds : Upholds law (runCompiled n script) := by
  unfold runCompiled
  split
  · exact runScriptCode_upholds n h
  · exact runModule_upholds n h []

omit h

instance call_upholds (callee : Value) (args : List Value) : Upholds law (call n callee args) :=
  ofAction_upholds n (Action.call_upholds n callee .undefined args)

end Execution

/-! ## Sessions -/

/-- A machine reaches another one by programs, jobs and calls one after the other, whether they
fail or not. -/
inductive Machine.Reaches (first : Machine) : Machine → Prop
  | refl : Reaches first first
  | program {m later : Machine} {n : Nat} {options : Compile.Options}
    {program : Syntax.Program Unit} {script : Compile.Script} : Reaches first m →
    Compile.compile options program = .ok script →
    (Execution.runCompiled n script).run.reached? m = some later → Reaches first later
  | module {m later : Machine} {n : Nat} {options : Compile.Options}
    {program : Syntax.Program Unit} {script : Compile.Script} {imports : List (String × Value)} :
    Reaches first m → Compile.compile options program = .ok script →
    (Execution.runModule n script imports).run.reached? m = some later →
    Reaches first later
  | job {m later : Machine} {n : Nat} : Reaches first m →
    (Action.runNext n).reached? m = some later → Reaches first later
  | call {m later : Machine} {n : Nat} {callee : Value} {args : List Value} :
    Reaches first m →
    (Execution.call n callee args).run.reached? m = some later →
    Reaches first later

/-- A law holds along every session. -/
theorem Machine.Reaches.follows (law : Law) [hl : law.Serves] {first m} (h : first.Reaches m)
    (hm : first.Meets law.standard) : law.Follows first m := by
  induction h with
  | refl => exact .refl hm
  | program _ hc he ih =>
    exact ih.trans ((Execution.runCompiled_upholds _ (law.standard.compiles hc)).action.upholds
      ih.meets he)
  | module _ hc he ih =>
    exact ih.trans ((Execution.runModule_upholds _ (law.standard.compiles hc) _).action.upholds
      ih.meets he)
  | job _ he ih => exact ih.trans ((hl.runNext _).upholds ih.meets he)
  | call _ he ih =>
    exact ih.trans ((Execution.call_upholds _ _ _).action.upholds ih.meets he)

/-- The machine on which nothing ran yet meets every standard. -/
theorem Machine.new_meets (limits : Limits) (standard : Standard) :
    (Machine.new limits).Meets standard := by
  have hc := Machine.new_common limits
  generalize Machine.new limits = m at hc ⊢
  exact ⟨fun ref => Standard.admits_of_isCommon (hc ref)⟩

theorem Machine.Reaches.follows_new (law : Law) [law.Serves] {limits m}
    (h : (Machine.new limits).Reaches m) : law.Follows (.new limits) m :=
  h.follows law (Machine.new_meets limits law.standard)

end Ecma
