/-
Programs under two choices of options. Whether a switch goes by a table or by tests, and whether
a block declares its names in place or in a unit apart, no program can tell: programs that run one
after the other end with the same results, print the same and leave the same jobs.
-/
import Ecma.Proofs.Options.SwitchTargets
import Ecma.Proofs.NewMachine

namespace Ecma

open Syntax (Program)

/-! ## What can be seen of a run -/

/-- What can be seen of an action: its result or exception, what is printed, and the jobs that
wait. -/
structure Observation (α : Type) where
  result : Except Exception α
  output : Array String
  jobs : List Job

/-- What an action that ended on a machine gave. -/
def Observation.ofOutcome? {α : Type} : EStateM.Result Stop Machine α → Option (Observation α)
  | .ok a m => some ⟨.ok a, m.output, m.jobs⟩
  | .error (.raised exception) m => some ⟨.error exception, m.output, m.jobs⟩
  | .error .exhausted _ => none

/-- With some amount of fuel an action ends as observed. -/
def Observed {α : Type} (action : Nat → Action α) (m : Machine)
    (observation : Observation α) : Prop :=
  ∃ n, Observation.ofOutcome? (action n m) = some observation

theorem Likeness.Tracks.observed {α : Type} {like : Likeness} {first second : Nat → Action α}
    {m m' : Machine} (h : ∀ n, like.Tracks (fun a b _ => a = b) (first n) second m m')
    {observation : Observation α} (ho : Observed first m observation) :
    Observed second m' observation := by
  obtain ⟨n, ho⟩ := ho
  have h := h n
  unfold Likeness.Tracks at h
  generalize first n m = outcome at h ho
  cases h with
  | exhausted => cases ho
  | ok he hm hr =>
    obtain ⟨least, he⟩ := he
    cases ho
    cases hr
    refine ⟨least, ?_⟩
    rw [he least .refl, Observation.ofOutcome?, hm.output, hm.jobs]
  | raised he hm =>
    obtain ⟨least, he⟩ := he
    cases ho
    refine ⟨least, ?_⟩
    rw [he least .refl, Observation.ofOutcome?, hm.output, hm.jobs]

/-! ## Programs in a row -/

namespace Execution

/-- Evaluates programs one after the other, whether they fail or not. An alarm takes the
exceptions that come up inside units apart. -/
def evalAllUnder (alarm : Alarm) (n : Nat) (options : Compile.Options)
    (programs : List (Program Unit)) : Action (List (Except Failure Value)) :=
  programs.mapM fun program => (evalUnder alarm n options program).run

/-- Evaluates programs one after the other, whether they fail or not. -/
def evalAll (n : Nat) (options : Compile.Options) (programs : List (Program Unit)) :
    Action (List (Except Failure Value)) :=
  programs.mapM fun program => (eval n options program).run

theorem evalAllUnder_handle (n : Nat) (options : Compile.Options) (programs : List (Program Unit)) :
    evalAllUnder Action.handle n options programs = evalAll n options programs := by
  simp only [evalAllUnder, evalAll, evalUnder_handle]

theorem evalAllUnder_tracks {room : Nat} {alarm alarm' : Alarm} {options options' : Compile.Options}
    (h : ∀ program : Program Unit,
      CompiledInStep room (Compile.compile options program) (Compile.compile options' program))
    (n : Nat) (programs : List (Program Unit)) {m m' : Machine} (hm : (alike room).Machines m m') :
    (alike room).Tracks (fun a b _ => a = b) (evalAllUnder alarm n options programs)
      (fun n => evalAllUnder alarm' n options' programs) m m' := by
  induction programs generalizing m m' with
  | nil => exact .pure hm rfl
  | cons program rest ih =>
    simp only [evalAllUnder, List.mapM_cons]
    refine .bind (evalUnder_tracks n (h program) hm) fun one other later later' hm ho => ?_
    have hsame : one = other := by
      cases ho with
      | ok he => rw [he]
      | error => rfl
    subst hsame
    refine .bind (ih hm) fun results _ later later' hm he => ?_
    subst he
    exact .pure hm rfl

/-- Under two choices of options that keep tail calls, programs cannot be told apart. -/
theorem evalAll_observed {limits : Limits} {options options' : Compile.Options}
    (ht : options.tailCalls = options'.tailCalls) (hd : 1 ≤ limits.stackSize)
    (hs : options.switchMinCases = options'.switchMinCases ∨ 2 ≤ limits.stackSize)
    (programs : List (Program Unit)) (observation : Observation (List (Except Failure Value))) :
    Observed (fun n => evalAll n options programs) (.new limits) observation ↔
      Observed (fun n => evalAll n options' programs) (.new limits) observation := by
  have hm := Likeness.Machines.new (alike limits.stackSize) (Nat.le_refl limits.stackSize)
  simp only [← evalAllUnder_handle]
  have there := fun n => @evalAllUnder_tracks _ Action.handle Action.handle _ _
    (fun program => Compile.compile_inStep program ht hd hs) n programs _ _ hm
  have back := fun n => @evalAllUnder_tracks _ Action.handle Action.handle _ _
    (fun program => Compile.compile_inStep program ht.symm hd (hs.imp_left Eq.symm)) n programs _ _
    hm
  exact ⟨Likeness.Tracks.observed there, Likeness.Tracks.observed back⟩

/-- The alarm that gives up at once and marks the machine by leaving its frames no room. -/
def giveUp : Alarm := fun _ _ _ _ m =>
  .error .exhausted { m with limits := { m.limits with stackSize := 0 } }

/-- However long programs run, they never give the alarm cause. -/
theorem evalAllUnder_unmarked {limits} (hd : 1 ≤ limits.stackSize) (options : Compile.Options)
    (programs : List (Program Unit)) (n : Nat) {later}
    (h : evalAllUnder giveUp n options programs (.new limits) = .error .exhausted later) :
    0 < later.limits.stackSize := by
  have hm := Likeness.Machines.new (alike limits.stackSize) (Nat.le_refl limits.stackSize)
  have ht := @evalAllUnder_tracks _ giveUp giveUp options options
    (fun program => Compile.compile_inStep program rfl hd (.inl rfl)) n programs _ _ hm
  unfold Likeness.Tracks at ht
  rw [h] at ht
  cases ht with
  | exhausted hroom => exact Nat.lt_of_lt_of_le hd hroom

/-- How many names a block declares in place makes no difference. No exception comes up inside a
unit apart, however long the programs run: it would reach the alarm. -/
theorem block_units_transparent {limits : Limits} (hd : 1 ≤ limits.stackSize)
    (options : Compile.Options) (limit limit' : Nat) (programs : List (Program Unit)) :
    (∀ observation : Observation (List (Except Failure Value)),
      Observed (fun fuel => evalAll fuel { options with blockInlineLimit := limit } programs)
          (.new limits) observation ↔
        Observed (fun fuel => evalAll fuel { options with blockInlineLimit := limit' } programs)
          (.new limits) observation) ∧
    ∀ fuel later, evalAllUnder giveUp fuel { options with blockInlineLimit := limit } programs
      (.new limits) = .error .exhausted later → 0 < later.limits.stackSize := by
  refine ⟨fun observation => evalAll_observed ?_ hd (.inl ?_) programs observation,
    fun fuel later h => evalAllUnder_unmarked hd _ programs fuel h⟩ <;> rfl

/-- A protected block that declares three names and raises. -/
def guardedBlock : Program Unit where
  goal := .script
  imports := []
  body := [.tryBlock
    ⟨(), [.declare ⟨.let_, [⟨"x", some (.literal (.string "raised"))⟩]⟩,
      .declare ⟨.const, [⟨"y", some (.identifier "x")⟩]⟩,
      .function ⟨(), some "f", [], .block [.throwValue (.identifier "y")], false, false⟩,
      .expression (.call (.identifier "f") [])]⟩
    (some ⟨(), some "e", ⟨(), [.expression (.call (.identifier "print") [.identifier "e"])]⟩⟩)
    none]

/-- The block declares its names in a unit apart where only two may stand in place. -/
theorem block_units_transparent_guardedBlock : 1 ≤ ({} : Limits).stackSize ∧
    ((Compile.compile { blockInlineLimit := 2 } guardedBlock).toOption.any
      fun script => !script.template.units.isEmpty) = true ∧
    (∃ observation : Observation (List (Except Failure Value)), observation.output = #["raised"] ∧
      Observed (fun fuel => evalAll fuel { blockInlineLimit := 2 } [guardedBlock]) (.new {})
        observation ∧
      Observed (fun fuel => evalAll fuel { blockInlineLimit := 32 } [guardedBlock]) (.new {})
        observation) ∧
    ∀ fuel later, evalAllUnder giveUp fuel { blockInlineLimit := 2 } [guardedBlock] (.new {}) =
      .error .exhausted later → 0 < later.limits.stackSize := by
  obtain ⟨hsame, hunmarked⟩ :=
    block_units_transparent (by decide : 1 ≤ ({} : Limits).stackSize) {} 2 32 [guardedBlock]
  have hends : (Observation.ofOutcome? (evalAll 60 { blockInlineLimit := 2 } [guardedBlock]
      (.new {}))).any (fun observation => observation.output = #["raised"]) = true := by
    decide +kernel
  obtain ⟨observation, ho, hout⟩ := (Option.any_eq_true _ _).mp hends
  exact ⟨by decide, by decide +kernel,
    ⟨observation, of_decide_eq_true hout, ⟨60, ho⟩, (hsame observation).mp ⟨60, ho⟩⟩, hunmarked⟩

/-! ## Switches -/

open Code (SwitchKey Label)
open Compile (Context Emitter switchKeys? tableDispatch otherwiseOf clauses switchTarget int32?
  Placed placedAt)
open Syntax (Case)

theorem switchTable_step {fr : Frame} {index : Nat} {table : Code.SwitchTable}
    (h : fr.code.tables[index]? = some table) (v : Value) (m : Machine) :
    Action.switchTable (fr.push v) ⟨.switchTable, some (.table index)⟩ m =
      .ok (.next (fr.jump (table.target v))) m := by
  dsimp only [Action.switchTable, Frame.push]
  rw [h]
  cases v <;> rfl

/-- From how many cases on a switch goes by a table makes no difference. The table leads every
value to the first clause whose literal is strictly equal, else to the default clause wherever it
stands, else behind the switch; the zeros are the same to it, and a number that is no integer of 32
bits has no clause. -/
theorem switch_tables_transparent {limits : Limits} (hd : 2 ≤ limits.stackSize)
    (options : Compile.Options) (least least' : Nat) (programs : List (Program Unit))
    {cases : List (Case (Option ScopeId))} {keys : List (SwitchKey × Nat)}
    (hk : switchKeys? cases = some keys) {entries : List Label}
    (hl : entries.length = cases.length) (finish : Label) (register : Nat) (context : Context)
    (emitter : Emitter) :
    (∀ observation : Observation (List (Except Failure Value)),
      Observed (fun fuel => evalAll fuel { options with switchMinCases := least } programs)
          (.new limits) observation ↔
        Observed (fun fuel => evalAll fuel { options with switchMinCases := least' } programs)
          (.new limits) observation) ∧
    (∃ table after, tableDispatch register keys entries
        (otherwiseOf (clauses cases) entries finish) context emitter = .ok ((), after) ∧
      after.draft.tables = emitter.draft.tables.push table ∧
      after.draft.instructions = (emitter.draft.instructions.push
        ⟨.loadReg, some (.register register)⟩).push
        ⟨.switchTable, some (.table emitter.draft.tables.size)⟩ ∧
      ∀ draft, (∀ label ∈ finish :: entries, Placed draft label) →
        ∃ linked, draft.linkTable table = .ok linked ∧
          ∀ (frame : Frame) (index : Nat), frame.code.tables[index]? = some linked →
            ∀ value machine,
              Action.switchTable (frame.push value) ⟨.switchTable, some (.table index)⟩ machine =
                .ok (.next (frame.jump
                  (placedAt draft (switchTarget cases entries finish value)))) machine) ∧
    switchTarget cases entries finish (.number (-0.0)) =
      switchTarget cases entries finish (.number 0.0) ∧
    ∀ x, int32? x = none → switchTarget cases entries finish (.number x) =
      otherwiseOf (clauses cases) entries finish := by
  have htests := (Compile.switchKeys?_ok hk).1
  refine ⟨fun observation => ?_, ?_, ?_, fun x hx => ?_⟩
  · refine evalAll_observed ?_ (by omega) (.inr hd) programs observation
    rfl
  · obtain ⟨table, after, hmade, htables, hinstructions, hlands⟩ :=
      Compile.tableDispatch_lands hk hl finish register context emitter
    refine ⟨table, after, hmade, htables, hinstructions, fun draft hp => ?_⟩
    obtain ⟨linked, hlinked, htarget⟩ := hlands draft hp
    refine ⟨linked, hlinked, fun frame index hi value machine => ?_⟩
    rw [switchTable_step hi, htarget]
  · exact Compile.switchTarget_congr htests entries finish (by decide +kernel)
  · rw [Compile.switchTarget_of_none htests entries finish hx, Compile.otherwiseOf_clauses]

/-- The clauses of a switch with a default clause in front of its only case. -/
def defaultFirst {σ : Type} : List (Case σ) :=
  [⟨none, [.expression (.call (.identifier "print") [.literal (.string "default")]),
      .breakTo none]⟩,
    ⟨some (.literal (.number 1)),
      [.expression (.call (.identifier "print") [.literal (.string "one")])]⟩]

/-- A function that goes by these clauses, for the number of the case and for half of it. -/
def dispatching : Program Unit where
  goal := .script
  imports := []
  body := [.function ⟨(), some "f", ["x"], .block [.switchOn () (.identifier "x") defaultFirst],
      false, false⟩,
    .expression (.call (.identifier "f") [.literal (.number 1)]),
    .expression (.call (.identifier "f") [.literal (.number 0.5)])]

/-- The switch goes by a table where one case is enough for it. -/
theorem switch_tables_transparent_dispatching : 2 ≤ ({} : Limits).stackSize ∧
    switchKeys? (σ := Option ScopeId) defaultFirst = some [(.number 1, 1)] ∧
    (∃ observation : Observation (List (Except Failure Value)),
      observation.output = #["one", "default"] ∧
      Observed (fun fuel => evalAll fuel { switchMinCases := 1 } [dispatching]) (.new {})
        observation ∧
      Observed (fun fuel => evalAll fuel { switchMinCases := 2 } [dispatching]) (.new {})
        observation) ∧
    ∀ x, int32? x = none →
      switchTarget (σ := Option ScopeId) defaultFirst [0, 1] 2 (.number x) = 0 := by
  have hk : switchKeys? (σ := Option ScopeId) defaultFirst = some [(.number 1, 1)] := by
    decide +kernel
  obtain ⟨hsame, -, -, hother⟩ := switch_tables_transparent
    (by decide : 2 ≤ ({} : Limits).stackSize) {} 1 2 [dispatching] hk
    (rfl : [0, 1].length = 2) 2 0 ⟨#[], {}, .script, false, 0, 0, 0, none⟩ {}
  have hends : (Observation.ofOutcome? (evalAll 60 { switchMinCases := 1 } [dispatching]
      (.new {}))).any (fun observation => observation.output = #["one", "default"]) = true := by
    decide +kernel
  obtain ⟨observation, ho, hout⟩ := (Option.any_eq_true _ _).mp hends
  exact ⟨by decide, hk,
    ⟨observation, of_decide_eq_true hout, ⟨60, ho⟩, (hsame observation).mp ⟨60, ho⟩⟩, hother⟩

end Execution

end Ecma
