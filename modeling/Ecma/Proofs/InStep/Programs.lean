/-
Programs in step: whole runs and calls, by induction on the fuel of the first machine, and then
programs that run one after the other. An exception inside a unit apart would reach the alarm of
its machine; in step with a machine of another alarm, none does.
-/
import Ecma.Proofs.InStep.Frames

namespace Ecma

open Code (Template Matching InStep HandlersAlike)

/-! ## Runs -/

section

variable {room : Nat} {alarm alarm' : Alarm}

open Relation (TransGen)

/-- Runs that begin with stretches are in step if what follows is. -/
theorem tracks_of_hops {related fr after twin twin' m m' later later' n}
    (hroom : room ≤ m.limits.stackSize) (h : TransGen Hop (fr, m) (after, later))
    (h' : TransGen Hop (twin, m') (twin', later'))
    (ht : ∀ less < n, (alike room).Tracks related (Action.runUnder alarm less after)
      (fun n => Action.runUnder alarm' n twin') later later') :
    (alike room).Tracks related (Action.runUnder alarm n fr)
      (fun n => Action.runUnder alarm' n twin) m m' := by
  unfold Likeness.Tracks at *
  obtain ⟨last, he, hlimits⟩ | ⟨less, hl, he⟩ := runUnder_of_hops h alarm n
  · rw [he]
    exact .exhausted (hlimits.symm ▸ hroom)
  · rw [he]
    have ht := ht less hl
    generalize Action.runUnder alarm less after later = outcome at ht
    cases ht with
    | ok he hm hr => exact .ok (.of_hops h'.to_reflTransGen he) hm hr
    | raised he hm => exact .raised (.of_hops h'.to_reflTransGen he) hm
    | exhausted hroom => exact .exhausted hroom

variable {first second : Template} {points : Points}

theorem isApart_of_point (hmatch : Matching room first second points) {pos pos' shape}
    (h : points pos pos' shape) :
    first.isApart pos = false ∧ second.isApart pos' = false := by
  obtain ⟨h, h'⟩ := hmatch.inside h
  unfold Template.isApart
  simp only [Array.any_eq_false', decide_eq_true_eq, Nat.not_le]
  exact ⟨h, h'⟩

/-- The cases of a switch lead to points for every value. -/
theorem leads_landing {one other otherwise otherwise'}
    (h : List.Forall₂ (fun case case' => case.1 = case'.1 ∧
      points.Leads case.2 case'.2 ⟨0, .any⟩) one other)
    (ho : points.Leads otherwise otherwise' ⟨0, .any⟩) (v : Value) :
    points.Leads (Code.landing one otherwise v) (Code.landing other otherwise' v) ⟨0, .any⟩ := by
  induction h with
  | nil => exact ho
  | cons h _ ih =>
    rw [Code.landing_cons, Code.landing_cons, ← h.1]
    split
    · exact h.2
    · exact ih

/-- A frame that was resumed goes to where it rests, and so does its twin. -/
theorem Reached.of_resting {call more m m'} {fr : Frame} {res target target'}
    (hm : (alike room).Machines m m') (hr : fr.returns = [])
    (ht : fr.code.resume[fr.state]? = some target) (ht' : second.resume[fr.state]? = some target')
    (hp : points.Leads target target' ⟨fr.stack.size, .any⟩) :
    Reached.Follows room second points m m' ((fr.resume res).jump 1) 1
      ⟨.resumeDispatch, none⟩ ⟨.resumeDispatch, none⟩ call more := by
  have hd : ∀ call (fr : Frame) target, fr.resumption = some res →
      fr.code.resume[fr.state]? = some target → ∀ m,
      Action.step call fr ⟨.resumeDispatch, none⟩ m = .ok (.next (fr.jump target)) m := by
    intro call fr target hn ht m
    dsimp only [Action.step, Action.resumeDispatch]
    rw [hn, ht]
    rfl
  exact .of_ok (hd _ ((fr.resume res).jump 1) target rfl ht _)
    (.of_eq fun _ => hd _ (((fr.resume res).jump 1).onto second 1 []) target' rfl ht' _) hm
    (.next (@At.of_leads _ _ _ _ ((fr.resume res).jump target) _ _ rfl hr hp rfl trivial))

theorem Frame.onto_self {fr : Frame} (hr : fr.returns = []) :
    fr.onto fr.code fr.position [] = fr := by
  obtain ⟨⟩ := fr
  simp_all

theorem Code.Declares.ne_nil {share fns count one other}
    (h : Code.Declares share fns count one other) (hne : one ≠ []) : other ≠ [] := by
  cases h with
  | done => exact absurd rfl hne
  | bind | function => exact List.cons_ne_nil _ _

/-- Everything that a machine does with so much fuel, one alike does with fuel enough. -/
structure InStepFor (room : Nat) (alarm alarm' : Alarm) (n : Nat) : Prop where
  run : Runner.Keeps (alike room) (Action.runUnder alarm n) (Action.runUnder alarm')
  activate : Action.Activator.Keeps (alike room) (Action.activateUnder alarm n)
    (Action.activateUnder alarm')
  call : Caller.Keeps (alike room) (Action.callUnder alarm n) (Action.callUnder alarm')

namespace InStepFor

open Ecma.Action

section

variable {n : Nat} (ih : InStepFor room alarm alarm' n) {fr : Frame}
  {m m' : Machine} {pos : Nat} (hmatch : Matching room fr.code second points)
  (hfun : FunctionsInStep room fr.code second)
  (hm : (alike room).Machines m m') (hr : fr.returns = [])

include ih hmatch hfun hm hr

/-- Frames that take an instruction each, and then go on in step. -/
theorem advance {one other} (hi : fr.code.instructions[fr.position]? = some one)
    (hi' : second.instructions[pos]? = some other)
    (hh : HandlersAlike fr.code second points fr.position pos)
    (hin : fr.code.isApart fr.position = false) (hin' : second.isApart pos = false)
    (hs : Reached.Follows room second points m m' (fr.jump (fr.position + 1))
      (pos + 1) one other (callUnder alarm n) (callUnder alarm')) :
    (alike room).Tracks (fun exit exit' _ => Exits (alike room) exit exit')
      (runUnder alarm (n + 1) fr)
      (fun n => runUnder alarm' n (fr.onto second pos [])) m m' := by
  have := ih.call
  refine .of_succ (.bind (advanceUnder_tracks hi hi' hh hin hin' hm hr hs) ?_)
  intro progress progress' later later' hm hp
  cases hp with
  | next ha => exact ih.run.runs hm ⟨_, second, points, hmatch, hfun, .inl ha⟩
  | exit he => exact .pure hm he

end

/-- Frames that are ready run in step. -/
theorem runs {n : Nat} (ih : ∀ less ≤ n, InStepFor room alarm alarm' less) :
    Runner.Keeps (alike room) (runUnder alarm (n + 1)) (runUnder alarm') := by
  refine ⟨?_⟩
  rintro m m' fr twin hm ⟨first, second, points, hmatch, hfun, hat | hrest⟩
  · obtain ⟨hc, hr, hp, hh, hs⟩ := hat
    subst hc
    obtain ⟨hin, hin'⟩ := isApart_of_point hmatch hp
    cases hmatch.aligned hp with
    | step hi hi' ha hhandlers =>
      have := (ih n (Nat.le_refl n)).call
      have hnext : (fr.jump (fr.position + 1)).returns = [] := hr
      exact advance (ih n (Nat.le_refl n)) hmatch hfun hm hr hi hi' hhandlers hin hin'
        (Reached.of_alike hm hnext hmatch hfun rfl hh hs ha)
    | declare hroom he hne hd hst hst' hl =>
      subst he
      have hbefore := hm.room
      obtain ⟨later, later', hm, hg, hg'⟩ :=
        hd.goes (alike room) hmatch.functions hfun hh hroom hm hs
      have hgo := hg.stands hst hne hh
      rw [Frame.onto_self hr] at hgo
      refine tracks_of_hops hbefore hgo (hg'.stands hst' (hd.ne_nil hne) hh) fun less hless => ?_
      exact (ih less (by omega)).run.runs hm ⟨_, second, points, hmatch, hfun, .inl
          (@At.of_leads _ _ _ _ (fr.onto _ _ []) _ _ rfl rfl hl hh trivial)⟩
    | dispatch hroom hroom' he hd hd' hcases ho =>
      have hs := hh.trans he
      have hgo := hd.hops [] hs (Nat.le_trans hroom hm.room)
      rw [Frame.onto_self hr] at hgo
      have hgo' := hd'.hops [] hs (hm.limits ▸ Nat.le_trans hroom' hm.room)
      refine tracks_of_hops hm.room hgo hgo' fun less hless => ?_
      exact (ih less (by omega)).run.runs hm ⟨_, second, points, hmatch, hfun, .inl
          (@At.of_leads _ _ _ _ (fr.onto _ _ []) _ _ rfl rfl (leads_landing hcases ho _) hs
            trivial)⟩
  · obtain ⟨one, other, res, hrest, rfl, rfl⟩ := hrest
    obtain ⟨hc, hr, hk, ht, ht', hp⟩ := hrest
    subst hc
    obtain ⟨hi, hi', hh⟩ := hmatch.begins hk
    obtain ⟨entry, hentry, -⟩ := hmatch.entry
    obtain ⟨hin, hin'⟩ := isApart_of_point hmatch hentry
    exact advance (ih n (Nat.le_refl n)) hmatch hfun hm hr
      hi hi' hh hin hin' (Reached.of_resting hm hr ht ht' hp)

/-- The functions that a tail call enters are alike. -/
inductive Targets (room : Nat) : Option (ObjectRef × Closure) → Option (ObjectRef × Closure) → Prop
  | none : Targets room none none
  | some {ref closure closure'} : (alike room).Closures closure closure' →
    Targets room (some (ref, closure)) (some (ref, closure'))

theorem Targets.of_heaps {realm heap heap'} (h : (alike room).Heaps realm heap heap')
    (callee : Value) : Targets room (tailTarget? heap callee) (tailTarget? heap' callee) := by
  cases callee with
  | object ref =>
    have hp := h.payload ref
    unfold tailTarget?
    dsimp only
    generalize (heap.object ref).payload = payload, (heap'.object ref).payload = payload' at hp
    cases hp with
    | plain hp =>
      cases payload with
      | function _ => cases hp
      | _ => exact .none
    | function hc =>
      dsimp only
      rw [← ((alike room).agrees hc.code).kind]
      split
      · exact .none
      · exact .some hc
    | _ => exact .none
  | _ => exact .none

theorem activates {n} (ih : InStepFor room alarm alarm' n) :
    Activator.Keeps (alike room) (activateUnder alarm (n + 1)) (activateUnder alarm') := by
  refine ⟨fun {m m' fr fr'} hm hr => .of_succ ?_⟩
  refine .bind (ih.run.runs hm hr) fun exit exit' later later' hm he => ?_
  cases he with
  | returned => exact .pure hm rfl
  | suspended => exact .raise hm
  | @tailCall callee _ _ =>
    have hlook : (alike room).Tracks (fun one other _ => Targets room one other)
        (look fun heap => tailTarget? heap callee)
        (fun _ => look fun heap => tailTarget? heap callee) later later' :=
      .of_ok rfl (.of_eq fun _ => rfl) hm (.of_heaps hm.heaps callee)
    refine .bind hlook fun one other later later' hm ht => ?_
    cases ht with
    | none => exact (ih.call.calls _ _ _).tracks hm
    | some hc => exact .bind (newFrame_tracks hc hm) fun _ _ _ _ hm hr => ih.activate.runs hm hr

/-- Whatever the fuel, machines that are alike stay so. -/
theorem always (n : Nat) : InStepFor room alarm alarm' n := by
  induction n using Nat.strongRecOn with
  | ind n ih =>
    cases n with
    | zero =>
      exact ⟨⟨fun hm _ => .stop hm⟩, ⟨fun hm _ => .stop hm⟩, ⟨fun _ _ _ => ⟨fun hm => .stop hm⟩⟩⟩
    | succ n =>
      have last := ih n (Nat.lt_succ_self n)
      have := last.run
      have := last.activate
      have := last.call
      refine ⟨runs fun less hl => ih less (by omega), activates last, ⟨fun _ _ _ => ⟨fun hm => ?_⟩⟩⟩
      exact .of_succ ((callValue_keeps _ _ _).tracks hm)

end InStepFor

end

/-! ## Programs -/

/-- Programs whose codes are in step. -/
structure ScriptsInStep (room : Nat) (one other : Compile.Script) : Prop where
  template : InStep room one.template other.template
  goal : one.goal = other.goal
  imports : one.imports = other.imports
  kind : one.goal = .script → one.template.kind = .script

/-- What becomes of a program under two choices of options. -/
inductive CompiledInStep (room : Nat) :
    Except Compile.Refusal Compile.Script → Except Compile.Refusal Compile.Script → Prop
  | ok {one other} : ScriptsInStep room one other → CompiledInStep room (.ok one) (.ok other)
  | error {refusal} : CompiledInStep room (.error refusal) (.error refusal)

/-- Results that are related, or the same failure. -/
inductive Outcomes {α β : Type} (related : α → β → Machine → Prop) :
    Except Failure α → Except Failure β → Machine → Prop
  | ok {a b m} : related a b m → Outcomes related (.ok a) (.ok b) m
  | error {failure m} : Outcomes related (.error failure) (.error failure) m

namespace Execution

open Ecma.Action (callUnder runUnder Exits)

variable {α β γ δ : Type} {room : Nat} {alarm alarm' : Alarm}

/-- From two machines on, the second execution follows the first. -/
abbrev Tracks (room : Nat) (related : α → β → Machine → Prop) (first : Execution α)
    (second : Nat → Execution β) (m m' : Machine) : Prop :=
  (alike room).Tracks (Outcomes related) first.run (fun n => (second n).run) m m'

section

variable {related : α → β → Machine → Prop} {further : γ → δ → Machine → Prop} {m m' : Machine}

theorem Tracks.bind {first : Execution α} {second : Nat → Execution β} {next : α → Execution γ}
    {next' : Nat → β → Execution δ} (h : Tracks room related first second m m')
    (hn : ∀ a b later later', (alike room).Machines later later' → related a b later →
      Tracks room further (next a) (fun n => next' n b) later later') :
    Tracks room further (first >>= next) (fun n => second n >>= next' n) m m' := by
  refine Likeness.Tracks.bind h fun one other later later' hm ho => ?_
  cases ho with
  | ok hr => exact hn _ _ _ _ hm hr
  | error => exact .pure hm .error

theorem Tracks.pure {a b} (hm : (alike room).Machines m m') (hr : related a b m) :
    Tracks room related (Pure.pure a) (fun _ => Pure.pure b) m m' :=
  Likeness.Tracks.pure hm (.ok hr)

theorem Tracks.throw {failure} (hm : (alike room).Machines m m') :
    Tracks room related (MonadExcept.throw failure) (fun _ => MonadExcept.throw failure) m m' :=
  Likeness.Tracks.pure hm .error

theorem Tracks.lift {first second} (h : (alike room).Tracks related first second m m') :
    Tracks room related (liftM first) (fun n => liftM (second n)) m m' :=
  Likeness.Tracks.bind h fun _ _ _ _ hm hr => .pure hm (.ok hr)

end

instance {like : Likeness} (suppressed : List Value) (v : Value) :
    like.Stills (Action.look fun heap => suppressed ++ Action.recorded heap v) := by
  refine .look _ _ fun {_ first second} hh => congrArg (suppressed ++ ·) ?_
  cases v with
  | object ref =>
    have hp := hh.payload ref
    unfold Action.recorded
    dsimp only
    generalize (first.object ref).payload = payload, (second.object ref).payload = payload' at hp
    cases hp <;> rfl
  | _ => rfl

instance uncaughtUnder_keeps (n : Nat) (exception : Exception) :
    (alike room).Keeps (uncaughtUnder alarm n exception)
      (fun n => uncaughtUnder alarm' n exception) := by
  have : InStepFor room alarm alarm' n := .always n
  have := this.call
  cases exception <;> unfold uncaughtUnder <;> infer_instance

theorem ofActionUnder_tracks {related : α → β → Machine → Prop} {first : Action α}
    {second : Nat → Action β} {m m' : Machine} (n : Nat)
    (h : (alike room).Tracks related first second m m') :
    Tracks room related (ofActionUnder alarm n first)
      (fun n => ofActionUnder alarm' n (second n)) m m' := by
  refine Likeness.Tracks.bind h.attempt fun one other later later' hm ho => ?_
  cases ho with
  | ok hr => exact Likeness.Tracks.pure hm (.ok hr)
  | error =>
    refine Likeness.Tracks.bind ((uncaughtUnder_keeps n _).tracks hm) fun _ _ _ _ hm hf => ?_
    subst hf
    exact Likeness.Tracks.pure hm .error

theorem runFrameUnder_tracks {m m' : Machine} {fr twin : Frame} (n : Nat)
    (hm : (alike room).Machines m m') (hr : Ready room m fr twin) :
    Tracks room (fun a b _ => a = b) (runFrameUnder alarm n fr)
      (fun n => runFrameUnder alarm' n twin) m m' := by
  have always : InStepFor room alarm alarm' n := .always n
  refine .bind (ofActionUnder_tracks n (always.run.runs hm hr)) fun _ _ _ _ hm he => ?_
  cases he with
  | returned => exact .pure hm rfl
  | suspended | tailCall => exact .throw hm

theorem imports_track {m m'} (imports : List String) (hm : (alike room).Machines m m') :
    Tracks room (fun a b _ => a = b) (imports.mapM (importValue []))
      (fun _ => imports.mapM (importValue [])) m m' := by
  cases imports with
  | nil => exact .pure hm rfl
  | cons name rest =>
    simp only [List.mapM_cons]
    exact .throw hm

theorem allocRecord_tracks {m m'} (parent : Option RecordRef) (hm : (alike room).Machines m m') :
    (alike room).Tracks (fun a b later => a = b ∧ later.heap.record a = .declarative parent #[])
      (Action.allocRecord (.declarative parent #[]))
      (fun _ => Action.allocRecord (.declarative parent #[])) m m' := by
  have ha := hm.heaps.allocRecord (.declarative parent #[])
  refine .of_ok rfl (.of_eq fun _ => rfl) (hm.withHeap ha.2) ⟨ha.1, ?_⟩
  exact (Heap.record_allocRecord m.heap _ _).trans (if_pos rfl)

/-- Programs in step do the same. -/
theorem runCompiledUnder_tracks {m m'} {one other : Compile.Script} (n : Nat)
    (h : ScriptsInStep room one other) (hm : (alike room).Machines m m') :
    Tracks room (fun a b _ => a = b) (runCompiledUnder alarm n one)
      (fun n => runCompiledUnder alarm' n other) m m' := by
  cases h.template with
  | intro points hmatch hfun =>
    unfold runCompiledUnder
    rw [← h.goal, ← h.imports]
    cases hg : one.goal with
    | script =>
      refine .bind (.lift (Likeness.Keeps.realm.tracks hm)) fun realm _ later later' hm he => ?_
      subst he
      refine runFrameUnder_tracks n hm ⟨_, _, points, hmatch, hfun, .inl ?_⟩
      rw [start_onto hmatch.agrees]
      refine .entry hmatch rfl rfl rfl rfl ?_
      rw [h.kind hg]
      exact fun _ _ _ _ => ⟨nofun, nofun⟩
    | module =>
      refine .bind (imports_track _ hm) fun imports _ later later' hm he => ?_
      subst he
      refine .bind (.lift (Likeness.Keeps.realm.tracks hm)) fun realm _ later later' hm he => ?_
      subst he
      refine .bind (.lift (allocRecord_tracks (some realm.globalRecord) hm)) ?_
      rintro record _ later later' hm ⟨rfl, hrec⟩
      refine runFrameUnder_tracks n hm ⟨_, _, points, hmatch, hfun, .inl ?_⟩
      rw [start_onto hmatch.agrees]
      exact .entry hmatch rfl rfl rfl rfl (holds_entry rfl hrec)

/-- A program does the same under two choices of options, if its codes are in step. -/
theorem evalUnder_tracks {m m' : Machine} {options options' : Compile.Options}
    {program : Syntax.Program Unit} (n : Nat)
    (h : CompiledInStep room (Compile.compile options program) (Compile.compile options' program))
    (hm : (alike room).Machines m m') :
    Tracks room (fun a b _ => a = b) (evalUnder alarm n options program)
      (fun n => evalUnder alarm' n options' program) m m' := by
  have always : InStepFor room alarm alarm' n := .always n
  have := always.run
  have := always.call
  unfold evalUnder
  generalize Compile.compile options program = one at h ⊢
  generalize Compile.compile options' program = other at h ⊢
  cases h with
  | error => exact .throw hm
  | @ok one other h =>
    have hcode : Tracks room (fun a b _ => a = one ∧ b = other) (pure one) (fun _ => pure other)
        m m' := .pure hm ⟨rfl, rfl⟩
    refine .bind hcode ?_
    rintro _ _ later later' hm ⟨rfl, rfl⟩
    refine .bind (runCompiledUnder_tracks n h hm) fun v _ later later' hm he => ?_
    subst he
    refine .bind (ofActionUnder_tracks n ((Action.runJobs_keeps n 0).tracks hm))
      fun _ _ _ _ hm _ => .pure hm rfl

end Execution

end Ecma
