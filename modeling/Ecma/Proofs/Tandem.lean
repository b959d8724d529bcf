/-
Actions in tandem: on machines that are alike, the second action, given fuel enough, does what
the first one does, unless that runs out of fuel. What calls functions or runs frames does so if
the calls and the runs it is given do.
-/
import Ecma.Proofs.Likeness

namespace Ecma

namespace Action

theorem bind_apply {α β : Type} (x : Action α) (f : α → Action β) (m : Machine) : (x >>= f) m =
      match x m with
      | .ok a m => f a m
      | .error stop m => .error stop m := by
  change EStateM.bind x f m = _
  unfold EStateM.bind
  cases x m <;> rfl

theorem nextJob_of_nil {m} (h : m.jobs = []) : nextJob m = .ok none m := by
  change EStateM.Result.ok _ _ = _
  rw [h]

theorem nextJob_of_cons {m job jobs} (h : m.jobs = job :: jobs)
    : nextJob m = .ok (some job) { m with jobs } := by
  change EStateM.Result.ok _ _ = _
  rw [h]

end Action

namespace Likeness

variable (like : Likeness)

/-- Machines that are alike. -/
structure Machines (first second : Machine) : Prop where
  heaps : like.Heaps first.realm first.heap second.heap
  realm : first.realm = second.realm
  limits : first.limits = second.limits
  depth : first.depth = second.depth
  jobs : first.jobs = second.jobs
  output : first.output = second.output
  room : like.room ≤ first.limits.stackSize

end Likeness

variable {α β γ δ : Type}

/-- The outcome of an action with enough fuel. -/
def Ends (action : Nat → Action α) (m : Machine)
    (outcome : EStateM.Result Stop Machine α) : Prop :=
  ∃ least, ∀ n, least ≤ n → action n m = outcome

namespace Ends

theorem of_eq {action : Nat → Action α} {m : Machine}
    {outcome : EStateM.Result Stop Machine α} (h : ∀ n, action n m = outcome) :
    Ends action m outcome :=
  ⟨0, fun n _ => h n⟩

theorem bind {x : Nat → Action α} {k : Nat → α → Action β} {m later : Machine} {a : α}
    {outcome : EStateM.Result Stop Machine β} (hx : Ends x m (.ok a later))
    (hk : Ends (fun n => k n a) later outcome) : Ends (fun n => x n >>= k n) m outcome := by
  obtain ⟨least, hx⟩ := hx
  obtain ⟨least', hk⟩ := hk
  refine ⟨max least least', fun n hf => ?_⟩
  change EStateM.bind (x n) (k n) m = outcome
  unfold EStateM.bind
  rw [hx n (by omega)]
  exact hk n (by omega)

theorem bind_error {x : Nat → Action α} {k : Nat → α → Action β} {m later : Machine}
    {stop : Stop} (hx : Ends x m (.error stop later)) :
    Ends (fun n => x n >>= k n) m (.error stop later) := by
  obtain ⟨least, hx⟩ := hx
  refine ⟨least, fun n hf => ?_⟩
  change EStateM.bind (x n) (k n) m = _
  unfold EStateM.bind
  rw [hx n hf]

/-- What ends with one unit of fuel more ends. -/
theorem of_succ {action : Nat → Action α} {m : Machine} {outcome : EStateM.Result Stop Machine α}
    (h : Ends (fun n => action (n + 1)) m outcome) : Ends action m outcome := by
  obtain ⟨least, h⟩ := h
  refine ⟨least + 1, fun n hf => ?_⟩
  obtain ⟨n, rfl⟩ : ∃ more, n = more + 1 := ⟨n - 1, by omega⟩
  exact h n (by omega)

theorem succ {action : Nat → Action α} {m : Machine}
    {outcome : EStateM.Result Stop Machine α} (h : Ends action m outcome) :
    Ends (fun n => action (n + 1)) m outcome := by
  obtain ⟨least, h⟩ := h
  exact ⟨least, fun n hf => h (n + 1) (by omega)⟩

end Ends

namespace Likeness

variable (like : Likeness)

/-- An action follows an outcome of another: it ends on a machine as the other did, unless that
ran out of fuel, with the room there was. -/
inductive Follows (related : α → β → Machine → Prop) (second : Nat → Action β)
    (m' : Machine) : EStateM.Result Stop Machine α → Prop
  | ok {a b later later'} : Ends second m' (.ok b later') → like.Machines later later' →
    related a b later → Follows related second m' (.ok a later)
  | raised {exception later later'} : Ends second m' (.error (.raised exception) later') →
    like.Machines later later' → Follows related second m' (.error (.raised exception) later)
  | exhausted {later : Machine} : like.room ≤ later.limits.stackSize →
    Follows related second m' (.error .exhausted later)

/-- From two machines on, the second action follows the first, and what they give is related. -/
def Tracks (related : α → β → Machine → Prop) (first : Action α) (second : Nat → Action β)
    (m m' : Machine) : Prop :=
  like.Follows related second m' (first m)

/-- On machines that are alike, the second action follows the first one with the same results. -/
class Keeps (first : Action α) (second : Nat → Action α) : Prop where
  tracks : ∀ {m m'}, like.Machines m m' →
    like.Tracks (fun a b _ => a = b) first second m m'

/-- An action that does the same on machines that are alike. -/
abbrev Stills (action : Action α) : Prop := like.Keeps action fun _ => action

variable {like}

namespace Tracks

variable {related : α → β → Machine → Prop} {further : γ → δ → Machine → Prop}
  {first : Action α} {second : Nat → Action β} {m m' : Machine}

theorem of_ok {a b later later'} (he : first m = .ok a later) (he' : Ends second m' (.ok b later'))
    (hm : like.Machines later later') (hr : related a b later)
    : like.Tracks related first second m m' := by
  unfold Tracks
  rw [he]
  exact .ok he' hm hr

theorem mono {related'} (h : like.Tracks related first second m m')
    (hr : ∀ a b later, related a b later → related' a b later) :
    like.Tracks related' first second m m' := by
  unfold Tracks at *
  generalize first m = outcome at h
  cases h with
  | ok he hm h => exact .ok he hm (hr _ _ _ h)
  | raised he hm => exact .raised he hm
  | exhausted hroom => exact .exhausted hroom

theorem bind {next : α → Action γ} {next' : Nat → β → Action δ}
    (h : like.Tracks related first second m m')
    (hn : ∀ a b later later', like.Machines later later' → related a b later →
      like.Tracks further (next a) (fun n => next' n b) later later') :
    like.Tracks further (first >>= next) (fun n => second n >>= next' n) m m' := by
  unfold Tracks at *
  rw [Action.bind_apply]
  generalize first m = outcome at h
  cases h with
  | ok he hm hr =>
    have hn := hn _ _ _ _ hm hr
    dsimp only at hn ⊢
    generalize next _ _ = outcome at hn
    cases hn with
    | ok he' hm hr => exact .ok (he.bind he') hm hr
    | raised he' hm => exact .raised (he.bind he') hm
    | exhausted hroom => exact .exhausted hroom
  | raised he hm => exact .raised he.bind_error hm
  | exhausted hroom => exact .exhausted hroom

/-- An action goes on with what another one gave on both machines. -/
theorem on {first : Action α} {second : Nat → Action α} {next : α → Action γ}
    {next' : Nat → α → Action δ} (h : like.Tracks (fun a b _ => a = b) first second m m')
    (hn : ∀ {later later'} a, like.Machines later later' →
      like.Tracks further (next a) (fun n => next' n a) later later') :
    like.Tracks further (first >>= next) (fun n => second n >>= next' n) m m' := by
  refine h.bind fun a b later later' hm he => ?_
  subst he
  exact hn a hm

theorem kept {first : Action α} {second : Nat → Action α} {next : α → Action γ}
    {next' : Nat → α → Action δ} [h : like.Keeps first second] (hm : like.Machines m m')
    (hn : ∀ {later later'} a, like.Machines later later' →
      like.Tracks further (next a) (fun n => next' n a) later later') :
    like.Tracks further (first >>= next) (fun n => second n >>= next' n) m m' :=
  on (h.tracks hm) hn

theorem with_first {known : α → Machine → Prop} (h : like.Tracks related first second m m')
    (hk : ∀ a later, first m = .ok a later → known a later) :
    like.Tracks (fun a b later => related a b later ∧ known a later) first second m m' := by
  unfold Tracks at *
  generalize first m = outcome at h hk
  cases h with
  | ok he hm h => exact .ok he hm ⟨h, hk _ _ rfl⟩
  | raised he hm => exact .raised he hm
  | exhausted hroom => exact .exhausted hroom

theorem of_succ (h : like.Tracks related first (fun n => second (n + 1)) m m') :
    like.Tracks related first second m m' := by
  unfold Tracks at *
  generalize first m = outcome at h
  cases h with
  | ok he hm hr => exact .ok he.of_succ hm hr
  | raised he hm => exact .raised he.of_succ hm
  | exhausted hroom => exact .exhausted hroom

theorem succ (h : like.Tracks related first second m m') :
    like.Tracks related first (fun n => second (n + 1)) m m' := by
  unfold Tracks at *
  generalize first m = outcome at h
  cases h with
  | ok he hm hr => exact .ok he.succ hm hr
  | raised he hm => exact .raised he.succ hm
  | exhausted hroom => exact .exhausted hroom

theorem pure {a : α} {b : β} (hm : like.Machines m m') (hr : related a b m) :
    like.Tracks related (pure a) (fun _ => pure b) m m' :=
  .ok (.of_eq fun _ => rfl) hm hr

theorem raise {exception : Exception} (hm : like.Machines m m') :
    like.Tracks related (Action.raise exception) (fun _ => Action.raise exception) m m' :=
  .raised (.of_eq fun _ => rfl) hm

theorem stop (hm : like.Machines m m') : like.Tracks related (throw .exhausted) second m m' :=
  Follows.exhausted hm.room

end Tracks

end Likeness

namespace Action

theorem attempt_of_ok {x : Action α} {a : α} {m later : Machine}
    (h : x m = .ok a later) : attempt x m = .ok (.ok a) later := by
  unfold attempt
  rw [h]

theorem attempt_of_raised {x : Action α} {exception : Exception} {m later : Machine}
    (h : x m = .error (.raised exception) later) : attempt x m = .ok (.error exception) later := by
  unfold attempt
  rw [h]

theorem update_of_ok {u : Heap.Update α} {m : Machine} {v : α} {heap : Heap}
    (h : u m.heap = .ok v heap) : update u m = .ok v { m with heap } := by
  obtain ⟨_, _, _, _, _, _⟩ := m
  dsimp only at h
  simp only [update, h]

theorem update_of_error {u : Heap.Update α} {m : Machine} {cause : Cause} {heap : Heap}
    (h : u m.heap = .error cause heap) :
    update u m = .error (.raised (.failed cause)) { m with heap } := by
  obtain ⟨_, _, _, _, _, _⟩ := m
  dsimp only at h
  simp only [update, h]

theorem nested_of_ok {x : Action α} {m later : Machine} {a : α}
    (hd : m.depth < m.limits.callDepth) (h : x (enter m) = .ok a later) :
    nested x m = .ok a (leave later) := by
  unfold nested
  rw [if_neg (by omega), h]

theorem nested_of_error {x : Action α} {m later : Machine} {stop : Stop}
    (hd : m.depth < m.limits.callDepth) (h : x (enter m) = .error stop later) :
    nested x m = .error stop (leave later) := by
  unfold nested
  rw [if_neg (by omega), h]

theorem nested_of_full {x : Action α} {m : Machine} (h : m.limits.callDepth ≤ m.depth) :
    nested x m = .error (.raised .tooDeep) m := by
  unfold nested
  rw [if_pos h]

end Action

namespace Likeness

variable {like : Likeness}

/-- Outcomes that are related as values, or the same exception. -/
inductive Attempts (related : α → β → Machine → Prop) :
    Except Exception α → Except Exception β → Machine → Prop
  | ok {a b later} : related a b later → Attempts related (.ok a) (.ok b) later
  | error {exception later} : Attempts related (.error exception) (.error exception) later

namespace Machines

variable {m m' : Machine} (h : like.Machines m m')

include h

theorem enter : like.Machines (Action.enter m) (Action.enter m') :=
  ⟨h.heaps, h.realm, h.limits, congrArg (· + 1) h.depth, h.jobs, h.output, h.room⟩

theorem leave : like.Machines (Action.leave m) (Action.leave m') :=
  ⟨h.heaps, h.realm, h.limits, congrArg (· - 1) h.depth, h.jobs, h.output, h.room⟩

theorem withHeap {heap heap' : Heap} (hh : like.Heaps m.realm heap heap') :
    like.Machines { m with heap } { m' with heap := heap' } :=
  ⟨hh, h.realm, h.limits, h.depth, h.jobs, h.output, h.room⟩

end Machines

namespace Tracks

variable {related : α → β → Machine → Prop} {first : Action α} {second : Nat → Action β}
  {m m' : Machine}

theorem attempt (h : like.Tracks related first second m m') :
    like.Tracks (Attempts related) (Action.attempt first)
      (fun n => Action.attempt (second n)) m m' := by
  unfold Tracks at *
  cases hf : first m with
  | ok a later =>
    rw [hf] at h
    cases h with
    | ok he hm hr =>
      obtain ⟨least, he⟩ := he
      rw [Action.attempt_of_ok hf]
      exact .ok ⟨least, fun n hl => Action.attempt_of_ok (he n hl)⟩ hm (.ok hr)
  | error stop later =>
    rw [hf] at h
    cases h with
    | raised he hm =>
      obtain ⟨least, he⟩ := he
      rw [Action.attempt_of_raised hf]
      exact .ok ⟨least, fun n hl => Action.attempt_of_raised (he n hl)⟩ hm .error
    | exhausted hroom =>
      unfold Action.attempt
      rw [hf]
      exact .exhausted hroom

theorem nested (hm : like.Machines m m')
    (hr : ∀ a b later, related a b later → related a b (Action.leave later))
    (h : like.Tracks related first second (Action.enter m) (Action.enter m')) :
    like.Tracks related (Action.nested first) (fun n => Action.nested (second n)) m m' := by
  unfold Tracks at *
  by_cases hd : m.limits.callDepth ≤ m.depth
  · rw [Action.nested_of_full hd]
    exact .raised (.of_eq fun _ => Action.nested_of_full (hm.limits ▸ hm.depth ▸ hd)) hm
  · have hd' : m'.depth < m'.limits.callDepth := by
      rw [← hm.limits, ← hm.depth]
      omega
    cases hf : first (Action.enter m) with
    | ok a later =>
      rw [hf] at h
      cases h with
      | ok he hm h =>
        obtain ⟨least, he⟩ := he
        rw [Action.nested_of_ok (by omega) hf]
        exact .ok ⟨least, fun n hl => Action.nested_of_ok hd' (he n hl)⟩ hm.leave (hr _ _ _ h)
    | error stop later =>
      rw [hf] at h
      rw [Action.nested_of_error (by omega) hf]
      cases h with
      | raised he hm =>
        obtain ⟨least, he⟩ := he
        exact .raised ⟨least, fun n hl => Action.nested_of_error hd' (he n hl)⟩ hm.leave
      | exhausted hroom => exact .exhausted hroom

end Tracks

/-! ## Actions with the same results -/

theorem Tracks.of_keeps {first : Action α} {second : Nat → Action α} {m m' : Machine}
    (h : like.Keeps first second) (hm : like.Machines m m') :
    like.Tracks (fun a b _ => a = b) first second m m' :=
  h.tracks hm

namespace Keeps

variable {x : Action α} {y : Nat → Action α}

instance pure (a : α) : like.Stills (Pure.pure a) := ⟨fun hm => .pure hm rfl⟩

instance bind {k : α → Action β} {l : Nat → α → Action β}
    [hx : like.Keeps x y] [hk : ∀ a, like.Keeps (k a) (fun n => l n a)] :
    like.Keeps (x >>= k) (fun n => y n >>= l n) := by
  refine ⟨fun hm => .bind (hx.tracks hm) fun a b later later' hm h => ?_⟩
  subst h
  exact (hk a).tracks hm

theorem next {k : α → Action β} {l : Nat → α → Action β}
    [like.Keeps x y] (hk : ∀ a, like.Keeps (k a) (fun n => l n a)) :
    like.Keeps (x >>= k) (fun n => y n >>= l n) := bind

instance ite {p} [Decidable p] {x' y'} [like.Keeps x y] [like.Keeps x' y'] :
    like.Keeps (if p then x else x') (fun n => if p then y n else y' n) := by
  split <;> infer_instance

instance raise (exception : Exception) : like.Stills (α := α) (Action.raise exception) :=
  ⟨fun hm => .raise hm⟩

instance fail (cause : Cause) : like.Stills (α := α) (Action.fail cause) := ⟨fun hm => .raise hm⟩

instance ofExcept (outcome : Except Cause α) : like.Stills (Action.ofExcept outcome) := by
  unfold Action.ofExcept
  cases outcome <;> infer_instance

instance attempt [hx : like.Keeps x y] :
    like.Keeps (Action.attempt x) (fun n => Action.attempt (y n)) := by
  refine ⟨fun hm => (hx.tracks hm).attempt.mono fun a b later h => ?_⟩
  cases h with
  | ok h => rw [h]
  | error => rfl

instance nested [hx : like.Keeps x y] :
    like.Keeps (Action.nested x) (fun n => Action.nested (y n)) :=
  ⟨fun hm => .nested hm (fun _ _ _ h => h) (hx.tracks hm.enter)⟩

instance mapM {f : α → Action β} {g : Nat → α → Action β}
    [h : ∀ a, like.Keeps (f a) (fun n => g n a)] {items : List α} :
    like.Keeps (items.mapM f) (fun n => items.mapM (g n)) := by
  induction items with
  | nil => exact pure []
  | cons item rest ih =>
    simp only [List.mapM_cons]
    infer_instance

instance realm : like.Keeps Action.realm (fun _ => Action.realm) :=
  ⟨fun hm => .of_ok rfl (.of_eq fun _ => rfl) hm hm.realm⟩

/-! ## The heap -/

theorem look (like : Likeness) (f : Heap → α) (hf : ∀ {realm first second}, like.Heaps realm first second →
    f first = f second) : like.Stills (Action.look f) :=
  ⟨fun hm => .of_ok rfl (.of_eq fun _ => rfl) hm (hf hm.heaps)⟩

theorem query (like : Likeness) (f : Heap → Except Cause α) (hf : ∀ {realm first second},
    like.Heaps realm first second → f first = f second) : like.Stills (Action.query f) := by
  refine ⟨fun {m m'} hm => ?_⟩
  have he := hf hm.heaps
  cases hq : f m.heap with
  | ok v =>
    refine .of_ok (a := v) ?_ (.of_eq fun _ => ?_) hm rfl
    · simp only [Action.query, hq]
    · simp only [Action.query, ← he, hq]
  | error cause =>
    unfold Tracks
    have hf : Action.query f m = .error (.raised (.failed cause)) m := by
      simp only [Action.query, hq]
    rw [hf]
    refine .raised (.of_eq fun _ => ?_) hm
    simp only [Action.query, ← he, hq]

theorem change (like : Likeness) (f : Heap → Heap) {g}
    (hf : ∀ {realm first second}, like.Heaps realm first second →
    like.Heaps realm (f first) (g second))
    : like.Keeps (Action.change f) (fun _ => Action.change g) :=
  ⟨fun hm => .of_ok rfl (.of_eq fun _ => rfl) (hm.withHeap (hf hm.heaps)) rfl⟩

theorem apply (like : Likeness) (f : Heap → α × Heap) {g}
    (hf : ∀ {realm first second}, like.Heaps realm first second →
    (f first).1 = (g second).1 ∧ like.Heaps realm (f first).2 (g second).2) :
    like.Keeps (Action.apply f) (fun _ => Action.apply g) :=
  ⟨fun hm => .of_ok rfl (.of_eq fun _ => rfl) (hm.withHeap (hf hm.heaps).2) (hf hm.heaps).1⟩

theorem update (like : Likeness) (u : Heap.Update α) (hu : ∀ {realm first second}, like.Heaps realm first second →
    like.Updated realm (u first) (u second)) : like.Stills (Action.update u) := by
  refine ⟨fun {m m'} hm => ?_⟩
  have h := hu hm.heaps
  generalize hr : u m.heap = r, hs : u m'.heap = s at h
  unfold Tracks
  cases h with
  | ok v h =>
    rw [Action.update_of_ok hr]
    exact .ok (.of_eq fun _ => Action.update_of_ok hs) (hm.withHeap h) rfl
  | error cause h =>
    rw [Action.update_of_error hr]
    exact .raised (.of_eq fun _ => Action.update_of_error hs) (hm.withHeap h)

end Keeps

end Likeness

end Ecma

