/-
Code making at one pace: run under two choices of options, it fails with the same error, or both
emitters stay abreast. The exits that it makes, and so what the constructs around learn from it,
depend on nothing but the constructs that stand around.
-/
import Ecma.Proofs.Options.Emitters

namespace Ecma.Compile

open Code (Label FunctionKind)

/-! ## Constructs -/

/-- A construct that takes jumps, with its labels in either draft. -/
structure PairedJumps where
  labels : List String
  takesPlainBreak : Bool
  envDepth : Nat
  breaks : Label × Label
  breakUsed : Bool := false
  continues : Option (Label × Label)
  /-- Whether the label where it continues has its place. -/
  placed : Bool := false
  continueUsed : Bool := false

/-- A loop whose iterator is closed, with its protected ranges in either draft. -/
structure PairedClosing where
  register : Nat
  opened : Option (Nat × Nat) := none
  ranges : List ((Nat × Nat) × (Nat × Nat)) := []

/-- A construct around code that two emitters make. -/
inductive Entry where
  | jumps (jumps : PairedJumps)
  | finalizer (es : List ((Label × Label) × Exit))
  | closing (closing : PairedClosing)

/-- A label without a place, and whether something aims at it. -/
def mark (used : Bool) (labels : Label × Label) : Fact :=
  .label labels.1 labels.2 (if used then some 0 else none)

namespace PairedJumps

/-- The construct in the first draft. -/
def one (jumps : PairedJumps) : Jumps :=
  { labels := jumps.labels
    breakLabel := jumps.breaks.1
    breakUsed := jumps.breakUsed
    continueLabel := jumps.continues.map Prod.fst
    continueUsed := jumps.continueUsed
    takesPlainBreak := jumps.takesPlainBreak
    envDepth := jumps.envDepth }

/-- The construct in the second draft. -/
def other (jumps : PairedJumps) : Jumps :=
  { jumps.one with
    breakLabel := jumps.breaks.2
    continueLabel := jumps.continues.map Prod.snd }

/-- What is known of where a construct continues. -/
def continueFacts (jumps : PairedJumps) : List Fact :=
  match jumps.continues with
  | none => []
  | some labels =>
    [if jumps.placed then .aim labels.1 labels.2 0 else mark jumps.continueUsed labels]

/-- What is known of the labels of a construct. -/
def facts (jumps : PairedJumps) : List Fact :=
  mark jumps.breakUsed jumps.breaks :: jumps.continueFacts

end PairedJumps

namespace PairedClosing

/-- The construct in the first draft. -/
def one (closing : PairedClosing) : Closing :=
  { register := closing.register
    opened := closing.opened.map Prod.fst
    ranges := closing.ranges.map fun range => (range.1.1, range.2.1) }

/-- The construct in the second draft. -/
def other (closing : PairedClosing) : Closing :=
  { register := closing.register
    opened := closing.opened.map Prod.snd
    ranges := closing.ranges.map fun range => (range.1.2, range.2.2) }

/-- Its positions correspond. -/
def facts (closing : PairedClosing) : List Fact :=
  closing.opened.toList.map (fun start => .seam start.1 start.2) ++
    closing.ranges.flatMap fun range => [.seam range.1.1 range.1.2, .seam range.2.1 range.2.2]

end PairedClosing

/-- What an exit looks at in a construct. -/
inductive Hull where
  | jumps (labels : List String) (takesPlainBreak continues : Bool)
  | finalizer
  | closing

namespace Entry

/-- The construct in the first draft. -/
def one : Entry → Control
  | .jumps paired => .jumps paired.one
  | .finalizer es => .finalizer (es.map fun exit => (exit.1.1, exit.2))
  | .closing paired => .closing paired.one

/-- The construct in the second draft. -/
def other : Entry → Control
  | .jumps paired => .jumps paired.other
  | .finalizer es => .finalizer (es.map fun exit => (exit.1.2, exit.2))
  | .closing paired => .closing paired.other

/-- What is known of a construct. -/
def facts : Entry → List Fact
  | .jumps paired => paired.facts
  | .finalizer es => es.map fun exit => mark true exit.1
  | .closing paired => paired.facts

/-- What an exit looks at. -/
def hull : Entry → Hull
  | .jumps paired => .jumps paired.labels paired.takesPlainBreak paired.continues.isSome
  | .finalizer _ => .finalizer
  | .closing _ => .closing

end Entry

/-- Whether a construct takes an exit that reaches it. -/
def Hull.takes (outer : Nat) (target : Exit) : Hull → Bool
  | jumps .. => target.isAt outer
  | finalizer => true
  | closing => false

/-- Whether an exit goes on with a loop. -/
def Exit.isContinue : Exit → Bool
  | .continueTo _ => true
  | _ => false

/-- Whether an exit among those that a construct takes goes to its end. -/
def breaksOff (loops : Bool) (es : List Exit) : Bool :=
  es.any fun exit => !(exit.isContinue && loops)

/-- Whether an exit among those that a construct takes goes on with it. -/
def goesOn (loops : Bool) (es : List Exit) : Bool :=
  es.any fun exit => exit.isContinue && loops

/-- What a construct that takes jumps learns from exits. -/
def PairedJumps.learn (jumps : PairedJumps) (es : List Exit) : PairedJumps :=
  { jumps with
    breakUsed := jumps.breakUsed || breaksOff jumps.continues.isSome es
    continueUsed := jumps.continueUsed || goesOn jumps.continues.isSome es }

/-- The targets of a finalizer after one more exit. -/
def addTarget (targets : List Exit) (target : Exit) : List Exit :=
  if target ∈ targets then targets else targets ++ [target]

/-- What a construct learns from exits that it takes. -/
inductive Entry.Learns (es : List Exit) : Entry → Entry → Prop
  | jumps {jumps : PairedJumps} : Learns es (.jumps jumps) (.jumps (jumps.learn es))
  | finalizer {learnt learnt' : List ((Label × Label) × Exit)} :
    learnt'.map Prod.snd = es.foldl addTarget (learnt.map Prod.snd) →
    Learns es (.finalizer learnt) (.finalizer learnt')
  | closing {closing closing' : PairedClosing} : closing'.register = closing.register →
    Learns es (.closing closing) (.closing closing')

/-- What constructs learn from exits, the innermost first. -/
inductive LearnAll : List Exit → List Entry → List Entry → Prop
  | nil {es} : LearnAll es [] []
  | cons {es entry entry' outer outer'} :
    Entry.Learns (es.filter fun exit => entry.hull.takes outer.length exit) entry entry' →
    LearnAll (es.filter fun exit => !entry.hull.takes outer.length exit) outer outer' →
    LearnAll es (entry :: outer) (entry' :: outer')

namespace Entry.Learns

variable {es es' : List Exit} {a b c : Entry}

theorem hull (h : Entry.Learns es a b) : b.hull = a.hull := by cases h <;> rfl

theorem refl (entry : Entry) : Entry.Learns [] entry entry := by
  cases entry with
  | jumps jumps =>
    have h := @Entry.Learns.jumps [] jumps
    simpa only [PairedJumps.learn, breaksOff, goesOn, List.any_nil, Bool.or_false] using h
  | finalizer learnt => exact .finalizer rfl
  | closing closing => exact .closing rfl

theorem trans (h : Entry.Learns es a b) (h' : Entry.Learns es' b c) :
    Entry.Learns (es ++ es') a c := by
  cases h with
  | @jumps jumps =>
    cases h' with
    | jumps =>
      have h := @Entry.Learns.jumps (es ++ es') jumps
      simpa only [PairedJumps.learn, breaksOff, goesOn, List.any_append, Bool.or_assoc] using h
  | finalizer h =>
    cases h' with
    | finalizer h' => exact .finalizer (by rw [h', h, List.foldl_append])
  | closing h =>
    cases h' with
    | closing h' => exact .closing (h'.trans h)

end Entry.Learns

namespace LearnAll

variable {es es' : List Exit} {a b c : List Entry}

theorem length (h : LearnAll es a b) : b.length = a.length := by
  induction h with
  | nil => rfl
  | cons _ _ ih => simp only [List.length_cons, ih]

theorem hull (h : LearnAll es a b) : b.map Entry.hull = a.map Entry.hull := by
  induction h with
  | nil => rfl
  | cons h _ ih => simp only [List.map_cons, ih, h.hull]

theorem refl : (cs : List Entry) → LearnAll [] cs cs
  | [] => .nil
  | entry :: outer => .cons (.refl entry) (refl outer)

theorem trans (h : LearnAll es a b) (h' : LearnAll es' b c) :
    LearnAll (es ++ es') a c := by
  induction h generalizing es' c with
  | nil =>
    cases h'
    exact .nil
  | cons he ho ih =>
    cases h' with
    | cons he' ho' =>
      rw [he.hull, ho.length] at he' ho'
      refine .cons ?_ ?_
      · rw [List.filter_append]
        exact he.trans he'
      · rw [List.filter_append]
        exact ih ho'

end LearnAll

/-! ## Pace -/

/-- Emitters abreast inside constructs. -/
structure Standing (room : Nat) (kind : FunctionKind) (fs : List Fact) (cs : List Entry)
    (here : Option Shape) (one other : Emitter) : Prop where
  abreast : ∃ ledger, Abreast room kind (fs ++ cs.flatMap Entry.facts)
    ⟨ledger, here, one, other⟩
  one : one.control = cs.map Entry.one
  other : other.control = cs.map Entry.other

variable {α β γ δ : Type}

/-- Whether an error blames the tree, and not the code that was made for it. -/
def CompileError.blamesTree : CompileError → Bool
  | .unbalanced | .link _ => false
  | _ => true

/-- The same error of the tree, or results that are related. -/
inductive Made (related : α → β → Emitter → Emitter → Prop) :
    Except CompileError (α × Emitter) → Except CompileError (β × Emitter) → Prop
  | ok {a b one other} : related a b one other → Made related (.ok (a, one)) (.ok (b, other))
  | error {error} : error.blamesTree = true → Made related (.error error) (.error error)

/-- A context in the program that is compiled, with one of the options. -/
def Choices.under (opts : Choices) (options : Options) (ctx : Context) : Context :=
  { ctx with scopes := opts.scopes, options }

abbrev Choices.first (opts : Choices) : Context → Context := opts.under opts.one

abbrev Choices.second (opts : Choices) : Context → Context := opts.under opts.other

/-- What is known after two pieces of code making, given what they yield. -/
abbrev After (α β : Type) : Type := α → β → List Fact → Option Shape → Prop

/-- Code making at one pace, inside constructs of which the hulls are given, that makes the given
exits. -/
def Pace (opts : Choices) (ctx : Context) (hulls : List Hull) (es : List Exit)
    (fs : List Fact) (here : Option Shape) (x : Emit α) (y : Emit β) (after : After α β) : Prop :=
  ∀ cs one other, cs.map Entry.hull = hulls →
    Standing opts.room ctx.kind fs cs here one other →
    Made (fun a b one' other' => ∃ fs' here' cs', after a b fs' here' ∧
        LearnAll es cs cs' ∧
        Standing opts.room ctx.kind fs' cs' here' one' other')
      (x (opts.first ctx) one) (y (opts.second ctx) other)

/-- Nothing is yielded. -/
def Then (fs : List Fact) (here : Option Shape) : After α β :=
  fun _ _ fs' here' => fs' = fs ∧ here' = here

/-- The same is yielded by both, with a property. -/
def Gives (prop : α → Prop) (fs : List Fact) (here : Option Shape) : After α α :=
  fun a b fs' here' => b = a ∧ prop a ∧ fs' = fs ∧ here' = here

namespace Pace

variable {opts : Choices} {ctx : Context} {hulls : List Hull} {es es' : List Exit}
  {fs fs' : List Fact} {here here' : Option Shape} {x : Emit α} {y : Emit β}
  {after after' : After α β}

theorem pure {a b} (h : after a b fs here) :
    Pace opts ctx hulls [] fs here (Pure.pure a) (Pure.pure b) after :=
  fun cs _ _ _ hs => .ok ⟨fs, here, cs, h, .refl cs, hs⟩

theorem throw {error} (he : error.blamesTree = true) :
    Pace opts ctx hulls es fs here (MonadExcept.throw error)
      (MonadExcept.throw error) after :=
  fun _ _ _ _ _ => .error he

theorem bind {k : α → Emit γ} {l : β → Emit δ} {last : After γ δ}
    (h : Pace opts ctx hulls es fs here x y after)
    (hk : ∀ a b fs' here', after a b fs' here' →
      Pace opts ctx hulls es' fs' here' (k a) (l b) last) :
    Pace opts ctx hulls (es ++ es') fs here (x >>= k) (y >>= l) last := by
  intro cs one other hh hs
  have h := h cs one other hh hs
  change Made _ (x _ one >>= fun p => k p.1 _ p.2) (y _ other >>= fun p => l p.1 _ p.2)
  generalize x (opts.first ctx) one = first at h
  generalize y (opts.second ctx) other = second at h
  cases h with
  | error he => exact .error he
  | @ok a b one' other' h =>
    obtain ⟨fs', here', cs', ha, hl, hs⟩ := h
    have hk := hk a b fs' here' ha cs' one' other' (hl.hull.trans hh) hs
    change Made _ (k a _ one') (l b _ other')
    generalize k a (opts.first ctx) one' = first at hk
    generalize l b (opts.second ctx) other' = second at hk
    cases hk with
    | error he => exact .error he
    | ok hk =>
      obtain ⟨fs'', here'', cs'', ha, hl', hs⟩ := hk
      exact .ok ⟨fs'', here'', cs'', ha, hl.trans hl', hs⟩

/-- One piece of code after another. -/
theorem andThen {k : α → Emit γ} {l : β → Emit δ} {last : After γ δ}
    (h : Pace opts ctx hulls es fs here x y (Then fs' here'))
    (hk : ∀ a b, Pace opts ctx hulls es' fs' here' (k a) (l b) last) :
    Pace opts ctx hulls (es ++ es') fs here (x >>= k) (y >>= l) last := by
  refine h.bind ?_
  rintro a b _ _ ⟨rfl, rfl⟩
  exact hk a b

/-- A piece of code after one that yields the same to both. -/
theorem with_ {y : Emit α} {prop : α → Prop} {k : α → Emit γ} {l : α → Emit δ} {last : After γ δ}
    (h : Pace opts ctx hulls es fs here x y (Gives prop fs' here'))
    (hk : ∀ a, prop a → Pace opts ctx hulls es' fs' here' (k a) (l a) last) :
    Pace opts ctx hulls (es ++ es') fs here (x >>= k) (y >>= l) last := by
  refine h.bind ?_
  rintro a b _ _ ⟨hb, hp, rfl, rfl⟩
  subst hb
  exact hk _ hp

/-- A piece of code after one that makes no exits. -/
theorem step {k : α → Emit γ} {l : β → Emit δ} {last : After γ δ}
    (h : Pace opts ctx hulls [] fs here x y (Then fs' here'))
    (hk : ∀ a b, Pace opts ctx hulls es fs' here' (k a) (l b) last) :
    Pace opts ctx hulls es fs here (x >>= k) (y >>= l) last :=
  h.andThen hk

/-- A piece of code after one that makes no exits, whatever that one yields. -/
theorem lead {k : α → Emit γ} {l : β → Emit δ} {last : After γ δ}
    (h : Pace opts ctx hulls [] fs here x y after)
    (hk : ∀ a b fs' here', after a b fs' here' →
      Pace opts ctx hulls es fs' here' (k a) (l b) last) :
    Pace opts ctx hulls es fs here (x >>= k) (y >>= l) last :=
  h.bind hk

/-- A piece of code after which none makes exits. -/
theorem closing {k : α → Emit γ} {l : β → Emit δ} {last : After γ δ}
    (h : Pace opts ctx hulls es fs here x y (Then fs' here'))
    (hk : ∀ a b, Pace opts ctx hulls [] fs' here' (k a) (l b) last) :
    Pace opts ctx hulls es fs here (x >>= k) (y >>= l) last := by
  rw [← List.append_nil es]
  exact h.andThen hk

/-- A piece of code after one that makes no exits and yields the same to both. -/
theorem take {y : Emit α} {prop : α → Prop} {k : α → Emit γ} {l : α → Emit δ} {last : After γ δ}
    (h : Pace opts ctx hulls [] fs here x y (Gives prop fs' here'))
    (hk : ∀ a, prop a → Pace opts ctx hulls es fs' here' (k a) (l a) last) :
    Pace opts ctx hulls es fs here (x >>= k) (y >>= l) last :=
  h.with_ hk

theorem read {k l : Context → Emit α} {after : After α α}
    (h : Pace opts ctx hulls es fs here (k (opts.first ctx)) (l (opts.second ctx)) after) :
    Pace opts ctx hulls es fs here (MonadReader.read >>= k) (MonadReader.read >>= l) after :=
  h

theorem weaken (h : Pace opts ctx hulls es fs here x y after)
    (ha : ∀ a b fs' here', after a b fs' here' → ∃ fs'' here'', Retains fs' fs'' ∧
      Eases here' here'' ∧ after' a b fs'' here'') :
    Pace opts ctx hulls es fs here x y after' := by
  intro cs one other hh hs
  have h := h cs one other hh hs
  generalize x (opts.first ctx) one = first at h ⊢
  generalize y (opts.second ctx) other = second at h ⊢
  cases h with
  | error he => exact .error he
  | ok h =>
    obtain ⟨fs', here', cs', hp, hl, hs⟩ := h
    obtain ⟨fs'', here'', hr, hw, hp⟩ := ha _ _ _ _ hp
    obtain ⟨ledger, hab⟩ := hs.abreast
    exact .ok ⟨fs'', here'', cs', hp, hl,
      ⟨⟨ledger, (hab.retain (hr.append_right _)).ease hw⟩, hs.one, hs.other⟩⟩

theorem forget (h : Pace opts ctx hulls es fs here x y (Then fs' here')) {fs''}
    (hr : Retains fs' fs'') :
    Pace opts ctx hulls es fs here x y (Then fs'' here') := by
  refine h.weaken ?_
  rintro a b _ _ ⟨rfl, rfl⟩
  exact ⟨fs'', _, hr, .refl _, rfl, rfl⟩

theorem of_less (hw : Eases here here') (hr : Retains fs fs')
    (h : Pace opts ctx hulls es fs' here' x y after) :
    Pace opts ctx hulls es fs here x y after := by
  intro cs one other hh hs
  obtain ⟨ledger, ha⟩ := hs.abreast
  exact h cs one other hh ⟨⟨ledger, (ha.retain (hr.append_right _)).ease hw⟩, hs.one, hs.other⟩

theorem ease (hw : Eases here here') (h : Pace opts ctx hulls es fs here' x y after) :
    Pace opts ctx hulls es fs here x y after :=
  h.of_less hw (.refl fs)

theorem retain (hr : Retains fs fs') (h : Pace opts ctx hulls es fs' here x y after) :
    Pace opts ctx hulls es fs here x y after :=
  h.of_less (.refl here) hr

/-- A fact about what has its place may be used again. -/
theorem again {fact} (hm : fact.mark? = none) (hf : fact ∈ fs)
    (h : Pace opts ctx hulls es (fact :: fs) here x y after) :
    Pace opts ctx hulls es fs here x y after := by
  intro cs one other hh hs
  obtain ⟨ledger, ha⟩ := hs.abreast
  exact h cs one other hh ⟨⟨ledger, ha.note hm
    (ha.holds fact (List.mem_append_left _ hf))⟩, hs.one, hs.other⟩

end Pace

end Ecma.Compile
