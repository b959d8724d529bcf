/-
What two emitters keep while they make code side by side: their codes are in step at every
point, every label that is aimed at has its place or awaits it, and their tables pair off.
-/
import Mathlib.Data.List.Perm.Subperm
import Ecma.Proofs.Options.Ledger

namespace Ecma.Compile

open Code (Instruction Constant SwitchKey Label DraftTable DraftHandler FunctionKind InStep)

/-! ## Facts -/

/-- What a piece of code making relies on. -/
inductive Fact where
  /-- Labels without a place yet; once something aims at them, the height of the stack there. -/
  | label (one other : Label) (aimed : Option Nat)
  | aim (one other : Label) (height : Nat)
  /-- Positions that correspond. -/
  | seam (one other : Nat)
  /-- A constant at its index in either draft. -/
  | constant (one other : Nat) (v : Constant)
  /-- What the codes begin with. -/
  | entry (shape : Shape)
  /-- Both codes begin with the way back to a suspension. -/
  | begins

namespace Fact

def Holds (stage : Stage) : Fact → Prop
  | label one other (some height) | aim one other height =>
    stage.ledger.target one other ⟨height, .any⟩
  | label _ _ none => True
  | seam one other => stage.ledger.seam one other
  | constant one other v => stage.Share one other v
  | entry shape => stage.Reaches 0 0 shape
  | begins => stage.one.draft.instructions[0]? = some ⟨.resumeDispatch, none⟩ ∧
      stage.other.draft.instructions[0]? = some ⟨.resumeDispatch, none⟩

/-- The labels that have no place yet. -/
def mark? : Fact → Option (Label × Label)
  | label one other _ => some (one, other)
  | _ => none

theorem Holds.onward {fact : Fact} {stage later : Stage} (hf : fact.Holds stage)
    (h : stage.Onward later) : fact.Holds later := by
  cases fact with
  | label one other aimed =>
    cases aimed with
    | none => trivial
    | some height => exact h.ledger.target hf
  | aim one other height => exact h.ledger.target hf
  | seam one other => exact h.ledger.seam hf
  | constant one other v => exact h.share hf
  | entry shape => exact h.reaches hf
  | begins => exact ⟨getElem?_of_leading h.one.instructions hf.1,
      getElem?_of_leading h.other.instructions hf.2⟩

end Fact

/-- The labels without a place among facts. -/
def marks (fs : List Fact) : List (Label × Label) := fs.filterMap Fact.mark?

/-! ## The invariant -/

/-- A switch table whose labels are known, and whose keys are all of one kind. -/
structure TableKnown (known : Label → Prop) (table : DraftTable) : Prop where
  cases : ∀ case ∈ table.cases, known case.2
  default : known table.default
  uniform : ∀ case ∈ table.cases, ∀ case' ∈ table.cases, SwitchKey.sameKind case.1 case'.1 = true

/-- One of two emitters: which of its labels have no place, and which are known. -/
structure Emitter.Side (em : Emitter) (marked : List Label) (known : Label → Prop) : Prop where
  fresh : (marked ++ em.apart.map Prod.fst).Nodup
  unplaced : ∀ label ∈ marked ++ em.apart.map Prod.fst,
    em.draft.labels[label]? = some none
  units : em.draft.units.toList = em.apart.map Prod.fst
  code : ∀ instr ∈ em.draft.instructions.toList, ∀ label,
    instr.operand = some (.label label) → known label
  resume : ∀ label ∈ em.draft.resume.toList, known label
  tables : ∀ table ∈ em.draft.tables.toList, TableKnown known table
  apartCode : ∀ unit ∈ em.apart, ∀ instr ∈ unit.2, ∀ label,
    instr.operand ≠ some (.label label)

/-- Handlers that do the same. -/
structure Ledger.Handlers (ledger : Ledger) (one other : DraftHandler) : Prop where
  start : ledger.seam one.start other.start
  stop : ledger.seam one.stop other.stop
  kind : one.kind = other.kind
  target : ∀ height, one.kind.entryHeight? = some height →
    ledger.target one.target other.target ⟨height, .any⟩

namespace Stage

/-- Positions correspond in order, and points are sound. -/
structure Course (stage : Stage) (room : Nat) (kind : FunctionKind) : Prop where
  current : stage.ledger.seam stage.one.position stage.other.position
  order : ∀ {p q p' q'}, stage.ledger.seam p q → stage.ledger.seam p' q' → (p < p' ↔ q < q')
  below : ∀ {p q}, stage.ledger.seam p q → p ≤ stage.one.position
  seam : ∀ {p q shape}, stage.ledger.point p q shape →
    stage.ledger.seam p q ∧ p < stage.one.position
  sound : ∀ {p q shape}, stage.ledger.point p q shape → stage.Sound room kind p q shape

/-- Labels that have their place. -/
def Settled (stage : Stage) (one other : Label) (shape : Shape) : Prop :=
  ∃ p q, stage.one.draft.labels[one]? = some (some p) ∧
    stage.other.draft.labels[other]? = some (some q) ∧ stage.Reaches p q shape

/-- Labels have their place or await it. -/
structure Labelled (stage : Stage) (fs : List Fact) : Prop where
  target : ∀ {l m shape}, stage.ledger.target l m shape → stage.Settled l m shape ∨
    ∃ height, shape = ⟨height, .any⟩ ∧ Fact.label l m (some height) ∈ fs
  one : stage.one.Side ((marks fs).map Prod.fst) stage.ledger.knowsOne
  other : stage.other.Side ((marks fs).map Prod.snd) stage.ledger.knowsOther

/-- The tables of the emitters pair off. -/
structure Stored (stage : Stage) (room : Nat) : Prop where
  handlers : List.Forall₂ stage.ledger.Handlers stage.one.draft.handlers.toList
    stage.other.draft.handlers.toList
  functions : List.Forall₂ (InStep room) stage.one.draft.functions.toList
    stage.other.draft.functions.toList
  registers : stage.one.draft.registers = stage.other.draft.registers
  returnRegister : stage.one.returnRegister = stage.other.returnRegister
  resume : stage.one.draft.resume.size = stage.other.draft.resume.size

end Stage

/-- Emitters abreast, with what may be relied on. -/
structure Abreast (room : Nat) (kind : FunctionKind) (fs : List Fact) (stage : Stage) : Prop where
  course : stage.Course room kind
  labelled : stage.Labelled fs
  stored : stage.Stored room
  holds : ∀ fact ∈ fs, fact.Holds stage

/-! ## Facts are rearranged -/

theorem subperm_filterMap {α β : Type} (f : α → Option β) {xs ys : List α} (h : xs.Subperm ys) :
    (xs.filterMap f).Subperm (ys.filterMap f) := by
  obtain ⟨zs, hp, hs⟩ := h
  exact ⟨zs.filterMap f, hp.filterMap f, hs.filterMap f⟩

theorem subperm_map {α β : Type} (f : α → β) {xs ys : List α} (h : xs.Subperm ys) :
    (xs.map f).Subperm (ys.map f) := by
  obtain ⟨zs, hp, hs⟩ := h
  exact ⟨zs.map f, hp.map f, hs.map f⟩

theorem nodup_of_subperm {α : Type} {xs ys : List α} (h : xs.Subperm ys) (hn : ys.Nodup) :
    xs.Nodup := by
  obtain ⟨zs, hp, hs⟩ := h
  exact hp.nodup_iff.mp (hs.nodup hn)

theorem marks_append (fs fs' : List Fact) : marks (fs ++ fs') = marks fs ++ marks fs' :=
  List.filterMap_append

/-- Facts of which only those are left out that nothing awaits. -/
structure Retains (fs fs' : List Fact) : Prop where
  subperm : fs'.Subperm fs
  awaited : ∀ {l m height}, Fact.label l m (some height) ∈ fs →
    Fact.label l m (some height) ∈ fs'

namespace Retains

variable {fs fs' : List Fact}

theorem of_perm (h : fs'.Perm fs) : Retains fs fs' :=
  ⟨h.subperm, fun hf => h.symm.subset hf⟩

theorem refl (fs : List Fact) : Retains fs fs := .of_perm (.refl _)

theorem append_right (h : Retains fs fs') (rest : List Fact) :
    Retains (fs ++ rest) (fs' ++ rest) where
  subperm := (List.subperm_append_right rest).mpr h.subperm
  awaited hf := by
    rw [List.mem_append] at hf ⊢
    exact hf.imp_left h.awaited

theorem append_left (h : Retains fs fs') (before : List Fact) :
    Retains (before ++ fs) (before ++ fs') where
  subperm := (List.subperm_append_left before).mpr h.subperm
  awaited hf := by
    rw [List.mem_append] at hf ⊢
    exact hf.imp_right h.awaited

/-- A fact that nothing awaits is dropped. -/
theorem drop {fact} (hf : ∀ l m height, fact ≠ .label l m (some height)) (fs : List Fact) :
    Retains (fact :: fs) fs where
  subperm := (List.sublist_cons_self fact fs).subperm
  awaited {l m height} hm := by
    obtain he | hm := List.mem_cons.mp hm
    · exact absurd he.symm (hf l m height)
    · exact hm

theorem dropAll {known} (hk : ∀ fact ∈ known, ∀ l m height, fact ≠ .label l m (some height))
    (fs : List Fact) : Retains (known ++ fs) fs where
  subperm := (List.suffix_append known fs).sublist.subperm
  awaited {l m height} hm := by
    obtain hm | hm := List.mem_append.mp hm
    · exact absurd rfl (hk _ hm l m height)
    · exact hm

theorem marks_subperm (h : Retains fs fs') : (marks fs').Subperm (marks fs) :=
  subperm_filterMap _ h.subperm

end Retains

theorem Emitter.Side.mono {em : Emitter} {marked marked' : List Label}
    {known known' : Label → Prop} (h : em.Side marked known) (hm : marked'.Subperm marked)
    (hk : ∀ label, known label → known' label) : em.Side marked' known' := by
  have hs : (marked' ++ em.apart.map Prod.fst).Subperm (marked ++ em.apart.map Prod.fst) :=
    (List.subperm_append_right _).mpr hm
  exact
    { fresh := nodup_of_subperm hs h.fresh
      unplaced := fun label hl => h.unplaced label (hs.subset hl)
      units := h.units
      code := fun i hi l hl => hk l (h.code i hi l hl)
      resume := fun l hl => hk l (h.resume l hl)
      tables := fun t ht => ⟨fun c hc => hk _ ((h.tables t ht).cases c hc),
        hk _ (h.tables t ht).default, (h.tables t ht).uniform⟩
      apartCode := h.apartCode }

theorem Abreast.retain {room : Nat} {kind : FunctionKind} {fs fs' : List Fact} {stage : Stage}
    (h : Abreast room kind fs stage) (hr : Retains fs fs') :
    Abreast room kind fs' stage where
  course := h.course
  stored := h.stored
  holds fact hf := h.holds fact (hr.subperm.subset hf)
  labelled :=
    { target := fun ht => (h.labelled.target ht).imp_right fun ⟨height, hs, hf⟩ =>
        ⟨height, hs, hr.awaited hf⟩
      one := h.labelled.one.mono (subperm_map Prod.fst hr.marks_subperm) fun _ hk => hk
      other := h.labelled.other.mono (subperm_map Prod.snd hr.marks_subperm) fun _ hk => hk }

theorem Abreast.note {room kind fs stage fact} (h : Abreast room kind fs stage)
    (hm : fact.mark? = none) (hf : fact.Holds stage) : Abreast room kind (fact :: fs) stage := by
  have he : marks (fact :: fs) = marks fs := by simp only [marks, List.filterMap_cons, hm]
  refine ⟨h.course, ⟨fun ht => ?_, he ▸ h.labelled.one, he ▸ h.labelled.other⟩, h.stored,
    fun found hfound => ?_⟩
  · exact (h.labelled.target ht).imp_right fun ⟨height, hs, hf⟩ =>
      ⟨height, hs, List.mem_cons_of_mem _ hf⟩
  · obtain rfl | hfound := List.mem_cons.mp hfound
    · exact hf
    · exact h.holds found hfound

/-! ## Nothing is emitted -/

/-- What is known of a place says no more than before. -/
def Eases (here here' : Option Shape) : Prop :=
  ∀ shape, here = some shape → ∃ shape', here' = some shape' ∧ shape.Fits shape'

theorem Eases.refl (here : Option Shape) : Eases here here := fun shape h => ⟨shape, h, .refl _⟩

theorem Eases.none (here : Option Shape) : Eases none here := nofun

/-- An emitter with more in its tables. -/
structure Emitter.Still (em after : Emitter) : Prop where
  instructions : after.draft.instructions = em.draft.instructions
  labels : after.draft.labels = em.draft.labels
  resume : after.draft.resume = em.draft.resume
  units : after.draft.units = em.draft.units
  tables : after.draft.tables = em.draft.tables
  apart : after.apart = em.apart
  constants : em.draft.constants.toList <+: after.draft.constants.toList
  functions : em.draft.functions.size ≤ after.draft.functions.size

namespace Emitter.Still

variable {em after : Emitter}

theorem refl (em : Emitter) : em.Still em :=
  ⟨rfl, rfl, rfl, rfl, rfl, rfl, List.prefix_rfl, Nat.le_refl _⟩

theorem position (h : em.Still after) : after.position = em.position := by
  simp only [Emitter.position, Code.Draft.position, h.instructions]

theorem leads (h : em.Still after) : em.Extends after where
  instructions := h.instructions ▸ List.prefix_rfl
  constants := h.constants
  functions := h.functions
  resume := h.resume ▸ List.prefix_rfl
  tables := h.tables ▸ List.prefix_rfl
  apart := h.apart ▸ List.prefix_rfl

theorem side (h : em.Still after) {marked : List Label} {known : Label → Prop}
    (hs : em.Side marked known) : after.Side marked known where
  fresh := h.apart ▸ hs.fresh
  unplaced := by
    rw [h.apart, h.labels]
    exact hs.unplaced
  units := by
    rw [h.apart, h.units]
    exact hs.units
  code := h.instructions ▸ hs.code
  resume := h.resume ▸ hs.resume
  tables := h.tables ▸ hs.tables
  apartCode := h.apart ▸ hs.apartCode

end Emitter.Still

section

variable {room : Nat} {kind : FunctionKind} {fs fs' : List Fact} {ledger : Ledger}
  {here here' : Option Shape} {shape : Shape} {one other one' other' : Emitter}
  {known : Label → Prop} {marked : List Label} {more : Label → Label → Shape → Prop}

theorem Ledger.Within.refl (ledger : Ledger) : ledger.Within ledger := ⟨id, id, id⟩

theorem Stage.onward_still (hone : one.Still one') (hother : other.Still other')
    (hw : Eases here here') : Stage.Onward ⟨ledger, here, one, other⟩ ⟨ledger, here', one', other'⟩ where
  ledger := .refl ledger
  one := hone.leads
  other := hother.leads
  reaches hr := by
    cases hr with
    | point hp hf => exact .point hp hf
    | next hp hq hh hf =>
      obtain ⟨_, hh, hs⟩ := hw _ hh
      exact .next (hp.trans hone.position.symm) (hq.trans hother.position.symm) hh (hf.trans hs)

/-- Nothing is emitted, and less is known of the place. -/
theorem Abreast.still (h : Abreast room kind fs ⟨ledger, here, one, other⟩)
    (hone : one.Still one') (hother : other.Still other') (hw : Eases here here')
    (hs : Stage.Stored ⟨ledger, here', one', other'⟩ room) :
    Abreast room kind fs ⟨ledger, here', one', other'⟩ := by
  have ho : Stage.Onward ⟨ledger, here, one, other⟩ ⟨ledger, here', one', other'⟩ :=
    Stage.onward_still hone hother hw
  refine ⟨⟨?_, h.course.order, ?_, ?_, fun hp => (h.course.sound hp).onward ho⟩, ⟨fun ht => ?_, ?_, ?_⟩,
    hs, fun fact hf => (h.holds fact hf).onward ho⟩
  · rw [hone.position, hother.position]
    exact h.course.current
  · simp only [hone.position]
    exact h.course.below
  · simp only [hone.position]
    exact h.course.seam
  · refine (h.labelled.target ht).imp_left fun ⟨p, q, hp, hq, hr⟩ => ⟨p, q, ?_, ?_, ho.reaches hr⟩
    · rw [hone.labels]
      exact hp
    · rw [hother.labels]
      exact hq
  · exact hone.side h.labelled.one
  · exact hother.side h.labelled.other

theorem Abreast.ease (h : Abreast room kind fs ⟨ledger, here, one, other⟩)
    (hw : Eases here here') : Abreast room kind fs ⟨ledger, here', one, other⟩ :=
  h.still (.refl one) (.refl other) hw
    ⟨h.stored.handlers, h.stored.functions, h.stored.registers, h.stored.returnRegister,
      h.stored.resume⟩

/-! ## Instructions are emitted -/

/-- A ledger with one more point, and with what follows it. -/
def Ledger.step (ledger : Ledger) (p q : Nat) (shape : Shape) (p' q' : Nat)
    (more : Label → Label → Shape → Prop) : Ledger where
  seam a b := ledger.seam a b ∨ a = p' ∧ b = q'
  point a b found := ledger.point a b found ∨ a = p ∧ b = q ∧ found = shape
  target l m found := ledger.target l m found ∨ more l m found

theorem Stage.onward_step (hone : one.Extends one')
    (hother : other.Extends other') : Stage.Onward ⟨ledger, some shape, one, other⟩
      ⟨ledger.step one.position other.position shape one'.position other'.position more, here', one',
        other'⟩ where
  ledger := ⟨.inl, .inl, .inl⟩
  one := hone
  other := hother
  reaches hr := by
    cases hr with
    | point hp hf => exact .point (.inl hp) hf
    | next hp hq hh hf =>
      cases hh
      exact .point (.inr ⟨hp, hq, rfl⟩) hf

theorem Stage.Course.step
    (h : Stage.Course ⟨ledger, some shape, one, other⟩ room kind) (hone : one.Extends one')
    (hother : other.Extends other') (hp : one.position < one'.position)
    (hq : other.position < other'.position)
    (hs : Stage.Sound ⟨ledger.step one.position other.position shape one'.position other'.position
      more, here', one', other'⟩ room kind one.position other.position shape) :
    Stage.Course ⟨ledger.step one.position other.position shape one'.position other'.position more,
      here', one', other'⟩ room kind where
  current := .inr ⟨rfl, rfl⟩
  order := by
    have hright : ∀ {a b}, ledger.seam a b → b ≤ other.position := by
      intro a b hab
      have := h.below hab
      have := (h.order h.current hab).mpr
      dsimp only at *
      omega
    rintro a b c d (hab | ⟨rfl, rfl⟩) (hcd | ⟨rfl, rfl⟩)
    · exact h.order hab hcd
    · have := h.below hab
      have := hright hab
      dsimp only at *
      omega
    · have := h.below hcd
      have := hright hcd
      dsimp only at *
      omega
    · simp only [Nat.lt_irrefl]
  below := by
    rintro a b (hab | ⟨rfl, rfl⟩)
    · have := h.below hab
      dsimp only at *
      omega
    · exact Nat.le_refl _
  seam := by
    rintro a b found (hab | ⟨rfl, rfl, rfl⟩)
    · have := (h.seam hab).2
      dsimp only at *
      exact ⟨.inl (h.seam hab).1, by omega⟩
    · exact ⟨.inl h.current, hp⟩
  sound := by
    rintro a b found (hab | ⟨rfl, rfl, rfl⟩)
    · exact (h.sound hab).onward (Stage.onward_step hone hother)
    · exact hs

/-- Facts after something aims at labels. -/
structure Aims (fs fs' : List Fact) (more : Label → Label → Shape → Prop) : Prop where
  marks : marks fs' = marks fs
  kept : ∀ {l m height}, Fact.label l m (some height) ∈ fs → Fact.label l m (some height) ∈ fs'
  new : ∀ {l m found}, more l m found →
    ∃ height, found = ⟨height, .any⟩ ∧ Fact.label l m (some height) ∈ fs'
  holds : ∀ fact ∈ fs', fact ∈ fs ∨
    ∃ l m height, fact = .label l m (some height) ∧ more l m ⟨height, .any⟩

/-- The labels that one more instruction aims at. -/
def aimedAt (l m : Label) (height : Nat) : Label → Label → Shape → Prop :=
  fun l' m' found => l' = l ∧ m' = m ∧ found = ⟨height, .any⟩

theorem Aims.nothing (fs : List Fact) : Aims fs fs fun _ _ _ => False :=
  ⟨rfl, id, nofun, fun _ => .inl⟩

theorem Aims.append_right (h : Aims fs fs' more)
    (rest : List Fact) : Aims (fs ++ rest) (fs' ++ rest) more where
  marks := by rw [marks_append, marks_append, h.marks]
  kept hf := by
    rw [List.mem_append] at hf ⊢
    exact hf.imp_left h.kept
  new hm := by
    obtain ⟨height, hs, hf⟩ := h.new hm
    exact ⟨height, hs, List.mem_append_left rest hf⟩
  holds fact hf := by
    rw [List.mem_append] at hf ⊢
    obtain hf | hf := hf
    · exact (h.holds fact hf).imp_left .inl
    · exact .inl (.inr hf)

theorem Aims.label {l m : Label} {aimed : Option Nat} {height : Nat}
    (ha : aimed = none ∨ aimed = some height) (before after : List Fact) :
    Aims (before ++ .label l m aimed :: after) (before ++ .label l m (some height) :: after)
      (aimedAt l m height) where
  marks := by simp only [Compile.marks, List.filterMap_append, List.filterMap_cons, Fact.mark?]
  kept {l' m' found} hf := by
    simp only [List.mem_append, List.mem_cons, Fact.label.injEq] at hf ⊢
    obtain hf | ⟨rfl, rfl, rfl⟩ | hf := hf
    · exact .inl hf
    · obtain h | h := ha
      · cases h
      · exact .inr (.inl ⟨rfl, rfl, h⟩)
    · exact .inr (.inr hf)
  new := by
    rintro l' m' found ⟨rfl, rfl, rfl⟩
    exact ⟨height, rfl, by simp⟩
  holds fact hf := by
    simp only [List.mem_append, List.mem_cons] at hf ⊢
    obtain hf | rfl | hf := hf
    · exact .inl (.inl hf)
    · exact .inr ⟨l, m, height, rfl, rfl, rfl, rfl⟩
    · exact .inl (.inr (.inr hf))

/-- An emitter with more code that has no labels of its own. -/
structure Emitter.Side.Grown (em after : Emitter) (known : Label → Prop) : Prop where
  labels : after.draft.labels = em.draft.labels
  units : after.draft.units = em.draft.units
  apart : after.apart = em.apart
  resume : ∀ label ∈ after.draft.resume.toList,
    label ∈ em.draft.resume.toList ∨ known label
  code : ∀ instr ∈ after.draft.instructions.toList,
    instr ∈ em.draft.instructions.toList ∨
      ∀ label, instr.operand = some (.label label) → known label
  tables : ∀ table ∈ after.draft.tables.toList,
    table ∈ em.draft.tables.toList ∨ TableKnown known table

theorem Emitter.Side.grow {em after : Emitter} {known'} (h : em.Side marked known)
    (hk : ∀ label, known label → known' label) (hg : Emitter.Side.Grown em after known') :
    after.Side marked known' := by
  have h := h.mono (.refl marked) hk
  exact
    { fresh := hg.apart ▸ h.fresh
      unplaced := by
        rw [hg.apart, hg.labels]
        exact h.unplaced
      units := by
        rw [hg.apart, hg.units]
        exact h.units
      code := fun i hi => (hg.code i hi).elim (h.code i) id
      resume := fun l hl => (hg.resume l hl).elim (h.resume l) id
      tables := fun t ht => (hg.tables t ht).elim (h.tables t) id
      apartCode := hg.apart ▸ h.apartCode }

theorem Ledger.Handlers.within {ledger later : Ledger} {handler handler'}
    (h : ledger.Handlers handler handler') (hw : ledger.Within later) :
    later.Handlers handler handler' :=
  ⟨hw.seam h.start, hw.seam h.stop, h.kind, fun height hh => hw.target (h.target height hh)⟩

/-- An emitter with the same tables as another. -/
structure Emitter.Stores (em after : Emitter) : Prop where
  handlers : after.draft.handlers = em.draft.handlers
  functions : after.draft.functions = em.draft.functions
  registers : after.draft.registers = em.draft.registers
  returnRegister : after.returnRegister = em.returnRegister

theorem Stage.Stored.stores {later : Ledger} (h : Stage.Stored ⟨ledger, here, one, other⟩ room)
    (hw : ledger.Within later) (hone : one.Stores one') (hother : other.Stores other')
    (hr : one'.draft.resume.size = other'.draft.resume.size) :
    Stage.Stored ⟨later, here', one', other'⟩ room where
  handlers := by
    dsimp only
    rw [hone.handlers, hother.handlers]
    exact h.handlers.imp fun _ _ hh => hh.within hw
  functions := by
    dsimp only
    rw [hone.functions, hother.functions]
    exact h.functions
  registers := by
    dsimp only
    rw [hone.registers, hother.registers]
    exact h.registers
  returnRegister := by
    dsimp only
    rw [hone.returnRegister, hother.returnRegister]
    exact h.returnRegister
  resume := hr

/-- Both emitters add code that begins at a point. -/
theorem Abreast.step
    (h : Abreast room kind fs ⟨ledger, some shape, one, other⟩) (hone : one.Extends one')
    (hother : other.Extends other') (hp : one.position < one'.position)
    (hq : other.position < other'.position) (ha : Aims fs fs' more)
    (hs : Stage.Sound ⟨ledger.step one.position other.position shape one'.position other'.position
      more, here', one', other'⟩ room kind one.position other.position shape)
    (hl : ∀ {l p : Nat}, one.draft.labels[l]? = some (some p) →
      one'.draft.labels[l]? = some (some p))
    (hm : ∀ {l p : Nat}, other.draft.labels[l]? = some (some p) →
      other'.draft.labels[l]? = some (some p))
    (hside : one'.Side ((marks fs).map Prod.fst) (ledger.step one.position other.position shape
      one'.position other'.position more).knowsOne)
    (hside' : other'.Side ((marks fs).map Prod.snd) (ledger.step one.position other.position
      shape one'.position other'.position more).knowsOther)
    (hst : Stage.Stored ⟨ledger.step one.position other.position shape one'.position
      other'.position more, here', one', other'⟩ room) :
    Abreast room kind fs' ⟨ledger.step one.position other.position shape one'.position
      other'.position more, here', one', other'⟩ := by
  have ho : Stage.Onward ⟨ledger, some shape, one, other⟩ ⟨ledger.step one.position other.position
      shape one'.position other'.position more, here', one', other'⟩ :=
    Stage.onward_step hone hother
  refine ⟨h.course.step hone hother hp hq hs, ⟨?_, ?_, ?_⟩, hst, ?_⟩
  · rintro l m found (ht | ht)
    · exact (h.labelled.target ht).imp
        (fun ⟨p, q, hp, hq, hr⟩ => ⟨p, q, hl hp, hm hq, ho.reaches hr⟩)
        fun ⟨height, hs, hf⟩ => ⟨height, hs, ha.kept hf⟩
    · exact .inr (ha.new ht)
  · rw [ha.marks]
    exact hside
  · rw [ha.marks]
    exact hside'
  · intro fact hf
    obtain hf | ⟨l, m, height, rfl, ht⟩ := ha.holds fact hf
    · exact (h.holds fact hf).onward ho
    · exact .inr ht

theorem Ledger.knowsOne_step {p q p' q' label} (h : ledger.knowsOne label)
    : (ledger.step p q shape p' q' more).knowsOne label := by
  obtain ⟨m, found, ht⟩ := h
  exact ⟨m, found, .inl ht⟩

theorem Ledger.knowsOther_step {p q p' q' label} (h : ledger.knowsOther label) :
    (ledger.step p q shape p' q' more).knowsOther label := by
  obtain ⟨l, found, ht⟩ := h
  exact ⟨l, found, .inl ht⟩

/-- What instructions refer to that are emitted now. -/
def emitting (ledger : Ledger) (more : Label → Label → Shape → Prop) (here' : Option Shape)
    (one other : Emitter) : Surroundings where
  share := Stage.Share ⟨ledger, here', one, other⟩
  goes o o' found := ∃ l m, o = .label l ∧ o' = .label m ∧ (ledger.target l m found ∨ more l m found)
  rests _ _ := False
  falls found := ∃ next, here' = some next ∧ found.Fits next

theorem Emitter.Side.Grown.emit {em instr}
    (h : ∀ label, instr.operand = some (.label label) → known label) :
    Emitter.Side.Grown em (em.emit instr) known where
  labels := rfl
  units := rfl
  apart := rfl
  resume _ hl := .inl hl
  code i hi := by
    simp only [Emitter.emit, Code.Draft.emit, Array.toList_push, List.mem_append,
      List.mem_singleton] at hi
    refine hi.imp_right fun hi => ?_
    subst hi
    exact h
  tables _ ht := .inl ht

/-- Both emitters add an instruction. -/
theorem Abreast.emit {i j} (h : Abreast room kind fs ⟨ledger, some shape, one, other⟩)
    (ha : Aims fs fs' more)
    (hi : Instruction.Alike (emitting ledger more here' one other) shape i j) :
    ∃ later, Abreast room kind fs' ⟨later, here', one.emit i, other.emit j⟩ := by
  have hw : (emitting ledger more here' one other).Within (Stage.around
      ⟨ledger.step one.position other.position shape (one.emit i).position (other.emit j).position
        more, here', one.emit i, other.emit j⟩ kind one.position other.position) := by
    refine ⟨id, ?_, nofun, ?_⟩
    · rintro o o' found ⟨l, m, ho, hm, ht⟩
      exact ⟨l, m, ho, hm, ht⟩
    · rintro found ⟨next, hn, hf⟩
      exact .next (by simp) (by simp) hn hf
  refine ⟨_, h.step (.emit one i) (.emit other j)
    (by simp) (by simp) ha (.step ?_ ?_ (hi.within hw)) id id
    (h.labelled.one.grow (fun _ => Ledger.knowsOne_step) (.emit fun l hl => ?_))
    (h.labelled.other.grow (fun _ => Ledger.knowsOther_step) (.emit fun m hm => ?_))
    (h.stored.stores ⟨.inl, .inl, .inl⟩ ⟨rfl, rfl, rfl, rfl⟩ ⟨rfl, rfl, rfl, rfl⟩ h.stored.resume)⟩
  · simp [Emitter.emit, Code.Draft.emit, Emitter.position, Code.Draft.position]
  · simp [Emitter.emit, Code.Draft.emit, Emitter.position, Code.Draft.position]
  · obtain ⟨o, found, l', m, ho, -, ht⟩ := hi.goes_of_label hl
    cases ho
    exact ⟨m, found, ht⟩
  · obtain ⟨o, found, l, m', -, ho, ht⟩ := hi.goes_of_label' hm
    cases ho
    exact ⟨l, found, ht⟩

/-! ## Labels -/

theorem Emitter.Side.label {em : Emitter}
    (h : em.Side marked known) : em.label.Side (em.nextLabel :: marked) known where
  fresh := by
    refine List.nodup_cons.mpr ⟨fun hm => ?_, h.fresh⟩
    have hlt := (Array.getElem?_eq_some_iff.mp (h.unplaced _ hm)).1
    exact Nat.lt_irrefl _ hlt
  unplaced found hm := by
    rw [Emitter.labels_label]
    obtain rfl | hm := List.mem_cons.mp hm
    · rw [if_pos rfl]
    · split
      · rfl
      · exact h.unplaced found hm
  units := h.units
  code := h.code
  resume := h.resume
  tables := h.tables
  apartCode := h.apartCode

theorem Stage.onward_label :
    Stage.Onward ⟨ledger, here, one, other⟩ ⟨ledger, here, one.label, other.label⟩ where
  ledger := .refl ledger
  one := .label one
  other := .label other
  reaches hr := by
    cases hr with
    | point hp hf => exact .point hp hf
    | next hp hq hh hf => exact .next hp hq hh hf

theorem Abreast.label (h : Abreast room kind fs ⟨ledger, here, one, other⟩) :
    Abreast room kind (.label one.nextLabel other.nextLabel none :: fs)
      ⟨ledger, here, one.label, other.label⟩ := by
  have ho : Stage.Onward ⟨ledger, here, one, other⟩ ⟨ledger, here, one.label, other.label⟩ :=
    Stage.onward_label
  refine ⟨⟨h.course.current, h.course.order, h.course.below, h.course.seam,
    fun hp => (h.course.sound hp).onward ho⟩, ⟨fun ht => ?_, h.labelled.one.label,
    h.labelled.other.label⟩, h.stored.stores (.refl ledger) ⟨rfl, rfl, rfl, rfl⟩
    ⟨rfl, rfl, rfl, rfl⟩ h.stored.resume, fun fact hf => ?_⟩
  · refine (h.labelled.target ht).imp (fun ⟨p, q, hp, hq, hr⟩ => ⟨p, q, ?_, ?_, ho.reaches hr⟩)
      fun ⟨height, hs, hf⟩ => ⟨height, hs, List.mem_cons_of_mem _ hf⟩
    · exact Emitter.labels_label_of_placed hp
    · exact Emitter.labels_label_of_placed hq
  · obtain rfl | hf := List.mem_cons.mp hf
    · trivial
    · exact (h.holds fact hf).onward ho

theorem Emitter.Side.placing {em : Emitter} {label known'} (h : em.Side (label :: marked) known)
    (hk : ∀ label, known label → known' label) : (em.placing label).Side marked known' := by
  have hm := h.mono ((List.sublist_cons_self label marked).subperm) hk
  refine { hm with unplaced := fun found hf => ?_ }
  have hne : found ≠ label := by
    rintro rfl
    exact (List.nodup_cons.mp h.fresh).1 hf
  rw [Emitter.labels_placing, if_neg fun he => hne he.1]
  exact hm.unplaced found hf

def Ledger.aiming (ledger : Ledger) (more : Label → Label → Shape → Prop) : Ledger :=
  { ledger with target := fun l m found => ledger.target l m found ∨ more l m found }

theorem Stage.onward_placing {l m} : Stage.Onward ⟨ledger, here, one, other⟩
      ⟨ledger.aiming more, here, one.placing l, other.placing m⟩ where
  ledger := ⟨id, id, .inl⟩
  one := ⟨List.prefix_rfl, List.prefix_rfl, Nat.le_refl _, List.prefix_rfl, List.prefix_rfl,
    List.prefix_rfl⟩
  other := ⟨List.prefix_rfl, List.prefix_rfl, Nat.le_refl _, List.prefix_rfl, List.prefix_rfl,
    List.prefix_rfl⟩
  reaches hr := by
    cases hr with
    | point hp hf => exact .point hp hf
    | next hp hq hh hf => exact .next hp hq hh hf

/-- Both emitters give a label its place, where code arrives as those expect that aim at it; from
now on others may do so. -/
theorem Abreast.placing {l m : Label} {aimed : Option Nat}
    (h : Abreast room kind (.label l m aimed :: fs) ⟨ledger, here, one, other⟩)
    (ha : ∀ height, aimed = some height → here = some ⟨height, .any⟩) :
    ∃ later, Abreast room kind fs ⟨later, here, one.placing l, other.placing m⟩ ∧
      (∀ height, here = some ⟨height, .any⟩ → later.target l m ⟨height, .any⟩) ∧
      ledger.Within later := by
  let more : Label → Label → Shape → Prop := fun l' m' found =>
    l' = l ∧ m' = m ∧ ∃ height, found = ⟨height, .any⟩ ∧ here = some ⟨height, .any⟩
  have ho : Stage.Onward ⟨ledger, here, one, other⟩
      ⟨ledger.aiming more, here, one.placing l, other.placing m⟩ := Stage.onward_placing
  have hl := h.labelled.one.unplaced l (by simp [marks, Fact.mark?])
  have hm := h.labelled.other.unplaced m (by simp [marks, Fact.mark?])
  have hplaced : (one.placing l).draft.labels[l]? = some (some one.position) := by
    rw [Emitter.labels_placing, if_pos ⟨rfl, (Array.getElem?_eq_some_iff.mp hl).1⟩]
  have hplaced' : (other.placing m).draft.labels[m]? = some (some other.position) := by
    rw [Emitter.labels_placing, if_pos ⟨rfl, (Array.getElem?_eq_some_iff.mp hm).1⟩]
  refine ⟨ledger.aiming more, ⟨⟨h.course.current, h.course.order, h.course.below, h.course.seam,
    fun hp => (h.course.sound hp).onward ho⟩, ⟨?_, ?_, ?_⟩, h.stored.stores ho.ledger
    ⟨rfl, rfl, rfl, rfl⟩ ⟨rfl, rfl, rfl, rfl⟩ h.stored.resume,
    fun fact hf => (h.holds fact (.tail _ hf)).onward ho⟩,
    fun height hh => .inr ⟨rfl, rfl, height, rfl, hh⟩, ho.ledger⟩
  · rintro l' m' found (ht | ⟨rfl, rfl, height, rfl, hh⟩)
    · obtain ⟨p, q, hp, hq, hr⟩ | ⟨height, rfl, hf⟩ := h.labelled.target ht
      · exact .inl ⟨p, q, Emitter.labels_placing_of_placed hl hp,
          Emitter.labels_placing_of_placed hm hq, ho.reaches hr⟩
      · obtain he | hf := List.mem_cons.mp hf
        · cases he
          exact .inl ⟨_, _, hplaced, hplaced', .next rfl rfl (ha height rfl) (.refl _)⟩
        · exact .inr ⟨height, rfl, hf⟩
    · exact .inl ⟨_, _, hplaced, hplaced', .next rfl rfl hh (.refl _)⟩
  · exact h.labelled.one.placing fun _ ⟨m, found, ht⟩ => ⟨m, found, .inl ht⟩
  · exact h.labelled.other.placing fun _ ⟨l, found, ht⟩ => ⟨l, found, .inl ht⟩

/-- Something aims at labels from elsewhere. -/
theorem Abreast.aim
    (h : Abreast room kind fs ⟨ledger, here, one, other⟩) (ha : Aims fs fs' more) :
    Abreast room kind fs' ⟨ledger.aiming more, here, one, other⟩ := by
  have ho : Stage.Onward ⟨ledger, here, one, other⟩ ⟨ledger.aiming more, here, one, other⟩ :=
    ⟨⟨id, id, .inl⟩, .refl one, .refl other, fun hr => by
      cases hr with
      | point hp hf => exact .point hp hf
      | next hp hq hh hf => exact .next hp hq hh hf⟩
  refine ⟨⟨h.course.current, h.course.order, h.course.below, h.course.seam,
    fun hp => (h.course.sound hp).onward ho⟩, ⟨?_, ?_, ?_⟩, h.stored.stores ho.ledger
    ⟨rfl, rfl, rfl, rfl⟩ ⟨rfl, rfl, rfl, rfl⟩ h.stored.resume, fun fact hf => ?_⟩
  · rintro l m found (ht | ht)
    · exact (h.labelled.target ht).imp (fun ⟨p, q, hp, hq, hr⟩ => ⟨p, q, hp, hq, ho.reaches hr⟩)
        fun ⟨height, hs, hf⟩ => ⟨height, hs, ha.kept hf⟩
    · exact .inr (ha.new ht)
  · rw [ha.marks]
    exact h.labelled.one.mono (.refl _) fun _ ⟨m, found, ht⟩ => ⟨m, found, .inl ht⟩
  · rw [ha.marks]
    exact h.labelled.other.mono (.refl _) fun _ ⟨l, found, ht⟩ => ⟨l, found, .inl ht⟩
  · obtain hf | ⟨l, m, height, rfl, ht⟩ := ha.holds fact hf
    · exact (h.holds fact hf).onward ho
    · exact .inr ht

def Emitter.handling (em : Emitter) (handler : DraftHandler) : Emitter :=
  { em with draft := em.draft.addHandler handler }

theorem Emitter.Still.handling (em : Emitter) (handler : DraftHandler) :
    em.Still (em.handling handler) := by
  unfold Emitter.handling Code.Draft.addHandler
  split <;> exact ⟨rfl, rfl, rfl, rfl, rfl, rfl, List.prefix_rfl, Nat.le_refl _⟩

theorem Abreast.handling {handler handler'} (h : Abreast room kind fs ⟨ledger, here, one, other⟩)
    (hh : ledger.Handlers handler handler') :
    Abreast room kind fs ⟨ledger, here, one.handling handler, other.handling handler'⟩ := by
  refine h.still (.handling one handler) (.handling other handler') (.refl here) ?_
  have horder := h.course.order hh.start hh.stop
  have hs := h.stored
  by_cases hlt : handler.start < handler.stop
  · simp only [Emitter.handling, Code.Draft.addHandler, if_pos hlt, if_pos (horder.mp hlt)]
    refine ⟨?_, hs.functions, hs.registers, hs.returnRegister, hs.resume⟩
    simpa using List.rel_append hs.handlers (.cons hh .nil)
  · simp only [Emitter.handling, Code.Draft.addHandler, if_neg hlt, if_neg fun h => hlt (horder.mpr h)]
    exact ⟨hs.handlers, hs.functions, hs.registers, hs.returnRegister, hs.resume⟩

/-! ## Suspensions -/

def Emitter.suspending (em : Emitter) (label : Label) : Emitter :=
  let (state, draft) := em.draft.addResume label
  { em with draft := draft.emit ⟨.suspend, some (.state state)⟩ }

theorem Emitter.Extends.suspending (em : Emitter) (label : Label) :
    em.Extends (em.suspending label) := by
  refine ⟨?_, List.prefix_rfl, Nat.le_refl _, ?_, List.prefix_rfl, List.prefix_rfl⟩ <;>
    simp [Emitter.suspending, Code.Draft.addResume, Code.Draft.emit]

theorem Emitter.Side.Grown.suspending {em label} (h : known label)
    : Emitter.Side.Grown em (em.suspending label) known where
  labels := rfl
  units := rfl
  apart := rfl
  resume l hl := by
    simp only [Emitter.suspending, Code.Draft.addResume, Code.Draft.emit, Array.toList_push,
      List.mem_append, List.mem_singleton] at hl
    refine hl.imp_right fun hl => ?_
    subst hl
    exact h
  code i hi := by
    simp only [Emitter.suspending, Code.Draft.addResume, Code.Draft.emit, Array.toList_push,
      List.mem_append, List.mem_singleton] at hi
    refine hi.imp_right fun hi label he => ?_
    subst hi
    cases he
  tables _ ht := .inl ht

/-- Both emitters suspend, to go on at a label that has no place yet. -/
theorem Abreast.suspending {l m height} (hk : kind.isResumable = true)
    (h : Abreast room kind (.label l m none :: fs)
      ⟨ledger, some ⟨height + 1, .any⟩, one, other⟩) :
    ∃ later, Abreast room kind (.label l m (some height) :: fs)
      ⟨later, none, one.suspending l, other.suspending m⟩ := by
  have hlt : one.position < (one.suspending l).position := by
    simp [Emitter.suspending, Code.Draft.addResume, Code.Draft.emit, Emitter.position,
      Code.Draft.position]
  have hlt' : other.position < (other.suspending m).position := by
    simp [Emitter.suspending, Code.Draft.addResume, Code.Draft.emit, Emitter.position,
      Code.Draft.position]
  have hresume := h.stored.resume
  dsimp only at hresume
  refine ⟨_, h.step (.suspending one l) (.suspending other m) hlt hlt' (Aims.label (.inl rfl) [] fs)
    (@Stage.Sound.step _ _ _ _ _ _ ⟨.suspend, some (.state one.draft.resume.size)⟩
      ⟨.suspend, some (.state one.draft.resume.size)⟩ ?_ ?_
      (.suspend ⟨hk, l, m, ?_, ?_, .inr ⟨rfl, rfl, rfl⟩⟩)) id id
    (h.labelled.one.grow (fun _ => Ledger.knowsOne_step) (.suspending ⟨m, _, .inr ⟨rfl, rfl, rfl⟩⟩))
    (h.labelled.other.grow (fun _ => Ledger.knowsOther_step)
      (.suspending ⟨l, _, .inr ⟨rfl, rfl, rfl⟩⟩))
    (h.stored.stores ⟨.inl, .inl, .inl⟩ ⟨rfl, rfl, rfl, rfl⟩ ⟨rfl, rfl, rfl, rfl⟩ ?_)⟩
  · simp [Emitter.suspending, Code.Draft.addResume, Code.Draft.emit, Emitter.position,
      Code.Draft.position]
  · simp [Emitter.suspending, Code.Draft.addResume, Code.Draft.emit, Emitter.position,
      Code.Draft.position, hresume]
  · simp [Emitter.suspending, Code.Draft.addResume, Code.Draft.emit]
  · simp [Emitter.suspending, Code.Draft.addResume, Code.Draft.emit, hresume]
  · simp [Emitter.suspending, Code.Draft.addResume, Code.Draft.emit, hresume]

end

end Ecma.Compile

