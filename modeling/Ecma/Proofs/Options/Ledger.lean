/-
Two emitters side by side, which make code for the same program under different options. A
ledger records where their codes correspond, where they are in step, and which of their labels
stand for the same place; facts are what one piece of code making may rely on while others run.
-/
import Ecma.Proofs.InStep
import Ecma.Proofs.Linking

namespace Ecma

open Code (Instruction Operand Constant SwitchKey Label)

/-! ## Surroundings -/

/-- Surroundings that show no more than others. -/
structure Surroundings.Within (around other : Surroundings) : Prop where
  share : ∀ {a b constant}, around.share a b constant → other.share a b constant
  goes : ∀ {one two shape}, around.goes one two shape → other.goes one two shape
  rests : ∀ {state height}, around.rests state height → other.rests state height
  falls : ∀ {shape}, around.falls shape → other.falls shape

theorem Code.Instruction.Alike.within {around around' shape one other}
    (h : Instruction.Alike around shape one other) (hw : around.Within around')
    : Instruction.Alike around' shape one other := by
  cases h with
  | plain hp hs hf => exact .plain hp (hs.mono fun _ _ _ => hw.share) (hw.falls hf)
  | clear hf => exact .clear (hw.falls hf)
  | enter hf => exact .enter (hw.falls hf)
  | begin hs hf => exact .begin hs (hw.falls hf)
  | bind hb hn hs hf => exact .bind hb (hw.share hn) hs (hw.falls hf)
  | function hf => exact .function (hw.falls hf)
  | checkLexical hn hs hf => exact .checkLexical (hw.share hn) hs (hw.falls hf)
  | checkVar hn hs hf => exact .checkVar (hw.share hn) hs (hw.falls hf)
  | check hc hn hf => exact .check hc (hw.share hn) (hw.falls hf)
  | declareLexical hn hs hin hout hf => exact .declareLexical (hw.share hn) hs hin hout (hw.falls hf)
  | declareVar hn hs hin hout hf => exact .declareVar (hw.share hn) hs hin hout (hw.falls hf)
  | declareFunction hn hs hin hout hf =>
    exact .declareFunction (hw.share hn) hs hin hout (hw.falls hf)
  | jump hg => exact .jump (hw.goes hg)
  | branch hb hg hf => exact .branch hb (hw.goes hg) (hw.falls hf)
  | resumed hb hg hf => exact .resumed hb (hw.goes hg) (hw.falls hf)
  | finish hg hf => exact .finish (hw.goes hg) (hw.falls hf)
  | leave hl hs => exact .leave hl (hs.mono fun _ _ _ => hw.share)
  | suspend hr => exact .suspend (hw.rests hr)

theorem Code.Operand.Same.not_label {share one other} (h : Operand.Same share one other)
    (label : Label) : one ≠ some (.label label) ∧ other ≠ some (.label label) := by
  cases h with
  | @absolute operand h => constructor <;> rintro ⟨⟩ <;> cases h
  | _ => constructor <;> rintro ⟨⟩

namespace Code.Instruction.Alike

variable {around : Surroundings} {shape : Shape} {one other : Instruction}
  (h : Instruction.Alike around shape one other) {label : Label}

include h

theorem goes_of_label (hl : one.operand = some (.label label)) :
    ∃ operand found, around.goes (.label label) operand found := by
  cases h with
  | plain _ hs _ | leave _ hs => exact absurd hl (hs.not_label label).1
  | jump hg | branch _ hg _ | resumed _ hg _ | finish hg _ =>
    cases hl
    exact ⟨_, _, hg⟩
  | _ => cases hl

theorem goes_of_label' (hl : other.operand = some (.label label)) :
    ∃ operand found, around.goes operand (.label label) found := by
  cases h with
  | plain _ hs _ | leave _ hs => exact absurd hl (hs.not_label label).2
  | jump hg | branch _ hg _ | resumed _ hg _ | finish hg _ =>
    cases hl
    exact ⟨_, _, hg⟩
  | _ => cases hl

end Code.Instruction.Alike

theorem Code.Declares.mono {share share' fns fns'}
    (hs : ∀ {a b constant}, share a b constant → share' a b constant) (hf : fns ≤ fns')
    {count one other} (h : Declares share fns count one other) :
    Declares share' fns' count one other := by
  induction h with
  | done => exact .done
  | bind hb hn _ ih => exact .bind hb (hs hn) ih
  | function hi hslot _ ih => exact .function (Nat.lt_of_lt_of_le hi hf) hslot ih

namespace Compile

/-! ## Ledgers -/

/-- The scopes of a program that is compiled under two options, and the operands that frames have
room for. -/
structure Choices where
  scopes : Scopes
  one : Options
  other : Options
  room : Nat
  tailCalls : one.tailCalls = other.tailCalls
  declares : 1 ≤ room
  dispatches : one.switchMinCases = other.switchMinCases ∨ 2 ≤ room

/-- What is known of two drafts. -/
structure Ledger where
  /-- Positions that correspond. -/
  seam : Nat → Nat → Prop
  /-- Positions at which the codes are in step. -/
  point : Points
  /-- Labels that stand for the same place. -/
  target : Label → Label → Shape → Prop

/-- A ledger that says no more than another. -/
structure Ledger.Within (ledger later : Ledger) : Prop where
  seam : ∀ {p q}, ledger.seam p q → later.seam p q
  point : ∀ {p q shape}, ledger.point p q shape → later.point p q shape
  target : ∀ {l m shape}, ledger.target l m shape → later.target l m shape

/-- Whether the label of a first draft is known. -/
def Ledger.knowsOne (ledger : Ledger) (label : Label) : Prop :=
  ∃ other shape, ledger.target label other shape

/-- Whether the label of a second draft is known. -/
def Ledger.knowsOther (ledger : Ledger) (label : Label) : Prop :=
  ∃ one shape, ledger.target one label shape

/-- Two emitters, what is known of them, and of the place where code is made now; nothing is
known of a place that is never reached. -/
structure Stage where
  ledger : Ledger
  here : Option Shape
  one : Emitter
  other : Emitter

/-! ## Code in step -/

def Emitter.Holds (em : Emitter) (position : Nat) (instructions : List Instruction) : Prop :=
  ∀ index, index < instructions.length →
    em.draft.instructions[position + index]? = instructions[index]?

/-- Instructions that stand at a position, in line or apart. -/
inductive Emitter.Stands (em : Emitter) (position : Nat) (instructions : List Instruction) :
    Nat → Prop
  | inline : em.Holds position instructions →
    Stands em position instructions (position + instructions.length)
  | apart {unit entry} :
    em.draft.instructions[position]? = some ⟨.callUnit, some (.unit unit)⟩ →
    em.apart[unit]? = some (entry, instructions ++ [⟨.returnUnit, none⟩]) →
    Stands em position instructions (position + 1)

/-- The tests of a switch at a position, one after the other. -/
inductive Emitter.Tests (em : Emitter) (reg : Nat) (otherwise : Label) :
    Nat → List (SwitchKey × Label) → Prop
  | done {position} :
    em.draft.instructions[position]? = some ⟨.jump, some (.label otherwise)⟩ →
    Tests em reg otherwise position []
  | case {position key target index constant rest} :
    em.draft.instructions[position]? = some ⟨.loadReg, some (.register reg)⟩ →
    em.draft.instructions[position + 1]? = some ⟨.const, some (.constant index)⟩ →
    em.draft.constants[index]? = some constant → key.Spells constant →
    em.draft.instructions[position + 2]? = some ⟨.relation .strictEqual, none⟩ →
    em.draft.instructions[position + 3]? = some ⟨.jumpIfTrue, some (.label target)⟩ →
    Tests em reg otherwise (position + 4) rest →
    Tests em reg otherwise position ((key, target) :: rest)

/-- Cases without those whose key occurred before. -/
def firstKeys (cases : List (SwitchKey × Label)) : List (SwitchKey × Label) :=
  cases.foldl (fun kept case => if kept.any (·.1 == case.1) then kept else kept ++ [case]) []

/-- The dispatch of a switch on a register, with the operands that it needs room for. -/
inductive Emitter.Dispatches (em : Emitter) (reg position : Nat)
    (cases : List (SwitchKey × Label)) (otherwise : Label) : Nat → Prop
  | table {index} :
    em.draft.instructions[position]? = some ⟨.loadReg, some (.register reg)⟩ →
    em.draft.instructions[position + 1]? = some ⟨.switchTable, some (.table index)⟩ →
    em.draft.tables[index]? = some ⟨firstKeys cases, otherwise⟩ →
    Dispatches em reg position cases otherwise 1
  | tests : em.Tests reg otherwise position cases →
    Dispatches em reg position cases otherwise 2

namespace Emitter

variable {em after : Emitter} (he : em.Extends after)

include he

theorem Holds.extends {position : Nat} {instructions : List Instruction}
    (h : em.Holds position instructions) : after.Holds position instructions := by
  intro index hi
  have hx := h index hi
  rw [List.getElem?_eq_getElem hi] at hx ⊢
  exact getElem?_of_leading he.instructions hx

theorem Stands.extends {position next : Nat} {instructions : List Instruction}
    (h : em.Stands position instructions next) : after.Stands position instructions next := by
  cases h with
  | inline h => exact .inline (h.extends he)
  | @apart _ entry hi ha =>
    obtain ⟨rest, hr⟩ := he.apart
    refine @Stands.apart _ _ _ _ entry (getElem?_of_leading he.instructions hi) ?_
    rw [← hr]
    rw [List.getElem?_append_left (List.getElem?_eq_some_iff.mp ha).1, ha]

theorem Tests.extends {reg position : Nat} {otherwise : Label}
    {cases : List (SwitchKey × Label)} (h : em.Tests reg otherwise position cases) :
    after.Tests reg otherwise position cases := by
  have lead := fun {index : Nat} {x} => @getElem?_of_leading _ _ _ he.instructions index x
  induction h with
  | done h => exact .done (lead h)
  | case h0 h1 hc hk h2 h3 _ ih =>
    exact .case (lead h0) (lead h1) (getElem?_of_leading he.constants hc) hk (lead h2) (lead h3) ih

theorem Dispatches.extends {reg position need : Nat} {cases : List (SwitchKey × Label)}
    {otherwise : Label} (h : em.Dispatches reg position cases otherwise need) :
    after.Dispatches reg position cases otherwise need := by
  have lead := fun {index : Nat} {x} => @getElem?_of_leading _ _ _ he.instructions index x
  cases h with
  | table h0 h1 ht => exact .table (lead h0) (lead h1) (getElem?_of_leading he.tables ht)
  | tests h => exact .tests (h.extends he)

end Emitter

namespace Stage

/-- Where code leads: to a point, or to where code is made now. -/
inductive Reaches (stage : Stage) (p q : Nat) (shape : Shape) : Prop
  | point {found} : stage.ledger.point p q found → shape.Fits found → Reaches stage p q shape
  | next {found} : p = stage.one.position → q = stage.other.position → stage.here = some found →
    shape.Fits found → Reaches stage p q shape

/-- A constant at its index in either draft. -/
def Share (stage : Stage) (a b : Nat) (constant : Constant) : Prop :=
  stage.one.draft.constants[a]? = some constant ∧ stage.other.draft.constants[b]? = some constant

/-- What instructions at two positions refer to. -/
def around (stage : Stage) (kind : Code.FunctionKind) (p q : Nat) : Surroundings where
  share := stage.Share
  goes one other shape := ∃ l m, one = .label l ∧ other = .label m ∧ stage.ledger.target l m shape
  rests state height := kind.isResumable = true ∧ ∃ l m,
    stage.one.draft.resume[state]? = some l ∧ stage.other.draft.resume[state]? = some m ∧
      stage.ledger.target l m ⟨height, .any⟩
  falls := stage.Reaches (p + 1) (q + 1)

/-- What makes two positions points. -/
inductive Sound (stage : Stage) (room : Nat) (kind : Code.FunctionKind) (p q : Nat)
    (shape : Shape) : Prop
  | step {one other} : stage.one.draft.instructions[p]? = some one →
    stage.other.draft.instructions[q]? = some other →
    Instruction.Alike (stage.around kind p q) shape one other → Sound stage room kind p q shape
  | declare {one other next next'} : shape = ⟨0, .cells 0⟩ → one ≠ [] →
    Code.Declares stage.Share stage.one.draft.functions.size 0 one other →
    stage.one.Stands p one next → stage.other.Stands q other next' →
    stage.Reaches next next' ⟨0, .any⟩ → Sound stage room kind p q shape
  | dispatch {reg one other otherwise otherwise' need need'} : need ≤ room → need' ≤ room →
    shape.height = 0 → stage.one.Dispatches reg p one otherwise need →
    stage.other.Dispatches reg q other otherwise' need' →
    List.Forall₂ (fun case case' => case.1 = case'.1 ∧
      stage.ledger.target case.2 case'.2 ⟨0, .any⟩) one other →
    stage.ledger.target otherwise otherwise' ⟨0, .any⟩ → Sound stage room kind p q shape

/-- A stage that comes after another. -/
structure Onward (stage later : Stage) : Prop where
  ledger : stage.ledger.Within later.ledger
  one : stage.one.Extends later.one
  other : stage.other.Extends later.other
  reaches : ∀ {p q shape}, stage.Reaches p q shape → later.Reaches p q shape

variable {stage later : Stage}

theorem Onward.share (h : stage.Onward later) {a b constant} (hs : stage.Share a b constant)
    : later.Share a b constant :=
  ⟨getElem?_of_leading h.one.constants hs.1, getElem?_of_leading h.other.constants hs.2⟩

theorem Onward.around (h : stage.Onward later) (kind : Code.FunctionKind) (p q : Nat) :
    (stage.around kind p q).Within (later.around kind p q) where
  share := h.share
  goes := by
    rintro one other shape ⟨l, m, ho, hm, ht⟩
    exact ⟨l, m, ho, hm, h.ledger.target ht⟩
  rests := by
    rintro state height ⟨hk, l, m, hl, hm, ht⟩
    exact ⟨hk, l, m, getElem?_of_leading h.one.resume hl, getElem?_of_leading h.other.resume hm,
      h.ledger.target ht⟩
  falls := h.reaches

theorem Sound.onward {room kind p q shape} (hs : stage.Sound room kind p q shape)
    (h : stage.Onward later) : later.Sound room kind p q shape := by
  cases hs with
  | step ho ht ha =>
    exact .step (getElem?_of_leading h.one.instructions ho)
      (getElem?_of_leading h.other.instructions ht) (ha.within (h.around kind p q))
  | declare he hne hd hst hst' hr =>
    exact .declare he hne (hd.mono h.share h.one.functions) (hst.extends h.one)
      (hst'.extends h.other) (h.reaches hr)
  | dispatch hn hn' he hd hd' hc ho =>
    exact .dispatch hn hn' he (hd.extends h.one) (hd'.extends h.other)
      (hc.imp fun _ _ hc => ⟨hc.1, h.ledger.target hc.2⟩) (h.ledger.target ho)

end Stage

end Compile

end Ecma
