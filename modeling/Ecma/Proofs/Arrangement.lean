/-
The order of handlers. Each serves a statement and protects code of it. Handlers are laid out as
the statements stand in the tree: of two that protect the same instruction, the one that is
listed first lies inside the other, in the code and in the tree.
-/
import Mathlib.Logic.Relation
import Ecma.Compile.Emitter
import Ecma.Syntax.Tree

namespace Ecma

open Code (HandlerKind Handler DraftHandler)
open Syntax (Stmt)

/-! ## Statements in statements -/

/-- The statements that a statement is made of. -/
def Syntax.Stmt.parts {σ : Type} : Stmt σ → List (Stmt σ)
  | .block body => body.body
  | .ifElse _ consequent alternate => consequent :: alternate.toList
  | .switchOn _ _ cases => cases.flatMap fun clause => clause.consequent
  | .whileDo _ body | .doWhile body _ | .forLoop _ _ _ _ body | .forIn _ _ _ body
  | .forOf _ _ _ body | .withObject _ _ body | .labelled _ body => [body]
  | .tryBlock body handler finalizer => body.body ++
      handler.toList.flatMap (fun clause => clause.body.body) ++
      finalizer.toList.flatMap fun block => block.body
  | _ => []

/-- A statement that stands in another, at any depth. -/
def Syntax.Stmt.Inside {σ : Type} : Stmt σ → Stmt σ → Prop :=
  Relation.TransGen fun inner outer => inner ∈ outer.parts

/-- A statement that is one of several, or stands in one of them. -/
def Syntax.Stmt.Within {σ : Type} (stmt : Stmt σ) (body : List (Stmt σ)) : Prop :=
  ∃ part ∈ body, stmt = part ∨ stmt.Inside part

def Syntax.Body.statements {σ : Type} : Body σ → List (Stmt σ)
  | .block body => body
  | .expression _ => []

namespace Compile

/-! ## Protected ranges -/

/-- What a handler protects, and how. -/
structure Span where
  start : Nat
  stop : Nat
  kind : HandlerKind

def Span.linked (handler : Handler) : Span := ⟨handler.start, handler.stop, handler.kind⟩

def Span.of (handler : DraftHandler) : Span := ⟨handler.start, handler.stop, handler.kind⟩

/-- Whether handlers of a kind belong to a statement. -/
def Serves {σ : Type} : HandlerKind → Stmt σ → Prop
  | .catches, .tryBlock _ (some _) _ => True
  | .finalizes _, .tryBlock _ _ (some _) | .supersedes _, .tryBlock _ _ (some _) => True
  | .closes _, .forOf _ _ _ _ => True
  | _, _ => False

/-- A handler with the statement that it serves, and the code of that statement which has to be
protected. The iterator of a loop is not closed twice, so that the range of its handler may leave
out some of the code. -/
structure Guard extends Span where
  owner : Stmt (Option ScopeId)
  low : Nat
  high : Nat

namespace Guard

structure Sound (guard : Guard) : Prop where
  serves : Serves guard.kind guard.owner
  low : guard.low ≤ guard.start
  high : guard.stop ≤ guard.high
  whole : (∀ register, guard.kind ≠ .closes register) →
    guard.low = guard.start ∧ guard.high = guard.stop

/-- One handler lies inside another: its statement does, or it catches what the same statement
finalizes. -/
structure Inner (guard outer : Guard) : Prop where
  low : outer.low ≤ guard.low
  high : guard.high ≤ outer.high
  owner : guard.owner.Inside outer.owner ∨ guard.owner = outer.owner ∧ guard.kind = .catches ∧
    ∃ register, outer.kind = .finalizes register

/-- One handler is listed before another. -/
def Before (guard later : Guard) : Prop := guard.stop ≤ later.start ∨ guard.Inner later

end Guard

/-- Handlers of the code between two positions, as they are listed. -/
structure Layout (low high : Nat) (guards : List Guard) : Prop where
  le : low ≤ high
  within : ∀ guard ∈ guards, guard.Sound ∧ low ≤ guard.low ∧ guard.high ≤ high
  order : guards.Pairwise Guard.Before

namespace Layout

variable {low mid high : Nat} {guards more : List Guard}

theorem nil (h : low ≤ high) : Layout low high [] := ⟨h, nofun, .nil⟩

theorem append (h : Layout low mid guards) (h' : Layout mid high more) :
    Layout low high (guards ++ more) where
  le := Nat.le_trans h.le h'.le
  within := by
    refine List.forall_mem_append.mpr ⟨fun guard hg => ?_, fun guard hg => ?_⟩
    · obtain ⟨hs, hl, hh⟩ := h.within guard hg
      exact ⟨hs, hl, Nat.le_trans hh h'.le⟩
    · obtain ⟨hs, hl, hh⟩ := h'.within guard hg
      exact ⟨hs, Nat.le_trans h.le hl, hh⟩
  order := by
    refine List.pairwise_append.mpr ⟨h.order, h'.order, fun guard hg later hl => .inl ?_⟩
    obtain ⟨hs, -, hh⟩ := h.within guard hg
    obtain ⟨hs', hl, -⟩ := h'.within later hl
    have := hs.high
    have := hs'.low
    omega

/-- A statement protects the code between the positions by handlers of its own. -/
theorem around (h : Layout low high guards) (hm : ∀ guard ∈ more, guard.Sound ∧ guard.low = low ∧
      guard.high = high) (ho : more.Pairwise fun guard later => guard.stop ≤ later.start)
    (hi : ∀ guard ∈ guards, ∀ outer ∈ more, guard.owner.Inside outer.owner ∨
      guard.owner = outer.owner ∧ guard.kind = .catches ∧
        ∃ register, outer.kind = .finalizes register) :
    Layout low high (guards ++ more) where
  le := h.le
  within := by
    refine List.forall_mem_append.mpr ⟨h.within, fun guard hg => ?_⟩
    obtain ⟨hs, hl, hh⟩ := hm guard hg
    exact ⟨hs, Nat.le_of_eq hl.symm, Nat.le_of_eq hh⟩
  order := by
    refine List.pairwise_append.mpr ⟨h.order, ho.imp .inl, fun guard hg outer hl => .inr ?_⟩
    obtain ⟨-, hlow, hhigh⟩ := h.within guard hg
    obtain ⟨-, hl', hh'⟩ := hm outer hl
    exact ⟨by omega, by omega, hi guard hg outer hl⟩

end Layout

end Compile

end Ecma
