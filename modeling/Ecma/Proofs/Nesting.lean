/-
Handlers in compiled code. Of the handlers over an instruction, each lies inside those that are
listed after it, so that an exception meets the innermost statement first: the first handler that
takes control belongs to the innermost statement around, and those that it passes lie inside.
-/
import Ecma.Proofs.TotalTree

namespace Ecma

open Code (Handler Template)
open Compile (Guard Span)
open Syntax (Stmt Program)

/-! ## Strictness -/

/-- Whether a guard protects an instruction. -/
def Compile.Guard.covers (guard : Guard) (position : Nat) : Bool :=
  guard.start ≤ position && position < guard.stop

/-- Of handlers that protect one instruction, the first lies inside the second. -/
theorem Compile.Layout.inner {low high guards} (h : Compile.Layout low high guards)
    (position : Nat) :
    (guards.filter fun guard => guard.covers position).Pairwise Guard.Inner := by
  refine (h.order.filter _).imp_of_mem fun {guard outer} hg ho hb => hb.resolve_left fun hle => ?_
  have hg := (List.mem_filter.mp hg).2
  have ho := (List.mem_filter.mp ho).2
  simp only [Compile.Guard.covers, Bool.and_eq_true, decide_eq_true_eq] at hg ho
  omega

end Ecma
