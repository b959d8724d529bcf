/-
Which characters a quoted text shows as they are. Characters without a visible
shape could not be told apart, and combining marks would attach to the quote
before them.
-/
import Ecma.Text.Combining
import Ecma.Text.Shapeless

namespace Ecma.Text

/-- Whether `n` lies in every second one of the runs. -/
def inRuns : List Nat → Nat → Bool
  | outside :: inside :: rest, n =>
    outside ≤ n && (n < outside + inside || inRuns rest (n - (outside + inside)))
  | _, _ => false

/-- Whether a quoted text shows the character itself. -/
def isPrintable (c : Char) : Bool :=
  let n := c.toNat
  (0x20 ≤ n && n ≤ 0x7E) || !(inRuns shapeless n || inRuns combining n)

end Ecma.Text
