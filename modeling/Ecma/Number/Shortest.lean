/-
The shortest decimal of a double: of all decimals that read back as the
double, those with the fewest digits, and of these the nearest one. A tie goes
to the greater.
-/
import Ecma.Number.Dyadic

namespace Ecma.Number

/-- The number `digits · 10^exponent`. -/
structure Decimal where
  digits : Nat
  exponent : Int
  deriving DecidableEq, Repr

/-- `base ^ k` as a fraction of two naturals. -/
def powerRatio (base : Nat) (k : Int) : Nat × Nat :=
  if 0 ≤ k then (Nat.pow base k.toNat, 1) else (1, Nat.pow base (-k).toNat)

/-- Whether `significand · 2^exponent` is at least `10^k`. -/
def reachesPower (significand : Nat) (exponent k : Int) : Bool :=
  let (num₂, den₂) := powerRatio 2 exponent
  let (num₁₀, den₁₀) := powerRatio 10 k
  num₁₀ * den₂ ≤ significand * num₂ * den₁₀

/-- The number of digits before the point of a positive number (not positive
for one below a tenth): the least `p` with `significand · 2^exponent < 10^p`. -/
def pointPosition (significand : Nat) (exponent : Int) : Int :=
  let guess := (exponent + significand.log2) * 30103 / 100000 - 1
  ((List.range 5).map fun (i : Nat) => guess + (i : Int)).find?
      (fun p => !reachesPower significand exponent p)
    |>.getD (guess + 5)

/-- The best multiple of `10^k` that reads back as the number, if there is one.
The decimals that read back lie at most half a unit above and, below, half a
unit or, at a power of two, a quarter; the ends belong to them for an even
significand. -/
def multipleAt? (significand : Nat) (exponent k : Int) : Option Nat :=
  let (num₂, den₂) := powerRatio 2 (exponent - 2)
  let (num₁₀, den₁₀) := powerRatio 10 k
  let num := num₂ * den₁₀
  let den := den₂ * num₁₀
  let value := 4 * significand * num
  let low := (4 * significand - if significand == Nat.pow 2 52 then 1 else 2) * num
  let high := (4 * significand + 2) * num
  let readsBack := fun (x : Nat) =>
    if significand % 2 == 0 then low ≤ x && x ≤ high else low < x && x < high
  let below := value / den
  let above := below + 1
  match readsBack (below * den), readsBack (above * den) with
  | true, true => some (if value - below * den < above * den - value then below else above)
  | true, false => some below
  | false, true => some above
  | false, false => none

/-- The shortest decimal of `significand · 2^exponent`: 17 digits always do. -/
def shortest (significand : Nat) (exponent : Int) : Decimal :=
  let point := pointPosition significand exponent
  ((List.range 17).findSome? fun (i : Nat) =>
      let k := point - (i : Int) - 1
      (multipleAt? significand exponent k).map fun digits => ⟨digits, k⟩)
    |>.getD ⟨0, 0⟩

end Ecma.Number
