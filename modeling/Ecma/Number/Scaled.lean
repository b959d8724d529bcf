/-
Decimal numerals in double arithmetic: the digits that fit into 64 bits make up
one double, which is scaled by powers of ten. Each step rounds, so the result can
differ in its last places from the double nearest to the numeral.
-/
import Ecma.Number.Reading

namespace Ecma.Number

/-- Appends digits to a natural number while it stays below `2^64`; the digits
from the first that does not fit are left. -/
def appendDigits (n : Nat) : List Char → Nat × List Char
  | [] => (n, [])
  | c :: rest =>
    let next := n * 10 + (c.toNat - 48)
    if next < Nat.pow 2 64 then appendDigits next rest else (n, c :: rest)

/-- The exponent of the greatest power of ten that is a finite double. -/
def maxPower : Nat := 308

def powerOfTen (exponent : Nat) : Float := scientific 1 exponent

/-- A double times a power of ten; none if the product is too large. A division by
more than the greatest power is done in steps, until nothing is left. -/
def scale? (x : Float) (exponent : Int) : Option Float :=
  if exponent.natAbs ≤ maxPower then
    let power := powerOfTen exponent.natAbs
    if exponent < 0 then some (x / power)
    else
      let product := x * power
      if product.isInf then none else some product
  else if x == 0 then some x
  else if exponent < 0 then scale? (x / powerOfTen maxPower) (exponent + maxPower)
  else none
termination_by exponent.natAbs
decreasing_by simp only [maxPower] at *; omega

/-- The double of a numeral; none if it is too large. Digits before the point that
do not fit count as zeros, and those after the point are left out. -/
def Numeral.scaled? (n : Numeral) : Option Float := do
  let (whole, dropped) := appendDigits 0 n.whole
  let (significand, unused) := appendDigits whole n.fraction
  let used : Int := n.fraction.length - unused.length
  let magnitude ← scale? (Float.ofNat significand) (n.exponent + dropped.length - used)
  return if n.negative then -magnitude else magnitude

end Ecma.Number
