/-
A double taken apart: not a number, infinite, or an integer times a power of
two. Everything that must be exact (integer parts, remainders, shortest
decimals) is computed on these parts.
-/
namespace Ecma.Number

/-- The number `(-1)^negative · significand · 2^exponent`. -/
structure Dyadic where
  negative : Bool
  significand : Nat
  exponent : Int
  deriving DecidableEq, Repr

/-- What a double is. -/
inductive Shape where
  | nan
  | infinite (negative : Bool)
  | finite (value : Dyadic)
  deriving DecidableEq, Repr

def signBit (x : Float) : Bool :=
  x.toBits.toNat / Nat.pow 2 63 == 1

/-- The parts of a double, read off its 64 bits. -/
def shape (x : Float) : Shape :=
  let bits := x.toBits.toNat
  let biased : Nat := bits / Nat.pow 2 52 % 2048
  let fraction : Nat := bits % Nat.pow 2 52
  let negative := signBit x
  if biased == 2047 then
    if fraction == 0 then .infinite negative else .nan
  else if biased == 0 then .finite ⟨negative, fraction, -1074⟩
  else .finite ⟨negative, fraction + Nat.pow 2 52, (biased : Int) - 1075⟩

namespace Dyadic

/-- The magnitude rounded toward zero. -/
def wholePart (d : Dyadic) : Nat :=
  if 0 ≤ d.exponent then d.significand * Nat.pow 2 d.exponent.toNat
  else d.significand / Nat.pow 2 (-d.exponent).toNat

def isWhole (d : Dyadic) : Bool :=
  0 ≤ d.exponent || d.significand % Nat.pow 2 (-d.exponent).toNat == 0

def truncate (d : Dyadic) : Int :=
  if d.negative then -(d.wholePart : Int) else d.wholePart

/-- The double with this value, for a value that a double can hold. -/
def toFloat (d : Dyadic) : Float :=
  let sign := if d.negative then Nat.pow 2 63 else 0
  if d.significand == 0 then Float.ofBits (UInt64.ofNat sign)
  else
    let unit := max (d.exponent + d.significand.log2 - 52) (-1074)
    let scaled :=
      if unit ≤ d.exponent then d.significand * Nat.pow 2 (d.exponent - unit).toNat
      else d.significand / Nat.pow 2 (unit - d.exponent).toNat
    let biased := if scaled < Nat.pow 2 52 then 0 else (unit + 1075).toNat
    Float.ofBits (UInt64.ofNat (sign + biased * Nat.pow 2 52 + scaled % Nat.pow 2 52))

end Dyadic

end Ecma.Number
