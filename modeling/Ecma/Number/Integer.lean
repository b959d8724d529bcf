/-
Doubles as integers: the integer part, the 32-bit views of the bitwise
operators, and the operators that need exact arithmetic.
-/
import Ecma.Number.Dyadic

namespace Ecma.Number

/-- The integer part of a finite double. -/
def truncate? (x : Float) : Option Int :=
  match shape x with
  | .finite d => some d.truncate
  | _ => none

/-- Whether a double is a finite integer; both zeros are. -/
def isIntegral (x : Float) : Bool :=
  match shape x with
  | .finite d => d.isWhole
  | _ => false

/-- The value of an integral double between two bounds. -/
def integerIn? (low high : Int) (x : Float) : Option Int :=
  if isIntegral x then
    (truncate? x).filter fun i => low ≤ i && i ≤ high
  else none

/-- The least and greatest signed 32-bit integers. -/
def minInt32 : Int := -2147483648

@[inherit_doc minInt32]
def maxInt32 : Int := 2147483647

/-- The greatest unsigned 32-bit integer. -/
def maxUint32 : Int := 4294967295

/-- The integer part modulo `2^32`; zero for what is not finite. -/
def word (x : Float) : BitVec 32 :=
  BitVec.ofInt 32 ((truncate? x).getD 0)

def toInt32 (x : Float) : Int := (word x).toInt

def toUint32 (x : Float) : Nat := (word x).toNat

def ofSigned (w : BitVec 32) : Float := Float.ofInt w.toInt

def ofUnsigned (w : BitVec 32) : Float := Float.ofNat w.toNat

def nan : Float := Float.ofBits 0x7FF8000000000000

def infinity (negative : Bool) : Float :=
  Float.ofBits (if negative then 0xFFF0000000000000 else 0x7FF0000000000000)

/-- The remainder of the division of magnitudes rounded toward zero, with the
sign of the dividend. -/
def remainder (a b : Float) : Float :=
  match shape a, shape b with
  | .finite _, .infinite _ => a
  | .finite x, .finite y =>
    if y.significand == 0 then nan
    else
      let unit := min x.exponent y.exponent
      let dividend := x.significand * Nat.pow 2 (x.exponent - unit).toNat
      let divisor := y.significand * Nat.pow 2 (y.exponent - unit).toNat
      Dyadic.toFloat ⟨x.negative, dividend % divisor, unit⟩
  | _, _ => nan

/-- Exponentiation; one to an infinite power is not a number, nor is anything
to a power that is not one. -/
def power (base exponent : Float) : Float :=
  if exponent.isNaN || (base.abs == 1 && exponent.isInf) then nan
  else Float.pow base exponent

/-- The arithmetic and bitwise operators on two numbers. -/
inductive Arithmetic where
  | sub | mul | div | rem | pow | and | or | xor | shiftLeft | shiftRight | shiftRightZero
  deriving DecidableEq, Repr

/-- The value of an operator. Shift counts are taken modulo 32. -/
def Arithmetic.apply : Arithmetic → Float → Float → Float
  | .sub, a, b => a - b
  | .mul, a, b => a * b
  | .div, a, b => a / b
  | .rem, a, b => remainder a b
  | .pow, a, b => power a b
  | .and, a, b => ofSigned (word a &&& word b)
  | .or, a, b => ofSigned (word a ||| word b)
  | .xor, a, b => ofSigned (word a ^^^ word b)
  | .shiftLeft, a, b => ofSigned (word a <<< (toUint32 b % 32))
  | .shiftRight, a, b => ofSigned ((word a).sshiftRight (toUint32 b % 32))
  | .shiftRightZero, a, b => ofUnsigned (word a >>> (toUint32 b % 32))

def complement (x : Float) : Float := ofSigned (~~~ word x)

/-- A signed view lies in the 32-bit range. -/
theorem toInt32_bounds (x : Float) : minInt32 ≤ toInt32 x ∧ toInt32 x ≤ maxInt32 := by
  have h₁ := BitVec.le_toInt (word x)
  have h₂ := BitVec.toInt_le (x := word x)
  simp only [toInt32, minInt32, maxInt32] at *
  omega

/-- An unsigned view lies in the 32-bit range. -/
theorem toUint32_lt (x : Float) : toUint32 x < Nat.pow 2 32 := (word x).isLt

end Ecma.Number
