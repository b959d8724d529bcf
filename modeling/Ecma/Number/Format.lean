/-
The two texts of a double. The language writes an exponent outside
`[1e-6, 1e21)`; a listing writes every digit and keeps the sign of zero.
-/
import Ecma.Number.Shortest

namespace Ecma.Number

/-- Digits without trailing zeros, and the number of them before the point. -/
structure Digits where
  digits : List Char
  point : Int

/-- The shortest digits of a positive number. -/
def Digits.of (significand : Nat) (exponent : Int) : Digits :=
  let decimal := shortest significand exponent
  let digits := Nat.toDigits 10 decimal.digits
  ⟨(digits.reverse.dropWhile (· == '0')).reverse, decimal.exponent + digits.length⟩

/-- Digits around a point, filled up with zeros on either side. -/
def Digits.positional (d : Digits) : List Char :=
  if d.point ≤ 0 then
    '0' :: '.' :: List.replicate (-d.point).toNat '0' ++ d.digits
  else
    let whole := d.point.toNat
    if d.digits.length ≤ whole then d.digits ++ List.replicate (whole - d.digits.length) '0'
    else d.digits.take whole ++ '.' :: d.digits.drop whole

/-- One digit before the point, then the power of ten with its sign; `plus` tells
whether a plus sign is written. -/
def Digits.exponential (plus : Bool) (d : Digits) : List Char :=
  let mantissa :=
    match d.digits with
    | [] => []
    | [first] => [first]
    | first :: rest => first :: '.' :: rest
  let power := d.point - 1
  let sign := if power < 0 then ['-'] else if plus then ['+'] else []
  mantissa ++ 'e' :: sign ++ Nat.toDigits 10 power.natAbs

/-- The texts that a writer of doubles fixes by itself. -/
structure Layout where
  nan : String
  infinity : String
  zero : Bool → String
  /-- Whether digits with this point are written positionally. -/
  positional : Int → Bool
  /-- Whether a power of ten that is not negative has a plus sign. -/
  plus : Bool := true

def Layout.text (layout : Layout) (x : Float) : String :=
  match shape x with
  | .nan => layout.nan
  | .infinite negative => if negative then "-" ++ layout.infinity else layout.infinity
  | .finite d =>
    if d.significand == 0 then layout.zero d.negative
    else
      let digits := Digits.of d.significand d.exponent
      let body :=
        if layout.positional digits.point then digits.positional
        else digits.exponential layout.plus
      String.ofList (if d.negative then '-' :: body else body)

/-- The text of a number in the language: positional from `1e-6` up to `1e21`,
and both zeros are `0`. -/
def languageLayout : Layout where
  nan := "NaN"
  infinity := "Infinity"
  zero := fun _ => "0"
  positional := fun point => -5 ≤ point && point ≤ 21

/-- The text of a number in a listing: always positional. -/
def listingLayout : Layout where
  nan := "NaN"
  infinity := "inf"
  zero := fun negative => if negative then "-0" else "0"
  positional := fun _ => true

def text (x : Float) : String := languageLayout.text x

def listing (x : Float) : String := listingLayout.text x

end Ecma.Number
