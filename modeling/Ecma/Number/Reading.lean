/-
Reading numbers: decimal numerals, numerals with a radix mark, and the number
that a string denotes.
-/
import Ecma.Number.Integer
import Ecma.Text.Blank

namespace Ecma.Number

/-- The value of a digit below the radix; letters count in either case. -/
def digitValue? (radix : Nat) (c : Char) : Option Nat :=
  let n := c.toNat
  let value? :=
    if '0' ≤ c && c ≤ '9' then some (n - 48)
    else if 'a' ≤ c && c ≤ 'z' then some (n - 87)
    else if 'A' ≤ c && c ≤ 'Z' then some (n - 55)
    else none
  value?.filter (· < radix)

/-- The value of a sequence of digits, most significant first. -/
def digitsValue? (radix : Nat) (digits : List Char) : Option Nat :=
  digits.foldlM (fun n c => (digitValue? radix c).map fun d => n * radix + d) 0

/-- The value of decimal digits, most significant first. -/
def decimalValue (digits : List Char) : Nat :=
  digits.foldl (fun n c => n * 10 + (c.toNat - 48)) 0

/-- The double nearest to `m · 10^e`. -/
def scientific (m : Nat) (e : Int) : Float :=
  if e < 0 then Float.ofScientific m true e.natAbs else Float.ofScientific m false e.natAbs

/-- A decimal numeral: digits before and after the point, and the exponent. -/
structure Numeral where
  negative : Bool
  whole : List Char
  fraction : List Char
  exponent : Int
  deriving DecidableEq, Repr

def Numeral.value (n : Numeral) : Float :=
  let magnitude := scientific (decimalValue (n.whole ++ n.fraction))
    (n.exponent - (n.fraction.length : Int))
  if n.negative then -magnitude else magnitude

/-- An optional sign, and what follows it. -/
def readSign : List Char → Bool × List Char
  | '-' :: rest => (true, rest)
  | '+' :: rest => (false, rest)
  | rest => (false, rest)

/-- An exponent mark with its signed digits, or nothing, up to the end. -/
def readExponent? : List Char → Option Int
  | [] => some 0
  | mark :: rest =>
    if mark == 'e' || mark == 'E' then
      let (negative, digits) := readSign rest
      if digits.isEmpty || !digits.all Char.isDigit then none
      else
        let n := (decimalValue digits : Int)
        some (if negative then -n else n)
    else none

/-- An optionally signed decimal numeral that takes up the whole text: a digit
at least on one side of the point, and an optional exponent. -/
def readNumeral? (text : List Char) : Option Numeral :=
  let (negative, text) := readSign text
  let whole := text.takeWhile Char.isDigit
  let afterWhole := text.dropWhile Char.isDigit
  let (fraction, rest) :=
    match afterWhole with
    | '.' :: rest => (rest.takeWhile Char.isDigit, rest.dropWhile Char.isDigit)
    | rest => ([], rest)
  if whole.isEmpty && fraction.isEmpty then none
  else (readExponent? rest).map fun exponent => ⟨negative, whole, fraction, exponent⟩

/-- The digits after a radix mark, as a 64-bit unsigned integer with an optional
plus sign. -/
def readRadix? (radix : Nat) (text : List Char) : Option Nat :=
  let digits :=
    match text with
    | '+' :: c :: rest => c :: rest
    | text => text
  if digits.isEmpty then none
  else (digitsValue? radix digits).filter (· < Nat.pow 2 64)

/-- The radix of a text that starts with a radix mark, and the text after it. -/
def radixMark? : List Char → Option (Nat × List Char)
  | '0' :: mark :: rest =>
    if mark == 'x' || mark == 'X' then some (16, rest)
    else if mark == 'o' || mark == 'O' then some (8, rest)
    else if mark == 'b' || mark == 'B' then some (2, rest)
    else none
  | _ => none

/-- The number that a trimmed text denotes, if it denotes one. -/
def readTrimmed? (text : List Char) : Option Float :=
  if text.isEmpty then some 0
  else if text == "Infinity".toList || text == "+Infinity".toList then some (infinity false)
  else if text == "-Infinity".toList then some (infinity true)
  else
    match radixMark? text with
    | some (radix, digits) => (readRadix? radix digits).map Float.ofNat
    | none => (readNumeral? text).map Numeral.value

/-- The number that a string denotes; not a number if it denotes none. -/
def ofString (s : String) : Float :=
  (readTrimmed? (Text.trim s.toList)).getD nan

/-- The array index that a property key denotes: a numeral of at most
`4294967295`, without leading zeros and with an optional plus sign. -/
def arrayIndex? (s : String) : Option Nat :=
  match s.toList with
  | [] => none
  | '0' :: _ :: _ => none
  | '+' :: c :: rest => (digitsValue? 10 (c :: rest)).filter (· < Nat.pow 2 32)
  | digits => (digitsValue? 10 digits).filter (· < Nat.pow 2 32)

end Ecma.Number
