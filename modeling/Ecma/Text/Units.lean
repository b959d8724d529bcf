/-
The UTF-16 units of a string. Lengths, indices and the order of strings count
in these units, although a string itself holds whole characters.
-/
namespace Ecma.Text

/-- The units of one character: itself, or a surrogate pair above U+FFFF. -/
def charUnits (c : Char) : List Nat :=
  let n := c.toNat
  if n < 0x10000 then [n]
  else [0xD800 + (n - 0x10000) / 0x400, 0xDC00 + (n - 0x10000) % 0x400]

/-- The units of a string, in order. -/
def units (s : String) : List Nat :=
  s.toList.flatMap charUnits

/-- The string of one unit; half of a pair reads as U+FFFD. -/
def ofUnit (unit : Nat) : String :=
  if 0xD800 ≤ unit && unit ≤ 0xDFFF then "�" else String.singleton (Char.ofNat unit)

/-- Lexicographic order of unit sequences. -/
def unitsLt : List Nat → List Nat → Bool
  | _, [] => false
  | [], _ :: _ => true
  | a :: as, b :: bs => a < b || (a == b && unitsLt as bs)

/-- The order of strings: by their units. -/
def lt (a b : String) : Bool :=
  unitsLt (units a) (units b)

theorem unitsLt_irrefl (us : List Nat) : unitsLt us us = false := by
  induction us with
  | nil => rfl
  | cons u us ih => simp [unitsLt, ih]

theorem lt_irrefl (s : String) : lt s s = false := unitsLt_irrefl _

end Ecma.Text
