/-
Reading JSON texts. A reader takes up a value from the front of a text and
returns the rest; nothing is repaired, so a malformed text has no value. Parts
that nobody asks for are skipped, which checks less than reading them.
-/
import Ecma.Json.Basic
import Ecma.Number.Scaled

namespace Ecma.Json

def isSpace (c : Char) : Bool :=
  c == ' ' || c == '\n' || c == '\t' || c == '\r'

def skipSpaces (text : List Char) : List Char :=
  text.dropWhile isSpace

/-- What is read of a value. -/
inductive Plan where
  /-- Nothing: only the grammar is checked, at any depth, for any magnitude and for
  any surrogate. -/
  | skip
  | all
  /-- Of an object the members with these names, the others being skipped; of an
  array the items as the members in their order. -/
  | record (fields : List (String × Plan))
  /-- Of an array every item in the same way. -/
  | list (item : Plan)

namespace Plan

def isSkip : Plan → Bool
  | skip => true
  | _ => false

/-- What is read of a member, none if it is left out. -/
def member? : Plan → String → Option Plan
  | skip, _ => some skip
  | record fields, name => fields.lookup name
  | _, _ => some all

def item : Plan → (index : Nat) → Plan
  | skip, _ => skip
  | all, _ => all
  | record fields, index => ((fields[index]?).map Prod.snd).getD all
  | list item, _ => item

end Plan

/-- The value of four hexadecimal digits. -/
def hex4? (a b c d : Char) : Option Nat :=
  Number.digitsValue? 16 [a, b, c, d]

def escaped? : Char → Option Char
  | '"' => some '"'
  | '\\' => some '\\'
  | '/' => some '/'
  | 'b' => some '\x08'
  | 'f' => some '\x0c'
  | 'n' => some '\n'
  | 'r' => some '\r'
  | 't' => some '\t'
  | _ => none

/-- The rest of a string after its opening quote; `read` holds the characters
so far, last first. Controls stand only in escapes, and surrogates only in
pairs unless the string is skipped. -/
def stringRest? (skipped : Bool) (read : List Char) : List Char → Option (String × List Char)
  | [] => none
  | '"' :: rest => some (String.ofList read.reverse, rest)
  | '\\' :: 'u' :: a :: b :: c :: d :: rest =>
    match hex4? a b c d with
    | none => none
    | some unit =>
      if unit < 0xD800 || 0xDFFF < unit then stringRest? skipped (Char.ofNat unit :: read) rest
      else if skipped then stringRest? skipped ('�' :: read) rest
      else
        match rest with
        | '\\' :: 'u' :: e :: f :: g :: h :: rest =>
          match hex4? e f g h with
          | none => none
          | some low =>
            if unit ≤ 0xDBFF && 0xDC00 ≤ low && low ≤ 0xDFFF then
              let c := Char.ofNat (0x10000 + (unit - 0xD800) * 0x400 + (low - 0xDC00))
              stringRest? skipped (c :: read) rest
            else none
        | _ => none
  | '\\' :: c :: rest =>
    match escaped? c with
    | none => none
    | some c => stringRest? skipped (c :: read) rest
  | c :: rest => if c.toNat < 0x20 then none else stringRest? skipped (c :: read) rest

/-- The value of a numeral: an integer if it is written as one and fits into 64
bits, else a double, which has to be finite. -/
def numeralValue? (numeral : Number.Numeral) (isInteger : Bool) : Option Json :=
  let n := Number.decimalValue numeral.whole
  if isInteger && numeral.negative && 0 < n && n ≤ Nat.pow 2 63 then some (.integer (-(n : Int)))
  else if isInteger && !numeral.negative && n < Nat.pow 2 64 then some (.integer n)
  else numeral.scaled?.map .real

/-- A number at the front of a text; it is null if it is skipped. -/
def number? (skipped : Bool) (text : List Char) : Option (Json × List Char) :=
  let negative := text.head? == some '-'
  let text := if negative then text.drop 1 else text
  let whole := text.takeWhile Char.isDigit
  let rest := text.dropWhile Char.isDigit
  if whole.isEmpty || (whole.head? == some '0' && 1 < whole.length) then none
  else
    let pointed := rest.head? == some '.'
    let fraction := if pointed then (rest.drop 1).takeWhile Char.isDigit else []
    let rest := if pointed then (rest.drop 1).dropWhile Char.isDigit else rest
    if pointed && fraction.isEmpty then none
    else
      let scaled := rest.head? == some 'e' || rest.head? == some 'E'
      let (down, digits) := if scaled then Number.readSign (rest.drop 1) else (false, [])
      let power := digits.takeWhile Char.isDigit
      let rest := if scaled then digits.dropWhile Char.isDigit else rest
      if scaled && power.isEmpty then none
      else
        let n := (Number.decimalValue power : Int)
        let numeral := ⟨negative, whole, fraction, if down then -n else n⟩
        if skipped then some (.null, rest)
        else (numeralValue? numeral (!pointed && !scaled)).map fun value => (value, rest)

mutual

/-- A value at the front of a text. What is not skipped has at most `depth` levels
of arrays and objects. Every level and every part takes up a character, so that
the length of the text is fuel enough. -/
def value? : (fuel : Nat) → (plan : Plan) → (depth : Nat) → List Char →
    Option (Json × List Char)
  | 0, _, _, _ => none
  | fuel + 1, plan, depth, text =>
    match skipSpaces text with
    | 'n' :: 'u' :: 'l' :: 'l' :: rest => some (.null, rest)
    | 't' :: 'r' :: 'u' :: 'e' :: rest => some (.bool true, rest)
    | 'f' :: 'a' :: 'l' :: 's' :: 'e' :: rest => some (.bool false, rest)
    | '"' :: rest => (stringRest? plan.isSkip [] rest).map fun (s, rest) => (.string s, rest)
    | '[' :: rest =>
      if depth == 0 && !plan.isSkip then none
      else
        match skipSpaces rest with
        | ']' :: rest => some (.array [], rest)
        | rest =>
          (items? fuel plan 0 (depth - 1) rest).map fun (items, rest) => (.array items, rest)
    | '\x7b' :: rest =>
      if depth == 0 && !plan.isSkip then none
      else
        match skipSpaces rest with
        | '\x7d' :: rest => some (.object [], rest)
        | rest =>
          (members? fuel plan (depth - 1) rest).map fun (members, rest) => (.object members, rest)
    | text => number? plan.isSkip text

/-- The items of an array from an index on, up to its closing bracket. -/
def items? : (fuel : Nat) → (plan : Plan) → (index depth : Nat) → List Char →
    Option (List Json × List Char)
  | 0, _, _, _, _ => none
  | fuel + 1, plan, index, depth, text => do
    let (item, rest) ← value? fuel (plan.item index) depth text
    match skipSpaces rest with
    | ',' :: rest =>
      let (items, rest) ← items? fuel plan (index + 1) depth rest
      return (item :: items, rest)
    | ']' :: rest => return ([item], rest)
    | _ => none

/-- The members of an object that are read, up to its closing brace. -/
def members? : (fuel : Nat) → (plan : Plan) → (depth : Nat) → List Char →
    Option (List (String × Json) × List Char)
  | 0, _, _, _ => none
  | fuel + 1, plan, depth, text => do
    match skipSpaces text with
    | '"' :: rest =>
      let (name, rest) ← stringRest? plan.isSkip [] rest
      match skipSpaces rest with
      | ':' :: rest =>
        let part? := plan.member? name
        let (value, rest) ← value? fuel (part?.getD .skip) depth rest
        let own := if part?.isSome then [(name, value)] else []
        match skipSpaces rest with
        | ',' :: rest =>
          let (members, rest) ← members? fuel plan depth rest
          return (own ++ members, rest)
        | '\x7d' :: rest => return (own, rest)
        | _ => none
      | _ => none
    | _ => none

end

/-- What is planned of the value of a whole text, with at most `depth` levels. -/
def ofText? (plan : Plan) (depth : Nat) (text : String) : Option Json :=
  let text := text.toList
  match value? (text.length + 1) plan depth text with
  | some (value, rest) => if (skipSpaces rest).isEmpty then some value else none
  | none => none

end Ecma.Json
