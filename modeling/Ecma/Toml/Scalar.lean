/-
The parts of TOML texts that hold no others: blanks, strings, names, numbers,
truth values, dates and times.
-/
import Ecma.Number.Reading
import Ecma.Toml.Basic

namespace Ecma.Toml

/-- What may be read from the front of a text, and what follows it. -/
abbrev Front (α : Type) : Type := α × List Char

/-! ## Characters -/

def isBlank (c : Char) : Bool := c == ' ' || c == '\t'

/-- Characters that may stand in comments and strings. -/
def isText (c : Char) : Bool := c == '\t' || (c.toNat ≥ 0x20 && c.toNat != 0x7F)

/-- Characters of names without quotes. -/
def isBare (c : Char) : Bool := c.isAlphanum || c == '_' || c == '-'

/-- Characters of values without quotes. -/
def isPlain (c : Char) : Bool := isBare c || c == '+' || c == '.' || c == ':'

def skipBlank (text : List Char) : List Char := text.dropWhile isBlank

/-- What follows the end of a line that a text starts with. -/
def afterNewline? : List Char → Option (List Char)
  | '\n' :: rest => some rest
  | '\r' :: '\n' :: rest => some rest
  | _ => none

/-! ## Strings -/

def escaped? : Char → Option Char
  | 'b' => some '\x08'
  | 't' => some '\t'
  | 'n' => some '\n'
  | 'f' => some '\x0c'
  | 'r' => some '\r'
  | '"' => some '"'
  | '\\' => some '\\'
  | _ => none

/-- The character with a code in hexadecimal digits. -/
def coded? (digits : List Char) : Option Char := do
  let code ← Number.digitsValue? 16 digits
  if code.isValidChar then some (Char.ofNat code) else none

def Front.cons (c : Char) (front : Front (List Char)) : Front (List Char) :=
  (c :: front.1, front.2)

def readEscaped : List Char → Option (Front (List Char))
  | '"' :: rest => some ([], rest)
  | '\\' :: 'u' :: a :: b :: c :: d :: rest => do
    let first ← coded? [a, b, c, d]
    return (← readEscaped rest).cons first
  | '\\' :: 'U' :: a :: b :: c :: d :: e :: f :: g :: h :: rest => do
    let first ← coded? [a, b, c, d, e, f, g, h]
    return (← readEscaped rest).cons first
  | '\\' :: c :: rest => do
    let first ← escaped? c
    return (← readEscaped rest).cons first
  | c :: rest =>
    if c ≠ '\\' && isText c then do return (← readEscaped rest).cons c else none
  | [] => none

/-- The rest of a string without escapes. -/
def readLiteral : List Char → Option (Front (List Char))
  | '\'' :: rest => some ([], rest)
  | c :: rest => if isText c then do return (← readLiteral rest).cons c else none
  | [] => none

/-- The rest of a string with escapes over several lines. After a backslash at the
end of a line, blanks and ends of lines are skipped. Up to two quotes may stand
before the three that end it. -/
def readEscapedLines (skipping : Bool) : List Char → Option (Front (List Char))
  | '"' :: '"' :: '"' :: '"' :: '"' :: rest => some (['"', '"'], rest)
  | '"' :: '"' :: '"' :: '"' :: rest => some (['"'], rest)
  | '"' :: '"' :: '"' :: rest => some ([], rest)
  | '\\' :: 'u' :: a :: b :: c :: d :: rest => do
    let first ← coded? [a, b, c, d]
    return (← readEscapedLines false rest).cons first
  | '\\' :: 'U' :: a :: b :: c :: d :: e :: f :: g :: h :: rest => do
    let first ← coded? [a, b, c, d, e, f, g, h]
    return (← readEscapedLines false rest).cons first
  | '\\' :: c :: rest =>
    if (afterNewline? (skipBlank (c :: rest))).isSome then readEscapedLines true (c :: rest)
    else do
      let first ← escaped? c
      return (← readEscapedLines false rest).cons first
  | '\r' :: '\n' :: rest =>
    if skipping then readEscapedLines true rest
    else do return (← readEscapedLines false rest).cons '\n'
  | c :: rest =>
    if skipping && (isBlank c || c == '\n') then readEscapedLines true rest
    else if c ≠ '\\' && (isText c || c == '\n') then do
      return (← readEscapedLines false rest).cons c
    else none
  | [] => none

/-- The rest of a string without escapes over several lines. -/
def readLiteralLines : List Char → Option (Front (List Char))
  | '\'' :: '\'' :: '\'' :: '\'' :: '\'' :: rest => some (['\'', '\''], rest)
  | '\'' :: '\'' :: '\'' :: '\'' :: rest => some (['\''], rest)
  | '\'' :: '\'' :: '\'' :: rest => some ([], rest)
  | '\r' :: '\n' :: rest => do return (← readLiteralLines rest).cons '\n'
  | c :: rest =>
    if isText c || c == '\n' then do return (← readLiteralLines rest).cons c else none
  | [] => none

/-- A text without the end of a line in front. -/
def skipNewline (text : List Char) : List Char := (afterNewline? text).getD text

/-- A string, if the text starts with a quote. -/
def readString? : List Char → Option (Option (Front (List Char)))
  | '"' :: '"' :: '"' :: rest => some (readEscapedLines false (skipNewline rest))
  | '\'' :: '\'' :: '\'' :: rest => some (readLiteralLines (skipNewline rest))
  | '"' :: rest => some (readEscaped rest)
  | '\'' :: rest => some (readLiteral rest)
  | _ => none

/-! ## Names -/

/-- A name, with or without quotes. -/
def readName : List Char → Option (Front String)
  | '"' :: rest => (readEscaped rest).map fun (text, rest) => (String.ofList text, rest)
  | '\'' :: rest => (readLiteral rest).map fun (text, rest) => (String.ofList text, rest)
  | text =>
    match text.span isBare with
    | ([], _) => none
    | (name, rest) => some (String.ofList name, rest)

/-- At most `count` names with points between them, and what follows them and blanks. -/
def readNames : (count : Nat) → List Char → Option (Front (List String))
  | 0, _ => none
  | count + 1, text => do
    let (name, rest) ← readName (skipBlank text)
    match skipBlank rest with
    | '.' :: rest =>
      let (path, rest) ← readNames count rest
      return (name :: path, rest)
    | rest => return ([name], rest)

/-- The greatest number of names in a path, and of levels in a value. -/
def maxLevels : Nat := 79

/-- A path, and what follows it and blanks. -/
def readPath (text : List Char) : Option (Front (List String)) := readNames maxLevels text

/-! ## Numbers -/

/-- Digits of a radix, which may be grouped by single underscores. -/
def readDigits? (radix : Nat) : List Char → Option (List Char)
  | [] => none
  | [c] => if (Number.digitValue? radix c).isSome then some [c] else none
  | c :: '_' :: rest =>
    if (Number.digitValue? radix c).isSome then (c :: ·) <$> readDigits? radix rest else none
  | c :: rest =>
    if (Number.digitValue? radix c).isSome then (c :: ·) <$> readDigits? radix rest else none

/-- Decimal digits without needless zeros in front. -/
def readWhole? (text : List Char) : Option (List Char) := do
  let digits ← readDigits? 10 text
  if digits.head? = some '0' && digits.length > 1 then none else some digits

/-- An integer of 64 bits. -/
def inRange? (value : Int) : Option Toml :=
  if -9223372036854775808 ≤ value && value ≤ 9223372036854775807 then some (.integer value)
  else none

def readInteger? : List Char → Option Toml
  | '0' :: 'x' :: digits => radix? 16 digits
  | '0' :: 'o' :: digits => radix? 8 digits
  | '0' :: 'b' :: digits => radix? 2 digits
  | text => do
    let (negative, digits) := Number.readSign text
    let value : Int := Number.decimalValue (← readWhole? digits)
    inRange? (if negative then -value else value)
where
  radix? (radix : Nat) (digits : List Char) : Option Toml := do
    inRange? (← Number.digitsValue? radix (← readDigits? radix digits))

/-- A number with a fraction, an exponent or both, that is not above all doubles. -/
def readDecimal? (negative : Bool) (text : List Char) : Option Toml := do
  let (mantissa, exponent) := text.span fun c => c ≠ 'e' && c ≠ 'E'
  let (whole, fraction) := mantissa.span (· ≠ '.')
  if fraction.isEmpty && exponent.isEmpty then none
  let whole ← readWhole? whole
  let fraction ←
    match fraction with
    | [] => some []
    | _ :: digits => readDigits? 10 digits
  let exponent : Int ←
    match exponent with
    | [] => some 0
    | _ :: signed => do
      let (negative, digits) := Number.readSign signed
      let value : Int := Number.decimalValue (← readDigits? 10 digits)
      some (if negative then -value else value)
  let value := Number.Numeral.value ⟨negative, whole, fraction, exponent⟩
  if value == Number.infinity false then none else some (.float value)

/-- A number that is no integer. -/
def readFloat? (text : List Char) : Option Toml :=
  let (negative, unsigned) := Number.readSign text
  match String.ofList unsigned with
  | "inf" => some (.float (Number.infinity negative))
  | "nan" => some (.float Number.nan)
  | _ => readDecimal? negative unsigned

/-! ## Dates and times -/

/-- Whether two digits make up a number between two bounds. -/
def isBetween (low high : Nat) (tens ones : Char) : Bool :=
  tens.isDigit && ones.isDigit &&
    low ≤ Number.decimalValue [tens, ones] && Number.decimalValue [tens, ones] ≤ high

def daysOf (year month : Nat) : Nat :=
  if month = 2 then
    if year % 4 = 0 && (year % 100 ≠ 0 || year % 400 = 0) then 29 else 28
  else if [4, 6, 9, 11].contains month then 30
  else 31

def afterDate? : List Char → Option (List Char)
  | a :: b :: c :: d :: '-' :: e :: f :: '-' :: g :: h :: rest =>
    let days := daysOf (Number.decimalValue [a, b, c, d]) (Number.decimalValue [e, f])
    if [a, b, c, d].all Char.isDigit && isBetween 1 12 e f && isBetween 1 days g h then some rest
    else none
  | _ => none

/-- What follows a time; seconds may have a fraction. -/
def afterTime? : List Char → Option (List Char)
  | a :: b :: ':' :: c :: d :: ':' :: e :: f :: rest =>
    if isBetween 0 23 a b && isBetween 0 59 c d && isBetween 0 60 e f then
      match rest with
      | '.' :: g :: rest =>
        if g.isDigit then some (rest.dropWhile Char.isDigit) else some ('.' :: g :: rest)
      | rest => some rest
    else none
  | _ => none

/-- Whether a text is a distance from universal time. -/
def isOffset : List Char → Bool
  | ['Z'] | ['z'] => true
  | [sign, a, b, ':', c, d] =>
    (sign == '+' || sign == '-') && isBetween 0 23 a b && isBetween 0 59 c d
  | _ => false

def isTimeOfDate (text : List Char) : Bool :=
  match afterTime? text with
  | some [] => true
  | some rest => isOffset rest
  | none => false

/-- Whether a text is a date, a time, or a date with a time. -/
def isMoment (text : List Char) : Bool :=
  match afterDate? text with
  | some [] => true
  | some (mark :: time) => (mark == 'T' || mark == 't') && isTimeOfDate time
  | none => afterTime? text == some []

/-! ## Values without quotes -/

def readWord? (word : List Char) : Option Toml :=
  match String.ofList word with
  | "true" => some (.boolean true)
  | "false" => some (.boolean false)
  | text =>
    if isMoment word then some (.moment text) else (readInteger? word).or (readFloat? word)

/-- A value without quotes. A blank may stand between a date and a time. -/
def readPlain (text : List Char) : Option (Front Toml) :=
  let (word, rest) := text.span isPlain
  match afterDate? word, rest with
  | some [], ' ' :: more =>
    let (time, after) := more.span isPlain
    if isTimeOfDate time then some (.moment (String.ofList (word ++ ' ' :: time)), after)
    else some (.moment (String.ofList word), rest)
  | _, _ => (readWord? word).map fun value => (value, rest)

end Ecma.Toml
