/-
Reading TOML documents: values that hold others, and the lines with headers and
with names and their values.
-/
import Ecma.Toml.Document
import Ecma.Toml.Scalar

namespace Ecma.Toml

/-! ## Gaps -/

def skipComment (text : List Char) : List Char :=
  match text with
  | '#' :: rest => rest.dropWhile isText
  | text => text

/-- What follows the rest of a line: blanks, a comment and the end of the line or of
the text. -/
def afterLine? (text : List Char) : Option (List Char) :=
  match skipComment (skipBlank text) with
  | [] => some []
  | rest => afterNewline? rest

/-- A text without the blanks, ends of lines and comments in front; a comment ends
with its line. -/
def skipGap (inComment : Bool) : List Char → List Char
  | '\n' :: rest => skipGap false rest
  | '\r' :: '\n' :: rest => skipGap false rest
  | c :: rest =>
    if inComment then if isText c then skipGap true rest else c :: rest
    else if isBlank c then skipGap false rest
    else if c == '#' then skipGap true rest
    else c :: rest
  | [] => []

/-! ## Values -/

mutual

/-- A value with at most `depth` levels of arrays and tables. Every part takes up a
character, so that the length of the text is fuel enough. -/
def readValue : (fuel depth : Nat) → List Char → Option (Front Toml)
  | 0, _, _ => none
  | _ + 1, 0, '[' :: _ | _ + 1, 0, '\x7b' :: _ => none
  | fuel + 1, depth + 1, '[' :: rest =>
    (readItems fuel depth rest).map fun (items, rest) => (.array items, rest)
  | fuel + 1, depth + 1, '\x7b' :: rest =>
    match skipBlank rest with
    | '\x7d' :: rest => some (.table [], rest)
    | rest => do
      let (pairs, rest) ← readPairs fuel depth rest
      return (.table (Parts.toTable (← Parts.ofPairs? pairs)), rest)
  | _ + 1, _, text =>
    match readString? text with
    | some front => front.map fun (chars, rest) => (.string (String.ofList chars), rest)
    | none => readPlain text

/-- The items of an array, up to its closing bracket; a comma may follow the last. -/
def readItems : (fuel depth : Nat) → List Char → Option (Front (List Toml))
  | 0, _, _ => none
  | fuel + 1, depth, text =>
    match skipGap false text with
    | ']' :: rest => some ([], rest)
    | rest => do
      let (item, rest) ← readValue fuel depth rest
      match skipGap false rest with
      | ',' :: rest =>
        let (items, rest) ← readItems fuel depth rest
        return (item :: items, rest)
      | ']' :: rest => return ([item], rest)
      | _ => none

/-- The names and values of a table in a line, up to its closing brace. -/
def readPairs : (fuel depth : Nat) → List Char → Option (Front (List (List String × Toml)))
  | 0, _, _ => none
  | fuel + 1, depth, text => do
    let (path, rest) ← readPath text
    match rest with
    | '=' :: rest =>
      let (value, rest) ← readValue fuel depth (skipBlank rest)
      match skipBlank rest with
      | ',' :: rest =>
        let (pairs, rest) ← readPairs fuel depth rest
        return ((path, value) :: pairs, rest)
      | '\x7d' :: rest => return ([(path, value)], rest)
      | _ => none
    | _ => none

end

/-! ## Documents -/

namespace Document

/-- Reads a header, after its first bracket. -/
def readHeader (document : Document) : List Char → Option (Document × List Char)
  | '[' :: text => do
    let (path, rest) ← readPath text
    match rest with
    | ']' :: ']' :: rest => return (← document.openNext? path, rest)
    | _ => none
  | text => do
    let (path, rest) ← readPath text
    match rest with
    | ']' :: rest => return (← document.openTable? path, rest)
    | _ => none

def readEntry (document : Document) (text : List Char) : Option (Document × List Char) := do
  let (path, rest) ← readPath text
  match rest with
  | '=' :: rest =>
    let (value, rest) ← readValue (rest.length + 1) maxLevels (skipBlank rest)
    return (← document.insert? path value, rest)
  | _ => none

/-- Reads the lines of a text. Every line takes up a character, so that the length
of the text is fuel enough. -/
def readLines (document : Document) : (fuel : Nat) → List Char → Option Document
  | 0, _ => none
  | fuel + 1, text =>
    match skipBlank text with
    | [] => some document
    | '#' :: rest => do document.readLines fuel (← afterLine? ('#' :: rest))
    | '\n' :: rest => document.readLines fuel rest
    | '\r' :: rest => do document.readLines fuel (← afterNewline? ('\r' :: rest))
    | '[' :: rest => do
      let (document, rest) ← document.readHeader rest
      document.readLines fuel (← afterLine? rest)
    | text => do
      let (document, rest) ← document.readEntry text
      document.readLines fuel (← afterLine? rest)

end Document

/-- A text without the mark of byte order in front. -/
def skipMark : List Char → List Char
  | '\ufeff' :: text => text
  | text => text

def ofText? (text : String) : Option Table := do
  let chars := skipMark text.toList
  let document ← Document.readLines {} (chars.length + 1) chars
  return Parts.toTable document.entries

end Ecma.Toml
