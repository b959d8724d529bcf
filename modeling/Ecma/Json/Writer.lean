/-
Writing JSON values as texts on one line.
-/
import Ecma.Json.Basic
import Ecma.Number.Format
import Ecma.Text.Quoted

namespace Ecma.Json

def stringChar (c : Char) : String :=
  if c == '"' then "\\\""
  else if c == '\\' then "\\\\"
  else if c == '\n' then "\\n"
  else if c == '\r' then "\\r"
  else if c == '\t' then "\\t"
  else if c.toNat < 0x20 || c.toNat == 0x7F then
    let digits := Text.hex c.toNat
    "\\u" ++ String.ofList (List.replicate (4 - digits.length) '0') ++ digits
  else String.singleton c

def stringText (s : String) : String :=
  s.toList.foldl (fun text c => text ++ stringChar c) "\"" ++ "\""

/-- The text of a double in JSON: positional from `1e-5` up to `1e16`, and what is
not finite is null. -/
def realLayout : Number.Layout where
  nan := "null"
  infinity := "null"
  zero := fun negative => if negative then "-0" else "0"
  positional := fun point => -4 ≤ point && point ≤ 16
  plus := false

/-- A JSON number for a double; a whole number without an exponent keeps its point. -/
def realText (x : Float) : String :=
  if !x.isFinite then "null"
  else
    let text := realLayout.text x
    if text.toList.any fun c => c == '.' || c == 'e' then text else text ++ ".0"

mutual

/-- The text so far, followed by the text of a value. -/
def writeTo (text : String) : Json → String
  | .null => text ++ "null"
  | .bool value => text ++ (if value then "true" else "false")
  | .integer value => text ++ toString value
  | .real value => text ++ realText value
  | .string value => text ++ stringText value
  | .array items => writeItemsTo (text ++ "[") true items ++ "]"
  | .object members => writeMembersTo (text ++ "\x7b") true members ++ "\x7d"

/-- The text so far, followed by items between commas. -/
def writeItemsTo (text : String) (first : Bool) : List Json → String
  | [] => text
  | item :: items =>
    writeItemsTo (writeTo (if first then text else text ++ ",") item) false items

/-- The text so far, followed by members between commas. -/
def writeMembersTo (text : String) (first : Bool) : List (String × Json) → String
  | [] => text
  | (name, value) :: members =>
    let text := if first then text else text ++ ","
    writeMembersTo (writeTo (text ++ stringText name ++ ":") value) false members

end

def write (json : Json) : String := writeTo "" json

end Ecma.Json
