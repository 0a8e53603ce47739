import Actionbook.Json.Basic
import Actionbook.Decimal.Notation
import Actionbook.Text.Quoted
import Actionbook.Sorting

/-!
# The canonical text of a JSON value

The members of an object are written in ascending order of their names, so the text depends only on
the value. Items are separated by a comma and a blank, a name from its value by a colon and a blank.
Inside texts only the quote, the backslash and control characters below the blank are escaped.
-/

namespace Actionbook.Json

/-- What stands for a character inside a JSON text. -/
def escapedChar (c : Char) : List Char :=
  if c = '"' ∨ c = '\\' then ['\\', c]
  else if c = '\n' then ['\\', 'n']
  else if c = '\r' then ['\\', 'r']
  else if c = '\t' then ['\\', 't']
  else if c.toNat = 8 then ['\\', 'b']
  else if c.toNat = 12 then ['\\', 'f']
  else if c.toNat < 32 then '\\' :: 'u' :: Text.hexPadded 4 c.toNat
  else [c]

/-- A text between double quotes. -/
def quotedText (s : List Char) : List Char :=
  '"' :: s.flatMap escapedChar ++ ['"']

/-- The text of a floating-point number. -/
def floatText (x : Binary64) : String :=
  if x.isNaN then "NaN"
  else if x.isInfinite then (if x.isNegative then "-Infinity" else "Infinity")
  else Decimal.finiteText x

/-- Joins texts by a comma and a blank. -/
def commaJoined : List (List Char) → List Char
  | [] => []
  | [s] => s
  | s :: l => s ++ ',' :: ' ' :: commaJoined l

mutual

/-- The canonical text of a value. -/
def write : Json → List Char
  | .null => "null".toList
  | .boolean b => (if b then "true" else "false").toList
  | .integer n => (Decimal.integerText n).toList
  | .float x => (floatText x).toList
  | .text s => quotedText s.toList
  | .array items => '[' :: commaJoined (writeItems items) ++ [']']
  | .object members =>
    let ordered := sortBy (fun a b => textLe a.1 b.1) (writeMembers members)
    '\x7b' :: commaJoined (ordered.map fun m => quotedText m.1.toList ++ ':' :: ' ' :: m.2) ++ ['\x7d']

/-- The canonical texts of values. -/
def writeItems : List Json → List (List Char)
  | [] => []
  | v :: l => write v :: writeItems l

/-- The members of an object with the canonical texts of their values. -/
def writeMembers : List (String × Json) → List (String × List Char)
  | [] => []
  | (name, v) :: l => (name, write v) :: writeMembers l

end

def canonicalText (v : Json) : String := String.ofList (write v)

end Actionbook.Json
