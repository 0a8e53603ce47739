import Actionbook.Data.Basic
import Actionbook.Text.Quoted

/-!
# The text of data in messages

A message shows a value so that its kind can be told: texts stand between quotes, lists in brackets,
mappings in braces.
-/

namespace Actionbook.Data

/-- What stands for a byte inside quotes. -/
def quotedByte (quote : Char) (b : UInt8) : List Char :=
  let c := Char.ofNat b.toNat
  if b.toNat < 127 then Text.quotedChar quote c else Text.numericEscape c

def quotedBytes (bytes : List UInt8) : List Char :=
  let quote := Text.quoteFor (bytes.map fun b => Char.ofNat b.toNat)
  'b' :: quote :: bytes.flatMap (quotedByte quote) ++ [quote]

/-- Texts with a comma and a blank between them. -/
def joined (texts : List String) : String := ", ".intercalate texts

/-- A span of time as whole days and the seconds left over. -/
def spanText (seconds : Int) : String :=
  let part (name : String) (n : Int) : List String :=
    if n = 0 then [] else [name ++ "=" ++ Decimal.integerText n]
  let parts := part "days" (seconds.fdiv 86400) ++ part "seconds" (seconds.fmod 86400)
  "datetime.timedelta(" ++ (if parts.isEmpty then "0" else joined parts) ++ ")"

def dateText (d : Date) : String :=
  "datetime.date(" ++ joined ([d.year, d.month, d.day].map fun n : Nat => Decimal.integerText n) ++ ")"

/-- The text of a moment: seconds and microseconds are left out if they are zero. -/
def momentText (m : Moment) : String :=
  let fields := [m.date.year, m.date.month, m.date.day, m.hour, m.minute] ++
    (if m.microsecond ≠ 0 then [m.second, m.microsecond] else if m.second ≠ 0 then [m.second] else [])
  let zone := match m.offset with
    | none => []
    | some 0 => ["tzinfo=datetime.timezone.utc"]
    | some s => ["tzinfo=datetime.timezone(" ++ spanText s ++ ")"]
  "datetime.datetime(" ++ joined (fields.map (fun n : Nat => Decimal.integerText n) ++ zone) ++ ")"

mutual

/-- The text of a value in a message. -/
def literal : Data → String
  | .null => "None"
  | .boolean b => if b then "True" else "False"
  | .integer n => Decimal.integerText n
  | .float x => Decimal.text x
  | .text s => Text.quoted s
  | .bytes b => String.ofList (quotedBytes b)
  | .date d => dateText d
  | .moment m => momentText m
  | .list l => "[" ++ joined (literals l) ++ "]"
  | .pair a b => "(" ++ literal a ++ ", " ++ literal b ++ ")"
  | .set l => if l.isEmpty then "set()" else "\x7b" ++ joined (literals l) ++ "\x7d"
  | .mapping e => "\x7b" ++ joined (entryLiterals e) ++ "\x7d"

/-- The texts of values. -/
def literals : List Data → List String
  | [] => []
  | v :: l => literal v :: literals l

def entryLiterals : List (Data × Data) → List String
  | [] => []
  | (k, v) :: l => (literal k ++ ": " ++ literal v) :: entryLiterals l

end

/-- The text of a value that becomes part of a sentence: texts as they are, dates and moments in
their standard form, all else as in `literal`. -/
def shown : Data → String
  | .text s => s
  | .date d => d.text
  | .moment m => m.text " "
  | v => v.literal

end Actionbook.Data
