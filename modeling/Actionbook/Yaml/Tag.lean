import Actionbook.Yaml.Node

/-!
# What plain scalars are

A plain scalar without a tag is a truth value, a number, null, a date or moment, or one of a few signs
of the format, if it is written like one; otherwise it is a text. A line break at its end does not
count.
-/

namespace Actionbook.Yaml

inductive ScalarKind where
  | null
  | boolean
  | integer
  | float
  | timestamp
  | merge
  | value
  /-- A sign that only stands in front of nodes, and denotes nothing. -/
  | sign
  | text
deriving DecidableEq, Repr

def ScalarKind.name : ScalarKind → String
  | .null => "null"
  | .boolean => "bool"
  | .integer => "int"
  | .float => "float"
  | .timestamp => "timestamp"
  | .merge => "merge"
  | .value => "value"
  | .sign => "yaml"
  | .text => "str"

/-- The text without a line break at its end. -/
def dropFinalBreak (s : List Char) : List Char :=
  if s.getLast? = some '\n' then s.dropLast else s

/-- The text without a sign in front. -/
def dropSign : List Char → List Char
  | '+' :: r => r
  | '-' :: r => r
  | s => s

/-- Whether a text consists of digits and underscores, the first one a digit. -/
def isGrouped : List Char → Bool
  | [] => false
  | c :: r => c.isDigit && r.all fun x => x.isDigit || x == '_'

/-- Whether a text is a signed exponent of ten, or empty. -/
def isExponent : List Char → Bool
  | [] => true
  | e :: s :: r =>
    (e == 'e' || e == 'E') && (s == '-' || s == '+') && !r.isEmpty && r.all Char.isDigit
  | _ => false

/-- Whether a text is a row of base 60 digits, each behind a colon, up to where `rest` begins. -/
def sexagesimalRest : Nat → List Char → Option (List Char)
  | 0, _ => none
  | fuel + 1, s =>
    match s with
    | ':' :: a :: b :: r =>
      if '0' ≤ a ∧ a ≤ '5' ∧ b.isDigit then sexagesimalRest fuel r
      else if a.isDigit then sexagesimalRest fuel (b :: r)
      else some s
    | [':', a] => if a.isDigit then some [] else some s
    | _ => some s

/-- What follows a number in base 60 without a fraction; it must have at least two digits. -/
def afterSexagesimal? (s : List Char) : Option (List Char) :=
  let head := s.takeWhile fun x => x.isDigit || x == '_'
  let r := s.drop head.length
  if !isGrouped head || r.head? ≠ some ':' then none
  else
    match sexagesimalRest (r.length + 1) r with
    | some rest => if rest.length < r.length then some rest else none
    | none => none

/-- Whether a text is a floating-point number. -/
def isFloat (s : List Char) : Bool :=
  let u := dropSign s
  let whole := u.takeWhile fun x => x.isDigit || x == '_'
  let afterPoint (r : List Char) : List Char := r.dropWhile fun x => x.isDigit || x == '_'
  let positional := match u.drop whole.length with
    | '.' :: r => isGrouped whole && isExponent (afterPoint r)
    | _ => false
  let fraction := match s with
    | '.' :: c :: r => c.isDigit && isExponent (afterPoint r)
    | _ => false
  let sexagesimal := match afterSexagesimal? u with
    | some ('.' :: r) => r.all fun x => x.isDigit || x == '_'
    | _ => false
  positional || fraction || sexagesimal ||
    [".inf", ".Inf", ".INF"].contains (String.ofList u) ||
    [".nan", ".NaN", ".NAN"].contains (String.ofList s)

/-- Whether a text is an integer: in base 2, 8, 10, 16 or 60. -/
def isInteger (s : List Char) : Bool :=
  let u := dropSign s
  let hex (x : Char) : Bool :=
    x.isDigit || ('a' ≤ x && x ≤ 'f') || ('A' ≤ x && x ≤ 'F') || x == '_'
  match u with
  | '0' :: 'b' :: r => !r.isEmpty && r.all fun x => x == '0' || x == '1' || x == '_'
  | '0' :: 'x' :: r => !r.isEmpty && r.all hex
  | ['0'] => true
  | '0' :: r => r.all fun x => ('0' ≤ x && x ≤ '7') || x == '_'
  | _ => isGrouped u || afterSexagesimal? u == some []

/-! ## Dates and moments -/

/-- The parts of a date or a moment as they are written. -/
structure WrittenMoment where
  year : List Char
  month : List Char
  day : List Char
  /-- Hour, minute and second. -/
  time : Option (List Char × List Char × List Char) := none
  fraction : List Char := []
  /-- Whether the moment is in universal time, and otherwise the sign, the hours and the minutes of its
  distance from it. -/
  zone : Option (Option (Char × List Char × List Char)) := none

/-- A number of at least `least` and at most two digits, and what follows it. -/
def digits? (least : Nat) (s : List Char) : Option (List Char × List Char) :=
  let d := (s.take 2).takeWhile Char.isDigit
  if d.length ≥ least then some (d, s.drop d.length) else none

/-- The zone at the end of a moment. -/
def zone? (s : List Char) : Option (Option (Option (Char × List Char × List Char))) :=
  match s with
  | [] => some none
  | _ =>
    match s.dropWhile fun x => x == ' ' || x == '\t' with
    | ['Z'] => some (some none)
    | x :: r =>
      if x == '+' || x == '-' then do
        let (hours, r) ← digits? 1 r
        match r with
        | [] => return some (some (x, hours, []))
        | ':' :: r =>
          let (minutes, r) ← digits? 2 r
          if r.isEmpty then return some (some (x, hours, minutes)) else none
        | _ => none
      else none
    | [] => none

/-- The time of a moment, with what follows the date. -/
def time? (date : WrittenMoment) (s : List Char) : Option WrittenMoment := do
  let r ← match s with
    | 'T' :: r => some r
    | 't' :: r => some r
    | x :: _ =>
      if x == ' ' || x == '\t' then some (s.dropWhile fun x => x == ' ' || x == '\t') else none
    | [] => none
  let (hour, r) ← digits? 1 r
  let (minute, r) ← match r with | ':' :: r => digits? 2 r | _ => none
  let (second, r) ← match r with | ':' :: r => digits? 2 r | _ => none
  let (fraction, r) : List Char × List Char := match r with
    | '.' :: r => (r.takeWhile Char.isDigit, r.dropWhile Char.isDigit)
    | _ => ([], r)
  let zone ← zone? r
  return { date with time := some (hour, minute, second), fraction, zone }

/-- A date or a moment as it is written: year, month and day, joined by hyphens, and perhaps a time. -/
def writtenMoment? (s : List Char) : Option WrittenMoment := do
  let year := (s.take 4).takeWhile Char.isDigit
  if year.length ≠ 4 then none
  let (month, r) ← match s.drop 4 with | '-' :: r => digits? 1 r | _ => none
  let (day, r) ← match r with | '-' :: r => digits? 1 r | _ => none
  let date : WrittenMoment := { year, month, day }
  if r.isEmpty then return date else time? date r

/-- Whether a text is a date or a moment; a date alone needs two digits for month and day. -/
def isTimestamp (s : List Char) : Bool :=
  match writtenMoment? s with
  | some m => m.time.isSome || (m.month.length == 2 && m.day.length == 2)
  | none => false

def truthWords : List String :=
  ["yes", "Yes", "YES", "no", "No", "NO", "true", "True", "TRUE", "false", "False", "FALSE", "on",
    "On", "ON", "off", "Off", "OFF"]

def scalarKind (text : String) : ScalarKind :=
  let s := dropFinalBreak text.toList
  let word := String.ofList s
  if text.isEmpty then .null
  else if truthWords.contains word then .boolean
  else if isFloat s then .float
  else if isInteger s then .integer
  else if word = "<<" then .merge
  else if ["~", "null", "Null", "NULL"].contains word then .null
  else if isTimestamp s then .timestamp
  else if word = "=" then .value
  else if ["!", "&", "*"].contains word then .sign
  else .text

end Actionbook.Yaml
