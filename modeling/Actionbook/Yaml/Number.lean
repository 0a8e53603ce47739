import Actionbook.Yaml.Error
import Actionbook.Text.Blank
import Actionbook.Text.Case
import Actionbook.Text.Digit

/-!
# Numbers

The numbers that texts denote. Underscores between digits do not count. Integers may be given in base
2, 8 or 16 and, as floating-point numbers, in base 60 with colons between the digits. Decimal digits of
any script and blanks around a number are read.
-/

namespace Actionbook.Yaml

/-- Decimal digits as those of ASCII, and blanks beyond ASCII as spaces, without blanks at the ends. -/
def plainNumber (s : List Char) : List Char :=
  let ascii := s.all fun c => c.toNat < 128
  let plain (c : Char) : Char :=
    if c.toNat < 127 then c
    else if Text.isBlank c then ' '
    else if Text.isDigit c then Char.ofNat (48 + Text.digitValue c)
    else '?'
  let blank (c : Char) : Bool := c == ' ' || (9 ≤ c.toNat && c.toNat ≤ 13)
  let dropEnd (s : List Char) : List Char :=
    s.foldr (fun c r => if r.isEmpty && blank c then [] else c :: r) []
  dropEnd ((if ascii then s else s.map plain).dropWhile blank)

/-- Takes a sign off a text: whether it is negative, and what follows. -/
def splitSign : List Char → Bool × List Char
  | '-' :: r => (true, r)
  | '+' :: r => (false, r)
  | s => (false, s)

/-- The value of a digit in bases up to 16. -/
def baseDigit? (base : Nat) (c : Char) : Option Nat :=
  let v : Option Nat :=
    if '0' ≤ c ∧ c ≤ '9' then some (c.toNat - 48)
    else if 'a' ≤ c ∧ c ≤ 'f' then some (c.toNat - 87)
    else if 'A' ≤ c ∧ c ≤ 'F' then some (c.toNat - 55)
    else none
  v.filter (· < base)

/-- The letter that may stand behind a zero in front of digits in a base. -/
def baseLetter : Nat → List Char
  | 2 => ['b', 'B']
  | 8 => ['o', 'O']
  | 16 => ['x', 'X']
  | _ => []

/-- The integer that a text denotes in a base. -/
def integerIn (base : Nat) (text : List Char) : Except Error Int :=
  let (negative, s) := splitSign (plainNumber text)
  let s := match s with
    | '0' :: l :: r => if (baseLetter base).contains l then r else s
    | _ => s
  match s.mapM (baseDigit? base) with
  | none => .error (.noInteger base (String.ofList text))
  | some [] => .error (.noInteger base (String.ofList text))
  | some digits =>
    if base = 10 ∧ digits.length > 4300 then .error (.longInteger digits.length)
    else
      let n : Int := (digits.foldl (fun n d => base * n + d) 0 : Nat)
      .ok (if negative then -n else n)

/-- The parts of a text between colons. -/
def colonParts : List Char → List (List Char)
  | [] => [[]]
  | c :: r =>
    match c, colonParts r with
    | ':', ps => [] :: ps
    | c, p :: ps => (c :: p) :: ps
    | c, [] => [[c]]

/-- The integer that a scalar denotes. -/
def integerOf (text : String) : Except Error Int := do
  let s := text.toList.filter (· ≠ '_')
  if s.isEmpty then throw .noDigits
  let (negative, s) := splitSign s
  let n ← match s with
    | [] => throw .noDigits
    | ['0'] => pure 0
    | '0' :: 'b' :: r => integerIn 2 r
    | '0' :: 'x' :: r => integerIn 16 r
    | '0' :: _ => integerIn 8 s
    | _ =>
      if s.contains ':' then do
        let parts ← (colonParts s).mapM (integerIn 10)
        pure (parts.foldl (60 * · + ·) 0)
      else integerIn 10 s
  return if negative then -n else n

/-- The exponent at the end of a number. -/
def exponent? : List Char → Option Int
  | [] => some 0
  | e :: r =>
    let (negative, digits) := splitSign r
    if (e = 'e' ∨ e = 'E') ∧ !digits.isEmpty then
      (digits.mapM (baseDigit? 10)).map fun ds =>
        let n : Int := (ds.foldl (10 * · + ·) 0 : Nat)
        if negative then -n else n
    else none

/-- The floating-point number that a text denotes. -/
def float (text : List Char) : Except Error Binary64 :=
  let (negative, s) := splitSign (plainNumber text)
  let word := String.ofList (s.map Char.toLower)
  let bad : Except Error Binary64 := .error (.noNumber (String.ofList text))
  if word = "inf" ∨ word = "infinity" then .ok (.infinity negative)
  else if word = "nan" then .ok .nan
  else
    let whole := s.takeWhile Char.isDigit
    let r := s.drop whole.length
    let (fraction, r) : List Char × List Char := match r with
      | '.' :: r => (r.takeWhile Char.isDigit, r.dropWhile Char.isDigit)
      | _ => ([], r)
    if whole.isEmpty ∧ fraction.isEmpty then bad
    else
      match exponent? r, (whole ++ fraction).mapM (baseDigit? 10) with
      | some e, some digits =>
        .ok (.ofDecimal negative (digits.foldl (10 * · + ·) 0) (e - fraction.length))
      | _, _ => bad

/-- The sum of base 60 digits, the last one first; `unit` is what the first counts. -/
def sexagesimalSum (unit : Nat) (sum : Binary64) : List Binary64 → Binary64
  | [] => sum
  | d :: l => sexagesimalSum (60 * unit) (sum.add (d.mul (.ofInt unit))) l

/-- The floating-point number that a scalar denotes. -/
def floatOf (text : String) : Except Error Binary64 := do
  let s := Text.lower (text.toList.filter (· ≠ '_'))
  if s.isEmpty then throw .noDigits
  let (negative, s) := splitSign s
  let sign : Binary64 := .ofInt (if negative then -1 else 1)
  if s = ".inf".toList then return .infinity negative
  else if s = ".nan".toList then return .nan
  else if s.contains ':' then
    let parts ← (colonParts s).mapM float
    return sign.mul (sexagesimalSum 1 (.ofInt 0) parts.reverse)
  else return sign.mul (← float s)

end Actionbook.Yaml
