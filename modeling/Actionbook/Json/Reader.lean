import Actionbook.Json.Basic
import Actionbook.Text.CodePoints

/-!
# Reading JSON

A reader for whole texts. A number with a fraction or an exponent is a floating-point number, any
other an integer. The names of an object keep their order; of two members with one name the later
value stands in the earlier place. Beside standard numbers it reads `NaN`, `Infinity` and
`-Infinity`, which the canonical text of a value may hold.
-/

namespace Actionbook.Json

/-- Drops the white space of the format. -/
def skipBlanks : List Char → List Char
  | [] => []
  | c :: r => if c = ' ' ∨ c = '\n' ∨ c = '\r' ∨ c = '\t' then skipBlanks r else c :: r

/-- The value of a hexadecimal digit in either case. -/
def hexDigit? (c : Char) : Option Nat :=
  if '0' ≤ c ∧ c ≤ '9' then some (c.toNat - 48)
  else if 'a' ≤ c ∧ c ≤ 'f' then some (c.toNat - 87)
  else if 'A' ≤ c ∧ c ≤ 'F' then some (c.toNat - 55)
  else none

/-- The number that four hexadecimal digits denote. -/
def hexQuad? (a b c d : Char) : Option Nat := do
  return 4096 * (← hexDigit? a) + 256 * (← hexDigit? b) + 16 * (← hexDigit? c) + (← hexDigit? d)

/-- The character that a letter after a backslash stands for. -/
def unescape? : Char → Option Char
  | '"' => some '"'
  | '\\' => some '\\'
  | '/' => some '/'
  | 'b' => some (Char.ofNat 8)
  | 'f' => some (Char.ofNat 12)
  | 'n' => some '\n'
  | 'r' => some '\r'
  | 't' => some '\t'
  | _ => none

/-- Reads a text up to its closing quote: the characters and what follows the quote. -/
def readText? : List Char → Option (List Char × List Char)
  | [] => none
  | '"' :: r => some ([], r)
  | '\\' :: 'u' :: a :: b :: c :: d :: '\\' :: 'u' :: e :: f :: g :: h :: r => do
    let high ← hexQuad? a b c d
    let low ← hexQuad? e f g h
    if 0xD800 ≤ high ∧ high < 0xDC00 ∧ 0xDC00 ≤ low ∧ low < 0xE000 then
      let (s, rest) ← readText? r
      return (Char.ofNat (0x10000 + (high - 0xD800) * 0x400 + (low - 0xDC00)) :: s, rest)
    else
      let (s, rest) ← readText? ('\\' :: 'u' :: e :: f :: g :: h :: r)
      return (Char.ofNat high :: s, rest)
  | '\\' :: 'u' :: a :: b :: c :: d :: r => do
    let code ← hexQuad? a b c d
    let (s, rest) ← readText? r
    return (Char.ofNat code :: s, rest)
  | '\\' :: l :: r => do
    let c ← unescape? l
    let (s, rest) ← readText? r
    return (c :: s, rest)
  | c :: r =>
    if c.toNat < 32 then none
    else do
      let (s, rest) ← readText? r
      return (c :: s, rest)
termination_by s => s.length

/-- The longest run of ASCII digits and what follows it. -/
def splitDigits (s : List Char) : List Char × List Char :=
  (s.takeWhile Char.isDigit, s.dropWhile Char.isDigit)

/-- The number that decimal digits denote. -/
def digitsValue (s : List Char) : Nat := s.foldl (fun n c => 10 * n + (c.toNat - 48)) 0

/-- Reads the exponent of a number, if there is one. -/
def readExponent? : List Char → Option (Option Int × List Char)
  | c :: r =>
    if c = 'e' ∨ c = 'E' then
      let (negative, r) : Bool × List Char := match r with
        | '-' :: t => (true, t)
        | '+' :: t => (false, t)
        | _ => (false, r)
      let (digits, rest) := splitDigits r
      if digits.isEmpty then none
      else some (some (if negative then -(digitsValue digits : Int) else digitsValue digits), rest)
    else some (none, c :: r)
  | [] => some (none, [])

/-- Reads a number without its sign. -/
def readNumber? (negative : Bool) (s : List Char) : Option (Json × List Char) := do
  let (whole, r) := splitDigits s
  if whole.isEmpty ∨ (whole.length > 1 ∧ whole.head? = some '0') then none
  else
    let (fraction, r) : Option (List Char) × List Char := match r with
      | '.' :: t => (some (splitDigits t).1, (splitDigits t).2)
      | _ => (none, r)
    if fraction = some [] then none
    else
      let (exponent, rest) ← readExponent? r
      if fraction.isNone && exponent.isNone then
        let n : Int := digitsValue whole
        return (.integer (if negative then -n else n), rest)
      else
        let places := fraction.getD []
        let power := exponent.getD 0 - places.length
        return (.float (.ofDecimal negative (digitsValue (whole ++ places)) power), rest)

/-- What follows `word` at the start of a text. -/
def after? (word : String) (s : List Char) : Option (List Char) :=
  if word.toList.isPrefixOf s then some (s.drop word.length) else none

/-- Reads a value that is neither a text nor a collection. -/
def readScalar? (s : List Char) : Option (Json × List Char) :=
  match s with
  | '-' :: r =>
    match after? "Infinity" r with
    | some rest => some (.float (.infinity true), rest)
    | none => readNumber? true r
  | _ =>
    match after? "null" s, after? "true" s, after? "false" s with
    | some r, _, _ => some (.null, r)
    | _, some r, _ => some (.boolean true, r)
    | _, _, some r => some (.boolean false, r)
    | _, _, _ =>
      match after? "NaN" s, after? "Infinity" s with
      | some r, _ => some (.float .nan, r)
      | _, some r => some (.float (.infinity false), r)
      | _, _ => readNumber? false s

/-- Puts a member into an object: a name that is present keeps its place. -/
def setMember (members : List (String × Json)) (name : String) (v : Json) : List (String × Json) :=
  if members.any (·.1 == name) then members.map fun m => if m.1 == name then (name, v) else m
  else members ++ [(name, v)]

mutual

/-- Reads a value; `fuel` bounds the number of nested and consecutive parts. -/
def readValue? (fuel : Nat) (s : List Char) : Option (Json × List Char) :=
  match fuel with
  | 0 => none
  | fuel + 1 =>
    match skipBlanks s with
    | '"' :: r => do
      let (t, rest) ← readText? r
      return (.text (String.ofList t), rest)
    | '[' :: r =>
      match skipBlanks r with
      | ']' :: rest => some (.array [], rest)
      | r => do
        let (items, rest) ← readItems? fuel r
        return (.array items, rest)
    | '\x7b' :: r =>
      match skipBlanks r with
      | '\x7d' :: rest => some (.object [], rest)
      | r => do
        let (members, rest) ← readMembers? fuel [] r
        return (.object members, rest)
    | r => readScalar? r

/-- Reads the items of an array up to its closing bracket. -/
def readItems? (fuel : Nat) (s : List Char) : Option (List Json × List Char) :=
  match fuel with
  | 0 => none
  | fuel + 1 => do
    let (v, r) ← readValue? fuel s
    match skipBlanks r with
    | ',' :: r => do
      let (items, rest) ← readItems? fuel r
      return (v :: items, rest)
    | ']' :: rest => return ([v], rest)
    | _ => none

/-- Reads the members of an object up to its closing brace. -/
def readMembers? (fuel : Nat) (members : List (String × Json)) (s : List Char) :
    Option (List (String × Json) × List Char) :=
  match fuel with
  | 0 => none
  | fuel + 1 =>
    match skipBlanks s with
    | '"' :: r => do
      let (name, r) ← readText? r
      match skipBlanks r with
      | ':' :: r => do
        let (v, r) ← readValue? fuel r
        let members := setMember members (String.ofList name) v
        match skipBlanks r with
        | ',' :: r => readMembers? fuel members r
        | '\x7d' :: rest => return (members, rest)
        | _ => none
      | _ => none
    | _ => none

end

/-- Reads a text that is one value and nothing else. -/
def read? (s : String) : Option Json :=
  match readValue? (s.length + 1) s.toList with
  | some (v, rest) => if (skipBlanks rest).isEmpty then some v else none
  | none => none

end Actionbook.Json
