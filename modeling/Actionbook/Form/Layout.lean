import Actionbook.Form.Error
import Actionbook.Text.Digit

/-!
# Layouts

A layout says how a text is padded and cut: a filling and an alignment, a width, a point and the
number of characters that are kept, all of them optional. Parts that concern numbers only are read
and refused.
-/

namespace Actionbook.Form

/-- On which side of a text the padding goes. -/
inductive Alignment where
  | left
  | right
  | center
  /-- Between a sign and what follows it, which texts do not have. -/
  | sign
deriving DecidableEq, Repr

/-- The sign that stands for an alignment. -/
def Alignment.ofChar? : Char → Option Alignment
  | '<' => some .left
  | '>' => some .right
  | '^' => some .center
  | '=' => some .sign
  | _ => none

/-- The parts of a layout. -/
structure Layout where
  filling : Char := ' '
  alignment : Alignment := .left
  sign : Option Char := none
  excludesNegativeZero : Bool := false
  isAlternate : Bool := false
  width : Option Nat := none
  mark : Option Char := none
  precision : Option Nat := none
  kind : Char := 's'
deriving Repr

def largestNumber : Nat := Nat.pow 2 63 - 1

/-- The number that digits denote, unless it is too large; `none` if something else is among them.
Whatever stands behind a number that is too large does not count. -/
def numberFrom (n : Nat) : List Char → Except FormError (Option Nat)
  | [] => .ok (some n)
  | c :: r =>
    if Text.isDigit c then
      let n := 10 * n + Text.digitValue c
      if n > largestNumber then .error .longNumber else numberFrom n r
    else .ok none

/-- The number that a text denotes, if it consists of digits. -/
def number? (s : List Char) : Except FormError (Option Nat) :=
  if s.isEmpty then .ok none else numberFrom 0 s

/-- The number at the start of a text, if there is one, and the rest. -/
def readNumber (s : List Char) : Except FormError (Option Nat × List Char) := do
  return (← number? (s.takeWhile Text.isDigit), s.dropWhile Text.isDigit)

/-- A character at the start of a text, if it is as asked for, and the rest. -/
def readChar (p : Char → Bool) : List Char → Option Char × List Char
  | [] => (none, [])
  | c :: r => if p c then (some c, r) else (none, c :: r)

/-- The filling and the alignment at the start of a layout, and the rest. -/
def readAlignment : List Char → Option Char × Option Alignment × List Char
  | [] => (none, none, [])
  | c :: r =>
    match r with
    | d :: rest =>
      match Alignment.ofChar? d, Alignment.ofChar? c with
      | some a, _ => (some c, some a, rest)
      | none, some a => (none, some a, r)
      | none, none => (none, none, c :: r)
    | [] =>
      match Alignment.ofChar? c with
      | some a => (none, some a, [])
      | none => (none, none, [c])

/-- The mark for groups of digits at the start of a text, and the rest. -/
def readMark (s : List Char) : Except FormError (Option Char × List Char) := do
  let (comma, s) := readChar (· == ',') s
  let (line, s) := readChar (· == '_') s
  match comma, line, s with
  | some _, some _, _ => throw .bothMarks
  | none, some _, ',' :: _ => throw .bothMarks
  | _, _, _ => return (comma <|> line, s)

/-- The precision at the start of a text, and the rest. -/
def readPrecision (s : List Char) : Except FormError (Option Nat × List Char) := do
  match s with
  | '.' :: r =>
    let (n, rest) ← readNumber r
    if n.isNone then throw .noPrecision
    return (n, rest)
  | _ => return (none, s)

/-- Whether groups of digits can be marked in values of a kind. -/
def takesMark (mark kind : Char) : Bool :=
  ['d', 'e', 'f', 'g', 'E', 'G', '%', 'F', '\u0000'].contains kind ||
    (mark == '_' && ['b', 'o', 'x', 'X'].contains kind)

def Layout.read (text : List Char) : Except FormError Layout := do
  let (filling, alignment, s) := readAlignment text
  let (sign, s) := readChar [' ', '+', '-'].contains s
  let (zero, s) := readChar (· == 'z') s
  let (alternate, s) := readChar (· == '#') s
  let (zeros, s) := if filling.isSome then (none, s) else readChar (· == '0') s
  let (width, s) ← readNumber s
  let (mark, s) ← readMark s
  let (precision, s) ← readPrecision s
  let kind ← match s with
    | [] => pure 's'
    | [c] => pure c
    | _ => throw (.noLayout (String.ofList text))
  match mark with
  | some m => if !takesMark m kind then throw (.mark m kind)
  | none => pure ()
  return {
    filling := (filling <|> zeros).getD ' '
    alignment := alignment.getD .left
    sign, width, mark, precision, kind
    excludesNegativeZero := zero.isSome
    isAlternate := alternate.isSome }

/-- Refuses what only numbers have, and widths for which there is no room. -/
def Layout.check (room : Nat) (l : Layout) : Except FormError Unit := do
  if l.kind ≠ 's' then throw (.kind l.kind)
  match l.sign with
  | some ' ' => throw .blankSign
  | some _ => throw .sign
  | none => pure ()
  if l.excludesNegativeZero then throw .negativeZero
  if l.isAlternate then throw .alternate
  if l.alignment = .sign then throw .signPadding
  if l.width.any (· > room) then throw .tooWide

/-- A text, cut and padded. -/
def Layout.apply (l : Layout) (s : List Char) : List Char :=
  let s := match l.precision with
    | some n => s.take n
    | none => s
  let padding := l.width.getD 0 - s.length
  let before := match l.alignment with
    | .right => padding
    | .center => padding / 2
    | _ => 0
  List.replicate before l.filling ++ s ++ List.replicate (padding - before) l.filling

/-- A text as a layout says; an empty layout leaves it as it is. -/
def layOut (room : Nat) (layout s : List Char) : Except FormError (List Char) := do
  if layout.isEmpty then return s
  let l ← Layout.read layout
  l.check room
  return l.apply s

end Actionbook.Form
