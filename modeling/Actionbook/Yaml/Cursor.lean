import Actionbook.Yaml.Error

/-!
# Places in a text

A cursor is a place in a text: what follows it, and where it stands. Lines end with line feeds,
carriage returns or both, with the next line character or with the Unicode separators; in the text of
a scalar all but the separators become line feeds.
-/

namespace Actionbook.Yaml

/-- Whether a character ends a line. -/
def isBreak (c : Char) : Bool :=
  c == '\n' || c == '\r' || c == '\u0085' || c == '\u2028' || c == '\u2029'

/-- Whether a character ends a line or divides words. -/
def isGap (c : Char) : Bool := c == ' ' || c == '\t' || isBreak c

/-- Whether what follows is the end of a line or of the text. -/
def endsLine : Option Char → Bool
  | none => true
  | some c => isBreak c

/-- Whether what follows is a gap or the end of the text. -/
def endsWord : Option Char → Bool
  | none => true
  | some c => isGap c

/-- Whether what follows is a space, the end of a line or of the text. -/
def endsPart : Option Char → Bool
  | none => true
  | some c => c == ' ' || isBreak c

/-- A place in a text. -/
structure Cursor where
  rest : List Char
  index : Nat := 0
  line : Nat := 0
  column : Nat := 0

namespace Cursor

def peek (c : Cursor) (n : Nat) : Option Char := c.rest[n]?

def next (c : Cursor) : Option Char := c.rest.head?

/-- The next place. The mark of byte order takes no column. -/
def forward (c : Cursor) : Cursor :=
  match c.rest with
  | [] => c
  | x :: r =>
    if x == '\r' && r.head? == some '\n' then ⟨r, c.index + 1, c.line, c.column + 1⟩
    else if isBreak x then ⟨r, c.index + 1, c.line + 1, 0⟩
    else if x == '\ufeff' then ⟨r, c.index + 1, c.line, c.column⟩
    else ⟨r, c.index + 1, c.line, c.column + 1⟩

/-- The place at a distance. -/
def advance (c : Cursor) : Nat → Cursor
  | 0 => c
  | n + 1 => c.forward.advance n

/-- The characters up to the first that does not satisfy a test, and the place of that one. -/
def span (c : Cursor) (p : Char → Bool) : List Char × Cursor :=
  let s := c.rest.takeWhile p
  (s, c.advance s.length)

/-- The place of the first character that does not satisfy a test. -/
def skip (c : Cursor) (p : Char → Bool) : Cursor := (c.span p).2

/-- The place after spaces. -/
def skipSpaces (c : Cursor) : Cursor := c.skip (· == ' ')

/-- The place after spaces and a comment. -/
def skipComment (c : Cursor) : Cursor :=
  let c := c.skipSpaces
  if c.next == some '#' then c.skip (!isBreak ·) else c

/-- The end of a line as text, empty if there is none, and the place after it. -/
def lineBreak (c : Cursor) : List Char × Cursor :=
  match c.rest with
  | '\r' :: '\n' :: _ => (['\n'], c.advance 2)
  | x :: _ =>
    if x == '\u2028' || x == '\u2029' then ([x], c.forward)
    else if isBreak x then (['\n'], c.forward)
    else ([], c)
  | [] => ([], c)

/-- Whether a marker between documents stands here. -/
def atMarker (c : Cursor) : Bool :=
  (c.rest.take 3 == "---".toList || c.rest.take 3 == "...".toList) && endsWord (c.peek 3)

/-- The number that the next `count` hexadecimal digits denote. -/
def hexDigits (c : Cursor) (count : Nat) : Except Error (Nat × Cursor) :=
  let digits := c.rest.take count
  let value? (d : Char) : Option Nat :=
    if '0' ≤ d ∧ d ≤ '9' then some (d.toNat - 48)
    else if 'a' ≤ d ∧ d ≤ 'f' then some (d.toNat - 87)
    else if 'A' ≤ d ∧ d ≤ 'F' then some (d.toNat - 55)
    else none
  match digits.mapM value? with
  | some ds =>
    if ds.length = count then .ok (ds.foldl (16 * · + ·) 0, c.advance count) else .error .malformed
  | none => .error .malformed

end Cursor

end Actionbook.Yaml
