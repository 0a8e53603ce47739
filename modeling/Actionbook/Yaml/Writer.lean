import Actionbook.Text.Quoted
import Actionbook.Yaml.Tag

/-!
# Writing scalars

A text is written plainly if it can be read back as that text, otherwise between single quotes, and
between double quotes if it holds characters that need an escape. Lines longer than 80 characters are
folded at single spaces.
-/

namespace Actionbook.Yaml

/-! ## Choice of style -/

/-- The ways to write a text. -/
inductive Style where
  | plain
  | single
  | double
deriving DecidableEq, Repr

/-- Whether a character ends a line where texts are written. -/
def isWrittenBreak (c : Char) : Bool := c == '\n' || c == '\u0085' || c == '\u2028' || c == '\u2029'

def needsEscape (c : Char) : Bool :=
  let n := c.toNat
  !(n == 10 || (0x20 ≤ n && n ≤ 0x7E) || n == 0x85 || (0xA0 ≤ n && n ≤ 0xFFFD && n != 0xFEFF) ||
    (0x10000 ≤ n && n < 0x10FFFF))

/-- Whether `p` holds of two neighbours. -/
def anyNeighbours (p : Char → Char → Bool) : List Char → Bool
  | a :: b :: r => p a b || anyNeighbours p (b :: r)
  | _ => false

/-- Whether a gap or the end follows. -/
def beforeGap : List Char → Bool
  | [] => true
  | c :: _ => isSpaceOrBreak c
where
  isSpaceOrBreak (c : Char) : Bool :=
    c == ' ' || c == '\t' || c == '\n' || c == '\r' || c == '\u0000' || isWrittenBreak c

/-- Whether the start of a text has a meaning of its own. -/
def startsWithSign (s : List Char) : Bool :=
  "---".toList.isPrefixOf s || "...".toList.isPrefixOf s ||
    match s with
    | [] => false
    | c :: r =>
      "#,[]\x7b\x7d&*!|>\x27\"%@\x60".toList.contains c ||
        ((c == '?' || c == ':' || c == '-') && beforeGap r)

/-- Whether a text behind `previous` holds a colon before a gap or a number sign behind one. -/
def holdsSign (previous : Char) : List Char → Bool
  | [] => false
  | c :: r =>
    (c == ':' && beforeGap r) || (c == '#' && beforeGap [previous]) || holdsSign c r

/-- Whether signs of block collections stand in a text. -/
def hasBlockSigns (s : List Char) : Bool :=
  startsWithSign s || match s with
    | [] => false
    | c :: r => holdsSign c r

/-- Whether a text could be written plainly, apart from what it would be read as. -/
def allowsPlain (s : List Char) : Bool :=
  let atEnd (c : Option Char) : Bool := (c.map fun c => c == ' ' || isWrittenBreak c).getD false
  !(atEnd s.head? || atEnd s.getLast? || s.any isWrittenBreak || s.any needsEscape || hasBlockSigns s)

/-- Whether a text can stand between single quotes: without escapes, and without a space next to a line
break. -/
def allowsSingle (s : List Char) : Bool :=
  !(s.any needsEscape || anyNeighbours (fun a b => isWrittenBreak a && b == ' ') s ||
    anyNeighbours (fun a b => a == ' ' && isWrittenBreak b) s)

/-- How a text is written. -/
def styleOf (text : String) : Style :=
  let s := text.toList
  if scalarKind text = .text ∧ allowsPlain s then .plain
  else if allowsSingle s then .single
  else .double

/-! ## Folding -/

def lineWidth : Nat := 80

/-- The runs of a text: characters that are told apart by `p` only. -/
def runs (p : Char → Nat) : List Char → List (List Char)
  | [] => []
  | c :: r =>
    match runs p r with
    | (d :: w) :: ws => if p c = p d then (c :: d :: w) :: ws else [c] :: (d :: w) :: ws
    | ws => [c] :: ws

/-- Spaces, line breaks and all others. -/
def runKind (c : Char) : Nat := if c == ' ' then 0 else if isWrittenBreak c then 1 else 2

/-- A line break and the indentation of the next line. -/
def newLine (indent : Nat) : List Char := '\n' :: List.replicate indent ' '

/-- The line breaks of a text inside of quotes: one more stands in front of a line feed. -/
def writtenBreaks (indent : Nat) (breaks : List Char) : List Char :=
  (if breaks.head? = some '\n' then ['\n'] else []) ++ breaks ++ List.replicate indent ' '

/-- Runs of a text, from a column on: a single space is written as a new line where the line is full,
but not at the ends of a text in quotes. `quote` says how a character is written. -/
def foldRuns (quote : Char → List Char) (quoted : Bool) (indent : Nat) :
    Nat → Bool → List (List Char) → List Char
  | _, _, [] => []
  | column, first, run :: l =>
    match run with
    | [' '] =>
      if column > lineWidth ∧ !(quoted ∧ (first ∨ l.isEmpty)) then
        newLine indent ++ foldRuns quote quoted indent indent false l
      else ' ' :: foldRuns quote quoted indent (column + 1) false l
    | c :: _ =>
      if isWrittenBreak c then
        writtenBreaks indent run ++ foldRuns quote quoted indent indent false l
      else
        let text := run.flatMap quote
        text ++ foldRuns quote quoted indent (column + text.length) false l
    | [] => foldRuns quote quoted indent column first l

def writePlain (indent column : Nat) (s : List Char) : List Char :=
  foldRuns (fun c => [c]) false indent column true (runs runKind s)

/-- A text between single quotes. -/
def writeSingle (indent column : Nat) (s : List Char) : List Char :=
  let quote (c : Char) : List Char := if c = '\x27' then ['\x27', '\x27'] else [c]
  '\x27' :: foldRuns quote true indent (column + 1) true (runs runKind s) ++ ['\x27']

/-- The letter that stands for a character behind a backslash. -/
def escapeLetter? (c : Char) : Option Char :=
  [('\u0000', '0'), ('\u0007', 'a'), ('\u0008', 'b'), ('\t', 't'), ('\n', 'n'), ('\u000b', 'v'),
    ('\u000c', 'f'), ('\r', 'r'), ('\u001b', 'e'), ('"', '"'), ('\\', '\\'), ('\u0085', 'N'),
    ('\u00a0', '_'), ('\u2028', 'L'), ('\u2029', 'P')].lookup c

def escapeOf (c : Char) : List Char :=
  let hex (width : Nat) : List Char := (Text.hexPadded width c.toNat).map Char.toUpper
  match escapeLetter? c with
  | some l => ['\\', l]
  | none =>
    if c.toNat ≤ 0xFF then '\\' :: 'x' :: hex 2
    else if c.toNat ≤ 0xFFFF then '\\' :: 'u' :: hex 4
    else '\\' :: 'U' :: hex 8

/-- Whether a character stands for itself between double quotes. -/
def isLiteral (c : Char) : Bool :=
  let n := c.toNat
  !(c == '"' || c == '\\' || n == 0x85 || n == 0x2028 || n == 0x2029 || n == 0xFEFF) &&
    ((0x20 ≤ n && n ≤ 0x7E) || (0xA0 ≤ n && n ≤ 0xFFFD))

/-- The rest of a text between double quotes, from a column on. `pending` characters have been written
since the last escape or line break, and are counted in `column` only then. Where the line is full a
backslash ends it, behind an escape or in front of a space; a second one keeps a space that follows. -/
def foldDouble (indent : Nat) (first : Bool) (column pending : Nat) : List Char → List Char
  | [] => []
  | c :: r =>
    let inside := !first && !r.isEmpty
    if isLiteral c then
      if inside && column + pending > lineWidth && (c == ' ' || pending == 0) then
        '\\' :: newLine indent ++ (if c == ' ' then ['\\'] else []) ++
          c :: foldDouble indent false (indent + (if c == ' ' then 1 else 0)) 1 r
      else c :: foldDouble indent false column (pending + 1) r
    else
      let text := escapeOf c
      let column := column + pending + text.length
      if inside && column > lineWidth + 1 then
        text ++ '\\' :: newLine indent ++
          (match r with
            | ' ' :: _ => '\\' :: foldDouble indent false (indent + 1) 0 r
            | _ => foldDouble indent false indent 0 r)
      else text ++ foldDouble indent false column 0 r

/-- A text between double quotes. -/
def writeDouble (indent column : Nat) (s : List Char) : List Char :=
  '"' :: foldDouble indent true (column + 1) 0 s ++ ['"']

/-- A text as a scalar that starts at a column, with the indentation of further lines. -/
def writeText (indent column : Nat) (text : String) : List Char :=
  match styleOf text with
  | .plain => writePlain indent column text.toList
  | .single => writeSingle indent column text.toList
  | .double => writeDouble indent column text.toList

end Actionbook.Yaml
