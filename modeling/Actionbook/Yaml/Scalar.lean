import Actionbook.Yaml.Cursor

/-!
# The text of scalars

A scalar is written plainly, between quotes, or as a block of indented lines. Single line breaks inside
of plain and quoted scalars are spaces, further ones stay.
-/

namespace Actionbook.Yaml

/-! ## Quoted scalars -/

/-- The character that an escape of one letter stands for. -/
def escaped? (c : Char) : Option Char :=
  [('0', '\u0000'), ('a', '\u0007'), ('b', '\u0008'), ('t', '\t'), ('\t', '\t'), ('n', '\n'),
    ('v', '\u000b'), ('f', '\u000c'), ('r', '\r'), ('e', '\u001b'), (' ', ' '), ('"', '"'),
    ('\\', '\\'), ('/', '/'), ('N', '\u0085'), ('_', '\u00a0'), ('L', '\u2028'),
    ('P', '\u2029')].lookup c

/-- The number of digits of an escape that names a character by its number. -/
def escapeWidth? (c : Char) : Option Nat := [('x', 2), ('u', 4), ('U', 8)].lookup c

def characterAt (n : Nat) : Except Error Char :=
  if n > 0x7FFFFFFF then .error .largeCharacter
  else if n > 0x10FFFF then .error .noCharacter
  else .ok (Char.ofNat n)

/-- The line breaks that follow one another, with blanks in front of them. -/
def breaksInQuotes : Nat → Cursor → Except Error (List Char × Cursor)
  | 0, c => .ok ([], c)
  | fuel + 1, c =>
    if c.atMarker then .error .malformed
    else
      let c := c.skip fun x => x == ' ' || x == '\t'
      if (c.next.map isBreak).getD false then do
        let (b, c) := c.lineBreak
        let (bs, c) ← breaksInQuotes fuel c
        return (b ++ bs, c)
      else .ok ([], c)

/-- What an escape stands for; the backslash has been read. -/
def escape (c : Cursor) : Except Error (List Char × Cursor) :=
  match c.next with
  | none => .error .malformed
  | some x =>
    match escaped? x, escapeWidth? x with
    | some y, _ => .ok ([y], c.forward)
    | none, some width => do
      let (n, c) ← c.forward.hexDigits width
      return ([← characterAt n], c)
    | none, none =>
      if isBreak x then breaksInQuotes c.rest.length c.lineBreak.2
      else .error .malformed

/-- Blanks inside of quotes: they stay, unless a line ends in them. -/
def gapInQuotes (c : Cursor) : Except Error (List Char × Cursor) := do
  let (blanks, c) := c.span fun x => x == ' ' || x == '\t'
  match c.next with
  | none => throw .malformed
  | some x =>
    if isBreak x then
      let (b, c) := c.lineBreak
      let (bs, c) ← breaksInQuotes (c.rest.length + 1) c
      return ((if b ≠ ['\n'] then b else if bs.isEmpty then [' '] else []) ++ bs, c)
    else return (blanks, c)

def quotedText (double : Bool) : Nat → Cursor → Except Error (List Char × Cursor)
  | 0, _ => .error .malformed
  | fuel + 1, c => do
    let special (x : Char) : Bool := x == '\x27' || x == '"' || x == '\\' || isGap x
    let (here, c) := c.span fun x => !special x
    let more (text : List Char) (c : Cursor) : Except Error (List Char × Cursor) := do
      let (others, c) ← quotedText double fuel c
      return (here ++ text ++ others, c)
    match c.rest with
    | '\x27' :: '\x27' :: _ =>
      if double then more ['\x27'] c.forward else more ['\x27'] (c.advance 2)
    | '\x27' :: _ => if double then more ['\x27'] c.forward else return (here, c.forward)
    | '"' :: _ => if double then return (here, c.forward) else more ['"'] c.forward
    | '\\' :: _ =>
      if double then
        let (text, c) ← escape c.forward
        more text c
      else more ['\\'] c.forward
    | _ =>
      let (gap, c) ← gapInQuotes c
      more gap c

/-- The text of a scalar that starts with a quote. -/
def quotedScalar (double : Bool) (c : Cursor) : Except Error (List Char × Cursor) :=
  quotedText double (2 * c.rest.length) c.forward

/-! ## Plain scalars -/

/-- Whether a plain scalar stops at the start of a text. -/
def stopsPlain (inFlow : Bool) : List Char → Bool
  | [] => true
  | x :: r =>
    isGap x ||
      (x == ':' && (match r with
        | [] => true
        | y :: _ => isGap y || (inFlow && ",[]\x7b\x7d".toList.contains y))) ||
      (inFlow && ",?[]\x7b\x7d".toList.contains x)

/-- The number of characters up to the place where a plain scalar stops. -/
def plainLength (inFlow : Bool) : List Char → Nat
  | [] => 0
  | x :: r => if stopsPlain inFlow (x :: r) then 0 else plainLength inFlow r + 1

/-- The line breaks that follow one another, with spaces around them; `none` in front of a marker. -/
def breaksInPlain : Nat → Cursor → Option (List Char) × Cursor
  | 0, c => (some [], c)
  | fuel + 1, c =>
    let c := c.skipSpaces
    if (c.next.map isBreak).getD false then
      let (b, c) := c.lineBreak
      if c.atMarker then (none, c)
      else
        let (bs, c) := breaksInPlain fuel c
        (bs.map (b ++ ·), c)
    else (some [], c)

/-- What stands between the parts of a plain scalar, whether a line has ended, and where to go on. -/
def gapInPlain (c : Cursor) : List Char × Bool × Cursor :=
  let (spaces, c) := c.span (· == ' ')
  match c.next with
  | none => (spaces, false, c)
  | some x =>
    if isBreak x then
      let (b, c) := c.lineBreak
      if c.atMarker then ([], true, c)
      else
        match breaksInPlain (c.rest.length + 1) c with
        | (none, c) => ([], true, c)
        | (some bs, c) =>
          ((if b ≠ ['\n'] then b else if bs.isEmpty then [' '] else []) ++ bs, true, c)
    else (spaces, false, c)

/-- The parts of a plain scalar. `gap` stands in front of the next one; a line that has ended lets a
simple key follow. -/
def plainParts (inFlow : Bool) (indent : Int) :
    Nat → Bool → List Char → Cursor → List Char × Bool × Cursor
  | 0, keyAllowed, _, c => ([], keyAllowed, c)
  | fuel + 1, keyAllowed, gap, c =>
    let length := plainLength inFlow c.rest
    if c.next == some '#' || length = 0 then ([], keyAllowed, c)
    else
      let part := gap ++ c.rest.take length
      let (gap, ended, c) := gapInPlain (c.advance length)
      if gap.isEmpty || c.next == some '#' || (!inFlow && (c.column : Int) < indent) then
        (part, ended, c)
      else
        let (others, keyAllowed, c) := plainParts inFlow indent fuel ended gap c
        (part ++ others, keyAllowed, c)

/-! ## Block scalars -/

/-- What happens to the line breaks at the end of a block scalar. -/
inductive Chomping where
  | clip
  | strip
  | keep
deriving DecidableEq, Repr

/-- The chomping that a sign asks for. -/
def chomping? (c : Option Char) : Option Chomping :=
  match c with
  | some '+' => some .keep
  | some '-' => some .strip
  | _ => none

/-- The indentation that a digit asks for. -/
def increment? (c : Option Char) : Option Nat :=
  match c with
  | some d => if '0' ≤ d ∧ d ≤ '9' then some (d.toNat - 48) else none
  | none => none

/-- The signs behind the opening of a block scalar, in either order. -/
def blockHeader (c : Cursor) : Except Error (Chomping × Option Nat × Cursor) := do
  let (chomping, increment, c) : Option Chomping × Option Nat × Cursor :=
    match chomping? c.next, increment? c.next with
    | some h, _ =>
      match increment? (c.peek 1) with
      | some n => (some h, some n, c.advance 2)
      | none => (some h, none, c.forward)
    | none, some n =>
      match chomping? (c.peek 1) with
      | some h => (some h, some n, c.advance 2)
      | none => (none, some n, c.forward)
    | none, none => (none, none, c)
  if increment = some 0 ∨ !endsPart c.next then throw .malformed
  let c := c.skipComment
  if !endsLine c.next then throw .malformed
  return (chomping.getD .clip, increment, c.lineBreak.2)

/-- The empty lines in front of a block, the widest indentation among them, and where to go on. -/
def leadingLines : Nat → Nat → Cursor → List Char × Nat × Cursor
  | 0, widest, c => ([], widest, c)
  | fuel + 1, widest, c =>
    match c.next with
    | none => ([], widest, c)
    | some x =>
      if x == ' ' then leadingLines fuel (max widest c.forward.column) c.forward
      else if isBreak x then
        let (b, c) := c.lineBreak
        let (bs, widest, c) := leadingLines fuel widest c
        (b ++ bs, widest, c)
      else ([], widest, c)

/-- The place after at most as many spaces as lead to a column. -/
def Cursor.indentTo (c : Cursor) (indent : Nat) : Cursor :=
  c.advance ((c.rest.take (indent - c.column)).takeWhile (· == ' ')).length

/-- The line breaks in front of the next line of a block. -/
def breaksInBlock (indent : Nat) : Nat → Cursor → List Char × Cursor
  | 0, c => ([], c)
  | fuel + 1, c =>
    let c := c.indentTo indent
    if (c.next.map isBreak).getD false then
      let (b, c) := c.lineBreak
      let (bs, c) := breaksInBlock indent fuel c
      (b ++ bs, c)
    else ([], c)

/-- The lines of a block: their text, the break behind the last one, and the breaks after that. In a
folded block a line break between lines that do not start with a blank is a space. -/
def blockLines (folded : Bool) (indent : Nat) :
    Nat → List Char → Cursor → List Char × List Char × List Char × Cursor
  | 0, breaks, c => ([], [], breaks, c)
  | fuel + 1, breaks, c =>
    let blank (x : Option Char) : Bool := x == some ' ' || x == some '\t'
    let inner := !blank c.next
    let (line, c) := c.span (!isBreak ·)
    let (b, c) := c.lineBreak
    let (bs, c) := breaksInBlock indent (c.rest.length + 1) c
    if c.column = indent ∧ c.next.isSome then
      let joint := if folded && b == ['\n'] && inner && !blank c.next then
          (if bs.isEmpty then [' '] else []) else b
      let (text, last, tail, c) := blockLines folded indent fuel bs c
      (breaks ++ line ++ joint ++ text, last, tail, c)
    else (breaks ++ line, b, bs, c)

/-- The text of a block scalar in a collection whose indentation is `indent`. -/
def blockScalar (folded : Bool) (indent : Int) (c : Cursor) : Except Error (List Char × Cursor) := do
  let (chomping, increment, c) ← blockHeader c.forward
  let least := max 1 (indent + 1).toNat
  let fuel := c.rest.length + 1
  let (breaks, indent, c) := match increment with
    | some n =>
      let indent := least + n - 1
      let (bs, c) := breaksInBlock indent fuel c
      (bs, indent, c)
    | none =>
      let (bs, widest, c) := leadingLines fuel 0 c
      (bs, max least widest, c)
  let (text, last, tail, c) := if c.column = indent ∧ c.next.isSome then
      blockLines folded indent fuel breaks c
    else ([], [], breaks, c)
  return (text ++ (if chomping = .strip then [] else last) ++ (if chomping = .keep then tail else []), c)

end Actionbook.Yaml
