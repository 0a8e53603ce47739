import Actionbook.Yaml.Scalar
import Actionbook.Yaml.Token

/-!
# Reading tokens

A text is read token by token. A key without a sign of its own is recognised only by the colon behind
it: every token that might be such a key is remembered until the line ends or more than 1024
characters follow, and the sign is put in front of it when the colon comes.
-/

namespace Actionbook.Yaml

/-! ## Tokens without context -/

/-- Whether a character can stand in the name of an anchor or of a directive. -/
def isWordChar (c : Char) : Bool := c.isAlphanum || c == '-' || c == '_'

/-- The name behind the sign of an anchor or an alias. -/
def anchorName (c : Cursor) : Except Error (String × Cursor) := do
  let (name, c) := c.forward.span isWordChar
  let ends := match c.next with
    | none => true
    | some x => isGap x || "?:,]\x7d%@\x60".toList.contains x
  if name.isEmpty || !ends then throw .malformed
  return (String.ofList name, c)

/-- The characters that escapes in a tag stand for: they are given by their bytes. -/
def tagEscapes : Nat → Cursor → Except Error (List UInt8 × Cursor)
  | 0, c => .ok ([], c)
  | fuel + 1, c =>
    if c.next == some '%' then do
      let (n, c) ← c.forward.hexDigits 2
      let (others, c) ← tagEscapes fuel c
      return (UInt8.ofNat n :: others, c)
    else .ok ([], c)

/-- Whether a character can stand in a tag. -/
def isTagChar (c : Char) : Bool :=
  c.isAlphanum || "-;/?:@&=+$,_.!~*\x27()[]%".toList.contains c

/-- The characters of a tag, as far as there are any. -/
def tagText : Nat → Cursor → Except Error (List Char × Cursor)
  | 0, c => .ok ([], c)
  | fuel + 1, c => do
    let (here, c) := c.span fun x => isTagChar x && x != '%'
    if c.next == some '%' then
      let (bytes, c) ← tagEscapes c.rest.length c
      match String.fromUTF8? ⟨bytes.toArray⟩ with
      | none => throw .malformed
      | some s =>
        let (others, c) ← tagText fuel c
        return (here ++ s.toList ++ others, c)
    else return (here, c)

/-- A tag or the value of a directive for tags; it must not be empty. -/
def tagUri (c : Cursor) : Except Error (String × Cursor) := do
  let (text, c') ← tagText (c.rest.length + 1) c
  if c'.index = c.index then throw .malformed
  return (String.ofList text, c')

/-- The handle of a tag: an exclamation mark alone or a word between two. -/
def tagHandle (c : Cursor) : Except Error (String × Cursor) := do
  if c.next ≠ some '!' then throw .malformed
  if c.peek 1 == some ' ' then return ("!", c.forward)
  let (word, c) := c.forward.span isWordChar
  if c.next ≠ some '!' then throw .malformed
  return (String.ofList ('!' :: word ++ ['!']), c.forward)

def writtenTag (c : Cursor) : Except Error (WrittenTag × Cursor) := do
  let (tag, c) ← match c.peek 1 with
    | some '<' => do
      let (suffix, c) ← tagUri (c.advance 2)
      if c.next ≠ some '>' then throw .malformed
      pure (⟨none, suffix⟩, c.forward)
    | x =>
      if endsWord x then pure ((⟨none, "!"⟩ : WrittenTag), c.forward)
      else do
        let word := (c.rest.drop 1).takeWhile fun x => !(x == ' ' || isBreak x)
        let (handle, c) ← if word.contains '!' then tagHandle c else pure ("!", c.forward)
        let (suffix, c) ← tagUri c
        pure (⟨some handle, suffix⟩, c)
  if !endsPart c.next then throw .malformed
  return (tag, c)

def directiveNumber (c : Cursor) : Except Error (Nat × Cursor) := do
  let (digits, c) := c.span Char.isDigit
  if digits.isEmpty then throw .malformed
  if digits.length > 4300 then throw (.longInteger digits.length)
  return (digits.foldl (fun n d => 10 * n + (d.toNat - 48)) 0, c)

def directive (c : Cursor) : Except Error (Token × Cursor) := do
  let (name, c) := c.forward.span isWordChar
  if name.isEmpty || !endsPart c.next then throw .malformed
  let (token, c) ← match String.ofList name with
    | "YAML" => do
      let (major, c) ← directiveNumber c.skipSpaces
      if c.next ≠ some '.' then throw .malformed
      let (minor, c) ← directiveNumber c.forward
      if !endsPart c.next then throw .malformed
      pure (Token.versionDirective major minor, c)
    | "TAG" => do
      let (handle, c) ← tagHandle c.skipSpaces
      if c.next ≠ some ' ' then throw .malformed
      let (value, c) ← tagUri c.skipSpaces
      if !endsPart c.next then throw .malformed
      pure (Token.tagDirective handle value, c)
    | _ => pure (Token.otherDirective, c.skip (!isBreak ·))
  let c := c.skipComment
  if !endsLine c.next then throw .malformed
  return (token, c.lineBreak.2)

/-! ## Tokens in context -/

/-- A token that might be a key. -/
structure KeyCandidate where
  /-- The number of tokens in front of it. -/
  place : Nat
  /-- Whether only a key can stand here. -/
  required : Bool
  index : Nat
  line : Nat
  column : Nat

/-- How far a text has been read. -/
structure Lexer where
  cursor : Cursor
  /-- The tokens so far, the last one first. -/
  tokens : List Token := []
  count : Nat := 0
  /-- The number of flow collections around. -/
  flow : Nat := 0
  /-- The indentation of the block collection around. -/
  indent : Int := -1
  /-- The indentations of the block collections further out. -/
  outer : List Int := []
  /-- Whether a key may start here. -/
  keyAllowed : Bool := true
  /-- The possible keys, by the number of flow collections around them. -/
  candidates : List (Nat × KeyCandidate) := []

namespace Lexer

def push (s : Lexer) (t : Token) : Lexer := { s with tokens := t :: s.tokens, count := s.count + 1 }

/-- Puts a token in front of the one with the given number. -/
def insert (s : Lexer) (place : Nat) (t : Token) : Lexer :=
  let later := s.count - place
  { s with tokens := s.tokens.take later ++ t :: s.tokens.drop later, count := s.count + 1 }

/-- Ends the block collections that are indented more than `column`. -/
def unwind (s : Lexer) (column : Int) : Lexer :=
  if s.flow > 0 then s
  else
    let all := s.indent :: s.outer
    let closed := all.takeWhile (· > column)
    match all.drop closed.length with
    | [] => s
    | indent :: outer =>
      { s with
        indent, outer, count := s.count + closed.length
        tokens := List.replicate closed.length Token.blockEnd ++ s.tokens }

/-- Whether a block collection starts at a column. -/
def opensBlock (s : Lexer) (column : Nat) : Bool := s.flow == 0 && decide (s.indent < column)

/-- Enters a block collection. -/
def indentTo (s : Lexer) (column : Nat) : Lexer :=
  { s with indent := column, outer := s.indent :: s.outer }

/-- Forgets the possible keys that are out of reach; a required one must not be forgotten. -/
def dropStale (s : Lexer) : Except Error Lexer :=
  let stale (k : KeyCandidate) : Bool :=
    k.line != s.cursor.line || decide (s.cursor.index - k.index > 1024)
  if s.candidates.any fun e => stale e.2 && e.2.required then .error .malformed
  else .ok { s with candidates := s.candidates.filter fun e => !stale e.2 }

/-- Forgets the possible key at this level. -/
def dropCandidate (s : Lexer) : Except Error Lexer :=
  if s.candidates.any fun e => e.1 == s.flow && e.2.required then .error .malformed
  else .ok { s with candidates := s.candidates.filter fun e => e.1 != s.flow }

/-- Remembers that the next token might be a key. -/
def addCandidate (s : Lexer) : Except Error Lexer := do
  if s.keyAllowed then
    let required := s.flow == 0 && s.indent == (s.cursor.column : Int)
    let s ← s.dropCandidate
    let k : KeyCandidate := ⟨s.count, required, s.cursor.index, s.cursor.line, s.cursor.column⟩
    return { s with candidates := (s.flow, k) :: s.candidates }
  else return s

/-- Skips what stands between tokens: spaces, comments and line breaks. -/
def skipGap : Nat → Lexer → Lexer
  | 0, s => s
  | fuel + 1, s =>
    let c := s.cursor.skipComment
    let (b, after) := c.lineBreak
    if b.isEmpty then { s with cursor := c }
    else skipGap fuel { s with cursor := after, keyAllowed := s.keyAllowed || s.flow == 0 }

/-- Adds the token that a sign of `width` characters is. -/
def sign (s : Lexer) (t : Token) (width : Nat) : Lexer :=
  { s.push t with cursor := s.cursor.advance width }

/-- Adds a token that may be a key itself. -/
def content (s : Lexer) (read : Cursor → Except Error (Token × Cursor)) : Except Error Lexer := do
  let s ← s.addCandidate
  let (t, c) ← read s.cursor
  return { s.push t with cursor := c, keyAllowed := false }

/-- Adds a marker between documents. -/
def marker (s : Lexer) (t : Token) : Except Error Lexer := do
  let s ← (s.unwind (-1)).dropCandidate
  return { s.sign t 3 with keyAllowed := false }

def addDirective (s : Lexer) : Except Error Lexer := do
  let s ← (s.unwind (-1)).dropCandidate
  let (t, c) ← directive s.cursor
  return { s.push t with cursor := c, keyAllowed := false }

/-- Enters a flow collection. -/
def openFlow (s : Lexer) (t : Token) : Except Error Lexer := do
  let s ← s.addCandidate
  return { s.sign t 1 with flow := s.flow + 1, keyAllowed := true }

/-- Leaves a flow collection; there must be one. -/
def closeFlow (s : Lexer) (t : Token) : Except Error Lexer := do
  let s ← s.dropCandidate
  if s.flow = 0 then throw .malformed
  return { s.sign t 1 with flow := s.flow - 1, keyAllowed := false }

/-- Adds the sign between the entries of a flow collection. -/
def addFlowEntry (s : Lexer) : Except Error Lexer := do
  let s ← s.dropCandidate
  return { s.sign .flowEntry 1 with keyAllowed := true }

/-- Adds the sign of an entry of a block sequence. -/
def addBlockEntry (s : Lexer) : Except Error Lexer := do
  if s.flow = 0 ∧ !s.keyAllowed then throw .malformed
  let s := if s.opensBlock s.cursor.column then
      (s.indentTo s.cursor.column).push .blockSequenceStart else s
  let s ← s.dropCandidate
  return { s.sign .blockEntry 1 with keyAllowed := true }

/-- Adds the sign of a key. -/
def addKey (s : Lexer) : Except Error Lexer := do
  if s.flow = 0 ∧ !s.keyAllowed then throw .malformed
  let s := if s.opensBlock s.cursor.column then
      (s.indentTo s.cursor.column).push .blockMappingStart else s
  let s ← s.dropCandidate
  return { s.sign .key 1 with keyAllowed := s.flow == 0 }

/-- Adds the sign of a value. If there is a possible key, it is one. -/
def addValue (s : Lexer) : Except Error Lexer := do
  match s.candidates.lookup s.flow with
  | some k =>
    let s := { s with candidates := s.candidates.filter fun e => e.1 != s.flow }
    let s := s.insert k.place .key
    let s := if s.opensBlock k.column then (s.indentTo k.column).insert k.place .blockMappingStart else s
    return { s.sign .value 1 with keyAllowed := false }
  | none =>
    if s.flow = 0 ∧ !s.keyAllowed then throw .malformed
    let s := if s.opensBlock s.cursor.column then
        (s.indentTo s.cursor.column).push .blockMappingStart else s
    let s ← { s with keyAllowed := s.flow == 0 }.dropCandidate
    return s.sign .value 1

def addBlockScalar (s : Lexer) (folded : Bool) : Except Error Lexer := do
  let s ← { s with keyAllowed := true }.dropCandidate
  let (text, c) ← blockScalar folded s.indent s.cursor
  return { s.push (.scalar (String.ofList text) false) with cursor := c }

/-- Adds a plain scalar. -/
def addPlain (s : Lexer) : Except Error Lexer := do
  let s ← s.addCandidate
  let (text, keyAllowed, c) :=
    plainParts (s.flow > 0) (s.indent + 1) (s.cursor.rest.length + 1) false [] s.cursor
  return { s.push (.scalar (String.ofList text) true) with cursor := c, keyAllowed }

/-- Whether a plain scalar can start with a character. -/
def startsPlain (s : Lexer) (x : Char) : Bool :=
  !(isGap x || "-?:,[]\x7b\x7d#&*!|>\x27\"%@\x60".toList.contains x) ||
    (!endsWord (s.cursor.peek 1) && (x == '-' || (s.flow == 0 && (x == '?' || x == ':'))))

/-- Adds the token that starts with `x`. -/
def addToken (s : Lexer) (x : Char) : Except Error Lexer :=
  let c := s.cursor
  let spaced := endsWord (c.peek 1)
  if x == '%' && c.column == 0 then s.addDirective
  else if c.column == 0 && c.atMarker then
    s.marker (if x == '-' then .documentStart else .documentEnd)
  else
    match x with
    | '[' => s.openFlow .flowSequenceStart
    | '\x7b' => s.openFlow .flowMappingStart
    | ']' => s.closeFlow .flowSequenceEnd
    | '\x7d' => s.closeFlow .flowMappingEnd
    | ',' => s.addFlowEntry
    | '*' => s.content fun c => (anchorName c).map fun (n, c) => (.alias n, c)
    | '&' => s.content fun c => (anchorName c).map fun (n, c) => (.anchor n, c)
    | '!' => s.content fun c => (writtenTag c).map fun (t, c) => (.tag t, c)
    | '\x27' => s.content fun c => (quotedScalar false c).map fun (t, c) => (.scalar (String.ofList t) false, c)
    | '"' => s.content fun c => (quotedScalar true c).map fun (t, c) => (.scalar (String.ofList t) false, c)
    | _ =>
      if x == '-' && spaced then s.addBlockEntry
      else if x == '?' && (s.flow > 0 || spaced) then s.addKey
      else if x == ':' && (s.flow > 0 || spaced) then s.addValue
      else if x == '|' && s.flow == 0 then s.addBlockScalar false
      else if x == '>' && s.flow == 0 then s.addBlockScalar true
      else if s.startsPlain x then s.addPlain
      else .error .malformed

/-- Reads the next token, or the end. -/
def step (s : Lexer) : Except Error Lexer := do
  let s ← (skipGap (s.cursor.rest.length + 1) s).dropStale
  let s := s.unwind s.cursor.column
  match s.cursor.next with
  | none =>
    let s ← (s.unwind (-1)).dropCandidate
    return s.push .finish
  | some x => s.addToken x

/-- Reads tokens up to the end or to a failure. -/
def run : Nat → Lexer → List Token
  | 0, s => s.tokens.reverse
  | fuel + 1, s =>
    match s.step with
    | .error e => (Token.failure e :: s.tokens).reverse
    | .ok s => if s.tokens.head? = some .finish then s.tokens.reverse else run fuel s

end Lexer

def tokens (text : String) : List Token :=
  let c : Cursor := { rest := text.toList }
  let c := if c.next == some '\ufeff' then c.forward else c
  Lexer.run (c.rest.length + 2) { cursor := c }

end Actionbook.Yaml
