import Actionbook.Text.Blank
import Actionbook.Text.Case

/-!
# Sentence patterns

The name of an action word may hold placeholders: texts between double quotes. The name is then a
pattern for sentences, in which any text without a line break may stand between those quotes. Of
several ways to read a sentence the one is taken that gives the earlier placeholders the longer
texts. A line break at the very end of a sentence is overlooked.
-/

namespace Actionbook.Sentence

/-- A piece of an action word's name. -/
inductive Piece where
  /-- Characters that stand for themselves. -/
  | literal (text : List Char)
  /-- A text between double quotes, given without them. -/
  | placeholder (name : List Char)
deriving DecidableEq, Repr

/-- What stands before the first double quote, and what follows it. -/
def splitAtQuote : List Char → Option (List Char × List Char)
  | [] => none
  | c :: r => if c = '"' then some ([], r) else (splitAtQuote r).map fun (a, b) => (c :: a, b)

theorem splitAtQuote_length {s a b : List Char} (h : splitAtQuote s = some (a, b)) :
    b.length < s.length := by
  induction s generalizing a with
  | nil => simp [splitAtQuote] at h
  | cons c r ih =>
    simp only [splitAtQuote] at h
    split at h
    · simp only [Option.some.injEq, Prod.mk.injEq] at h
      simp [← h.2]
    · simp only [Option.map_eq_some_iff, Prod.exists, Prod.mk.injEq] at h
      obtain ⟨a', b', hr, _, rfl⟩ := h
      have := ih hr
      simp; omega

/-- The pieces of a name: a literal, then a placeholder and a literal for every pair of quotes. A
quote without a partner stands for itself. -/
def pieces (name : List Char) : List Piece :=
  match h : splitAtQuote name with
  | none => [.literal name]
  | some (before, afterOpen) =>
    match h' : splitAtQuote afterOpen with
    | none => [.literal name]
    | some (inside, rest) =>
      have := splitAtQuote_length h
      have := splitAtQuote_length h'
      .literal before :: .placeholder inside :: pieces rest
termination_by name.length

def placeholders (name : String) : List String :=
  (pieces name.toList).filterMap fun
    | .literal _ => none
    | .placeholder p => some (String.ofList p)

/-- The characters that stand behind a backslash in the written form of a pattern. -/
def isSpecial (c : Char) : Bool :=
  "()[]\x7b\x7d?*+-|^$\\.&~# \t\n\r\x0b\x0c".toList.contains c

def Piece.written : Piece → List Char
  | .literal t => t.flatMap fun c => if isSpecial c then ['\\', c] else [c]
  | .placeholder _ => "\"(.*)\"".toList

/-- The written form of a name's pattern: a regular expression for the whole of a sentence. -/
def writtenPattern (name : String) : String :=
  String.ofList ('^' :: (pieces name.toList).flatMap Piece.written ++ ['$'])

/-- What follows a text at the start of another. -/
def stripPrefix? : List Char → List Char → Option (List Char)
  | [], s => some s
  | _ :: _, [] => none
  | c :: p, d :: s => if c = d then stripPrefix? p s else none

/-- The ways to end a text without line breaks just before a double quote: the text and what follows
the quote, the longest text first. -/
def quotedReadings : List Char → List (List Char × List Char)
  | [] => []
  | c :: r =>
    let longer := if c = '\n' then [] else (quotedReadings r).map fun (a, b) => (c :: a, b)
    if c = '"' then longer ++ [([], r)] else longer

/-- The texts that the placeholders stand for when the pieces are read off a sentence. -/
def matchPieces : List Piece → List Char → Option (List (List Char))
  | [], s => if s = [] ∨ s = ['\n'] then some [] else none
  | .literal t :: ps, s => (stripPrefix? t s).bind (matchPieces ps)
  | .placeholder _ :: ps, s =>
    match s with
    | '"' :: r => (quotedReadings r).findSome? fun (text, rest) => (matchPieces ps rest).map (text :: ·)
    | _ => none

/-- The texts that a name's placeholders stand for in a sentence that follows the name's pattern. -/
def captures? (name sentence : String) : Option (List String) :=
  (matchPieces (pieces name.toList) sentence.toList).map fun texts => texts.map String.ofList

/-- The name with the placeholders replaced, quotes included, as `fill` says; where it says nothing
the placeholder stays. -/
def filled (fill : String → Option String) (name : String) : String :=
  String.ofList <| (pieces name.toList).flatMap fun
    | .literal t => t
    | .placeholder p =>
      '"' :: ((fill (String.ofList p)).map String.toList).getD p ++ ['"']

/-- A sentence without a keyword and a blank in front, in any case, and without blanks at its
ends. -/
def withoutKeyword (sentence keyword : String) : String :=
  let s := sentence.toList
  if (keyword.toList ++ [' ']).isPrefixOf (Text.lower s) then
    String.ofList (Text.trim (s.drop (keyword.length + 1)))
  else Text.trimmed sentence

end Actionbook.Sentence
