import Actionbook.Xml.Name
import Actionbook.Text.Digit

/-!
# Markup

The smallest parts of documents: blanks, references, comments, processing instructions
and quoted literals. Each reader takes the part off the start of a text, or fails.
-/

namespace Actionbook.Xml

/-- Whether a character can occur in a document. -/
def isDocumentChar (c : Char) : Bool :=
  (c.toNat ≥ 32 && c.toNat != 0xFFFE && c.toNat != 0xFFFF) || c == '\t' || c == '\n' || c == '\r'

/-- Whether a character is a blank of markup. -/
def isSpace (c : Char) : Bool := c == ' ' || c == '\t' || c == '\n' || c == '\r'

/-- A text without the blanks at its start. -/
def skipSpaces (s : List Char) : List Char := s.dropWhile isSpace

/-- What follows `word` at the start of a text. -/
def after? (word : String) (s : List Char) : Option (List Char) :=
  if word.toList.isPrefixOf s then some (s.drop word.length) else none

/-- What stands before the first `stop`, and what follows it. -/
def upTo? (stop : String) : List Char → Option (List Char × List Char)
  | [] => none
  | c :: r =>
    match after? stop (c :: r) with
    | some rest => some ([], rest)
    | none => (upTo? stop r).map fun (a, b) => (c :: a, b)

/-- The rest after a comment whose opening has been read. Two hyphens end it. -/
def afterComment? (s : List Char) : Option (List Char) :=
  match upTo? "--" s with
  | some (_, '>' :: rest) => some rest
  | _ => none

/-- The rest after a processing instruction whose opening has been read. Its target must not be the
word that opens a document's declaration, in any case. -/
def afterInstruction? (s : List Char) : Option (List Char) := do
  let (target, r) ← name? s
  if (target.map Char.toLower) = "xml".toList then none
  else
    match r with
    | '?' :: '>' :: rest => some rest
    | c :: r => if isSpace c then (upTo? "?>" r).map (·.2) else none
    | [] => none

/-- A literal between quotes, and what follows it. -/
def literal? : List Char → Option (List Char × List Char)
  | c :: r =>
    if c = '"' ∨ c = '\x27' then
      let inside := r.takeWhile (· ≠ c)
      match r.dropWhile (· ≠ c) with
      | _ :: rest => some (inside, rest)
      | [] => none
    else none
  | [] => none

/-! ## References -/

inductive Reference where
  | character (c : Char)
  | entity (name : List Char)
deriving Repr

/-- The number that digits of a base denote, if they are such. -/
def digitsIn? (base : Nat) (digits : List Char) : Option Nat :=
  if digits.isEmpty then none
  else digits.foldl (fun n c => do
    let n ← n
    let d ← if '0' ≤ c ∧ c ≤ '9' then some (c.toNat - 48)
      else if 'a' ≤ c ∧ c ≤ 'f' then some (c.toNat - 87)
      else if 'A' ≤ c ∧ c ≤ 'F' then some (c.toNat - 55)
      else none
    if d < base then some (base * n + d) else none) (some 0)

/-- The character with a number, if documents can hold it. -/
def characterAt? (n : Nat) : Option Char :=
  if h : n.isValidChar then
    let c := Char.ofNatAux n h
    if isDocumentChar c then some c else none
  else none

/-- A reference whose ampersand has been read, and what follows it. -/
def reference? : List Char → Option (Reference × List Char)
  | '#' :: 'x' :: r =>
    match r.dropWhile (· ≠ ';') with
    | _ :: rest => do
      let n ← digitsIn? 16 (r.takeWhile (· ≠ ';'))
      return (.character (← characterAt? n), rest)
    | [] => none
  | '#' :: r =>
    match r.dropWhile (· ≠ ';') with
    | _ :: rest => do
      let n ← digitsIn? 10 (r.takeWhile (· ≠ ';'))
      return (.character (← characterAt? n), rest)
    | [] => none
  | r =>
    match name? r with
    | some (name, ';' :: rest) => some (.entity name, rest)
    | _ => none

/-- The character of an entity that needs no declaration. -/
def predefined? (name : List Char) : Option Char :=
  [("lt", '<'), ("gt", '>'), ("amp", '&'), ("quot", '"'), ("apos", '\x27')].lookup (String.ofList name)

theorem name?_length {s n r : List Char} (h : name? s = some (n, r)) : r.length < s.length := by
  cases s with
  | nil => simp [name?] at h
  | cons c t =>
    simp only [name?] at h
    split at h
    · simp only [Option.some.injEq, Prod.mk.injEq] at h
      rw [← h.2]
      have := (List.dropWhile_sublist (p := isNameChar) (l := t)).length_le
      simp only [List.length_cons]; omega
    · simp at h

theorem reference?_length {s : List Char} {a : Reference} {r : List Char}
    (h : reference? s = some (a, r)) : r.length < s.length := by
  have tail : ∀ (t : List Char) (x : Char) (u : List Char),
      t.dropWhile (· ≠ ';') = x :: u → u.length < t.length := by
    intro t x u e
    have := (List.dropWhile_sublist (p := (· ≠ ';')) (l := t)).length_le
    rw [e] at this; simp only [List.length_cons] at this; omega
  unfold reference? at h
  split at h
  · split at h
    · rename_i e
      have := tail _ _ _ e
      simp only [Option.bind_eq_bind, Option.pure_def, Option.bind_eq_some_iff, Option.some.injEq,
        Prod.mk.injEq] at h
      obtain ⟨_, _, _, _, _, rfl⟩ := h
      simp only [List.length_cons]; omega
    · simp at h
  · split at h
    · rename_i e
      have := tail _ _ _ e
      simp only [Option.bind_eq_bind, Option.pure_def, Option.bind_eq_some_iff, Option.some.injEq,
        Prod.mk.injEq] at h
      obtain ⟨_, _, _, _, _, rfl⟩ := h
      simp only [List.length_cons]; omega
    · simp at h
  · split at h
    · rename_i e
      have := name?_length e
      simp only [Option.some.injEq, Prod.mk.injEq] at h
      rw [← h.2]
      simp only [List.length_cons] at this; omega
    · simp at h

end Actionbook.Xml
