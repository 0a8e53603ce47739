import Actionbook.Proofs.Documents
import Actionbook.Typing
import Mathlib.Data.List.TakeWhile

/-!
# Literals and the texts that show them

A document may write any text as a number, and a truth value in any case. Where a sentence quotes a literal,
a captured text becomes a number only if it is written as one (`Numeral.Written`), and a truth value always
in small letters. So the text that displays a literal is read as this literal again just if the literal is
`Value.Conventional` (`Value.Literal.reread_eq`).
-/

namespace Actionbook

/-! ## The end of a text -/

namespace Text

/-- A text has no line break at its end. -/
def Closed (s : List Char) : Prop := ∀ l, s ≠ l ++ ['\n']

theorem trimRight_ne_append_blank {c : Char} (hc : isBlank c = true) (s l : List Char) :
    trimRight s ≠ l ++ [c] := by
  induction s generalizing l with
  | nil => simp [trimRight]
  | cons d s ih =>
    have hcons : trimRight (d :: s) =
        if (trimRight s).isEmpty && isBlank d then [] else d :: trimRight s := rfl
    rw [hcons]
    split
    · simp
    · rename_i hkept
      intro heq
      cases l with
      | nil =>
        obtain ⟨rfl, hs⟩ := List.cons.inj heq
        rw [hs, hc] at hkept
        exact hkept rfl
      | cons e l => exact ih l (List.cons.inj heq).2

theorem closed_trim (s : List Char) : Closed (String.ofList (trim s)).toList := fun l => by
  rw [String.toList_ofList]
  exact trimRight_ne_append_blank (by decide) _ l

end Text

/-! ## Numbers -/

namespace Numeral

variable {s : List Char}

/-- Digits, with a point among them, before or behind them, or without one. -/
inductive Unsigned : List Char → Prop
  | whole {digits : List Char} (h : ∀ c ∈ digits, Text.isDigit c = true) (hne : digits ≠ []) :
      Unsigned digits
  | pointed {whole fraction : List Char} (hw : ∀ c ∈ whole, Text.isDigit c = true)
      (hf : ∀ c ∈ fraction, Text.isDigit c = true) (hne : whole ≠ [] ∨ fraction ≠ []) :
      Unsigned (whole ++ '.' :: fraction)

/-- A decimal number: a sign or none, and digits with a point or without one. -/
inductive Written : List Char → Prop
  | bare {s : List Char} (h : Unsigned s) : Written s
  | signed {sign : Char} {s : List Char} (hsign : sign = '+' ∨ sign = '-') (h : Unsigned s) :
      Written (sign :: s)

theorem dropFinalNewline_of_closed (hs : Text.Closed s) : dropFinalNewline s = s := by
  fun_induction dropFinalNewline s with
  | case1 => rfl
  | case2 => exact absurd rfl (hs [])
  | case3 c r hne ih => rw [ih fun l hl => hs (c :: l) (congrArg (c :: ·) hl)]

/-- Digits with a point or without one begin with a digit or with the point. -/
theorem Unsigned.head (h : Unsigned s) : ∀ c r, s = c :: r → Text.isDigit c = true ∨ c = '.' := by
  cases h with
  | whole h hne =>
    rintro c r rfl
    exact .inl (h c List.mem_cons_self)
  | pointed hw hf hne =>
    rename_i whole fraction
    intro c r heq
    cases whole with
    | nil => exact .inr (List.cons.inj heq).1.symm
    | cons d whole =>
      obtain ⟨rfl, -⟩ := List.cons.inj heq
      exact .inl (hw d List.mem_cons_self)

theorem Unsigned.dropSign (h : Unsigned s) : Numeral.dropSign s = s := by
  unfold Numeral.dropSign
  split
  · rcases h.head _ _ rfl with hc | hc <;> exact absurd hc (by decide)
  · rcases h.head _ _ rfl with hc | hc <;> exact absurd hc (by decide)
  · rfl

theorem written_iff : Written s ↔ Unsigned (dropSign s) := by
  constructor
  · rintro (h | ⟨rfl | rfl, h⟩)
    · rwa [h.dropSign]
    · exact h
    · exact h
  · intro h
    unfold dropSign at h
    split at h
    · exact .signed (.inl rfl) h
    · exact .signed (.inr rfl) h
    · exact .bare h

/-- **What is taken for a number** is a decimal number. -/
theorem isDecimal_iff (hs : Text.Closed s) : isDecimal s = true ↔ Written s := by
  rw [written_iff, isDecimal, dropFinalNewline_of_closed hs]
  generalize dropSign s = t
  constructor
  · intro h
    have hwhole : ∀ c ∈ t.takeWhile Text.isDigit, Text.isDigit c = true := fun c hc =>
      List.mem_takeWhile_imp hc
    have hsplit := List.takeWhile_append_dropWhile (p := Text.isDigit) (l := t)
    split at h
    · rename_i hrest
      rw [hrest, List.append_nil] at hsplit
      rw [← hsplit]
      exact .whole hwhole (by rw [hsplit]; simpa using h)
    · rename_i fraction hrest
      rw [Bool.and_eq_true, List.all_eq_true] at h
      rw [← hsplit, hrest]
      refine .pointed hwhole h.1 ?_
      simpa [not_and_or] using h.2
    · cases h
  · rintro (⟨h, hne⟩ | ⟨hw, hf, hne⟩)
    · have hrest : t.dropWhile Text.isDigit = [] := List.dropWhile_eq_nil_iff.2 h
      rw [hrest]
      simpa using hne
    · rename_i whole fraction
      have hpoint : Text.isDigit '.' = false := by decide
      have hrest : (whole ++ '.' :: fraction).dropWhile Text.isDigit = '.' :: fraction := by
        rw [List.dropWhile_append_of_pos hw, List.dropWhile_cons_of_neg (by simp [hpoint])]
      have hfirst : (whole ++ '.' :: fraction).takeWhile Text.isDigit = whole := by
        rw [List.takeWhile_append_of_pos hw, List.takeWhile_cons_of_neg (by simp [hpoint]),
          List.append_nil]
      rw [hrest]
      simp only [hfirst]
      simpa [not_and_or] using ⟨hf, hne⟩

end Numeral

/-! ## The values of documents -/

namespace Value

/-- A value that is read from a document. -/
def Read (v : Value) : Prop := ∃ e, readValue e = .ok v

/-- A part of a template: a text or a reference. -/
inductive Part : Value → Prop
  | string (t : String) : Part (.string t)
  | variable (name : String) : Part (.variable name)

/-- What the values of documents are like. -/
inductive Written : Value → Prop
  | string (t : String) : Written (.string t)
  | numeric {t : String} (ht : Text.Closed t.toList) : Written (.numeric t)
  | boolean {t : String} (ht : isTruthText t = true) : Written (.boolean t)
  | null : Written (.null "")
  | variable (name : String) : Written (.variable name)
  | template {parts : List Value} (hparts : ∀ p ∈ parts, p.Part) : Written (.template "" parts)

theorem variable_of_readVariable {e : Xml.Element} {v : Value} (h : readVariable e = .ok v) :
    ∃ name, v = .variable name := by
  unfold readVariable at h
  cases hname : requiredChild e "name" "variable" <;> rw [hname] at h <;> cases h
  exact ⟨_, rfl⟩

theorem part_of_readPart {e : Xml.Element} {v : Value} (h : readPart e = .ok v) : v.Part := by
  unfold readPart at h
  split at h
  · cases h
    exact .string _
  · split at h
    · obtain ⟨name, rfl⟩ := variable_of_readVariable h
      exact .variable name
    · cases h

theorem Read.written {v : Value} (hv : v.Read) : v.Written := by
  obtain ⟨e, he⟩ := hv
  unfold readValue at he
  dsimp only at he
  split at he
  · cases he
    exact .string _
  · split at he
    · cases he
    · cases he
      exact .numeric (Text.closed_trim _)
  · split at he
    · rename_i htruth
      cases he
      exact .boolean htruth
    · cases he
  · cases he
    exact .null
  · obtain ⟨name, rfl⟩ := variable_of_readVariable he
    exact .variable name
  · cases hparts : e.children.mapM readPart <;> rw [hparts] at he <;> cases he
    refine .template fun p hp => ?_
    obtain ⟨c, -, hc⟩ := exists_of_mapM_ok hparts hp
    exact part_of_readPart hc
  · cases he

end Value

/-! ## Literals -/

namespace Value

/-- A literal of a document that is a text, a number or a truth value. -/
structure Literal (v : Value) : Prop where
  read : ∃ e, readValue e = .ok v
  kind : v.kind = .string ∨ v.kind = .numeric ∨ v.kind = .boolean

/-- A literal that is written as the texts are which are taken for one: a number as a decimal number, a
truth value in small letters. -/
def Conventional : Value → Prop
  | .numeric t => Numeral.Written t.toList
  | .boolean t => t = "true" ∨ t = "false"
  | _ => True

/-- The literal that a text which displays a literal becomes for a parameter of the type that the literal
shows. -/
def reread (v : Value) : Value := .ofCaptured v.display v.typeTag

/-- What the literals of a document are written like. -/
theorem Literal.written {v : Value} (hv : v.Literal) : (∀ t, v = .numeric t → Text.Closed t.toList) ∧
    ∀ t, v = .boolean t → isTruthText t = true := by
  constructor <;> rintro t rfl <;> cases Read.written hv.read <;> assumption

theorem isTruthText_lowercase {t : String} (ht : isTruthText t = true) :
    (Text.lowercase t = "true" ∨ Text.lowercase t = "false") ∧
      Text.lowercase (Text.lowercase t) = Text.lowercase t := by
  rw [isTruthText, Bool.or_eq_true, beq_iff_eq, beq_iff_eq] at ht
  refine ⟨ht, ?_⟩
  rcases ht with ht | ht <;> rw [ht] <;> decide

/-- A number is read again as a number just if it is written as one. -/
theorem reread_numeric (t : String) :
    (numeric t).reread = if Numeral.isDecimal t.toList then .numeric t else .string t := by
  have htype : (numeric t).typeTag = some LiteralType.int.tag ∨
      (numeric t).typeTag = some LiteralType.float.tag := by
    cases hint : Numeral.isInteger t.toList <;> simp [typeTag, literalType, hint]
  have hbool : ¬ (numeric t).typeTag = some LiteralType.bool.tag := by
    rcases htype with h | h <;> rw [h] <;> decide
  have hnumber : ((numeric t).typeTag == some LiteralType.int.tag ||
      (numeric t).typeTag == some LiteralType.float.tag) = true := by
    rcases htype with h | h <;> rw [h] <;> decide
  simp only [reread, ofCaptured, display, source, hnumber, Bool.true_and, beq_eq_false_iff_ne.2 hbool,
    Bool.false_and, Bool.false_eq_true, if_false]

/-- A truth value is read again in small letters. -/
theorem reread_boolean {t : String} (ht : isTruthText t = true) :
    (boolean t).reread = .boolean (Text.lowercase t) := by
  obtain ⟨hcase, hsame⟩ := isTruthText_lowercase ht
  have htruth : isTruthText (Text.lowercase t) = true := by
    rw [isTruthText, hsame, Bool.or_eq_true, beq_iff_eq, beq_iff_eq]
    exact hcase
  have htag : (boolean t).typeTag = some LiteralType.bool.tag := rfl
  have hnumber : (some LiteralType.bool.tag == some LiteralType.int.tag ||
      some LiteralType.bool.tag == some LiteralType.float.tag) = false := by decide
  simp only [reread, ofCaptured, display, source, htag, hnumber, htruth, hsame, Bool.false_and,
    Bool.false_eq_true, if_false, beq_self_eq_true, Bool.and_self, if_true]

/-- A text stays a text. -/
theorem reread_string (t : String) : (string t).reread = .string t := by
  have hnumber : (some LiteralType.string.tag == some LiteralType.int.tag ||
      some LiteralType.string.tag == some LiteralType.float.tag) = false := by decide
  have hbool : (some LiteralType.string.tag == some LiteralType.bool.tag) = false := by decide
  have htag : (string t).typeTag = some LiteralType.string.tag := rfl
  simp only [reread, ofCaptured, display, htag, hnumber, hbool, Bool.false_and, Bool.false_eq_true,
    if_false]

/-- **A literal is read again as itself** just if it is conventional. -/
theorem Literal.reread_eq {v : Value} (hv : v.Literal) : v.reread = v ↔ v.Conventional := by
  obtain ⟨hnumber, htruth⟩ := hv.written
  have hkind := hv.kind
  cases v with
  | string t => exact iff_of_true (reread_string t) trivial
  | numeric t =>
    rw [reread_numeric, Conventional, ← Numeral.isDecimal_iff (hnumber t rfl)]
    by_cases hd : Numeral.isDecimal t.toList = true
    · rw [if_pos hd]
      exact iff_of_true rfl hd
    · rw [if_neg hd]
      exact iff_of_false nofun hd
  | boolean t =>
    rw [reread_boolean (htruth t rfl), Conventional, boolean.injEq]
    constructor
    · exact fun h => h ▸ (isTruthText_lowercase (htruth t rfl)).1
    · rintro (rfl | rfl) <;> decide
  | null t => rcases hkind with h | h | h <;> cases h
  | «variable» name => rcases hkind with h | h | h <;> cases h
  | template t parts => rcases hkind with h | h | h <;> cases h

end Value

end Actionbook
