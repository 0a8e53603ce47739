import Actionbook.Output.Rendering

/-!
# The characters of identifiers

Of the characters of ASCII, identifiers have letters and digits, and what a naming convention puts between
words (`Subject.all_identifierAt`). So an identifier is the name of a file: it is not empty, and no slash is in
it. And where a convention puts a character between words, the words can be read off an identifier again
(`wordsBetween_identifier`), so that names with one identifier have the same words (`identifiers_tell_words`).

Words are made of letters and numbers. The case mappings are tables; that no letter is mapped to anything but
letters, or characters beyond ASCII, and none to nothing, is checked entry by entry (`CharMap.Targets`).
-/

namespace Actionbook

namespace Text

/-- Whether a character is a letter or a digit, or beyond ASCII. -/
def isWordly (c : Char) : Bool := 128 ≤ c.toNat || c.isAlphanum

theorem isWordly_of_isWordChar {c : Char} (h : isWordChar c = true) : isWordly c = true := by
  unfold isWordChar at h
  unfold isWordly
  split at h
  · rw [h, Bool.or_true]
  · rename_i hlarge
    rw [decide_eq_true (Nat.not_lt.1 hlarge), Bool.true_or]

/-! ## Case -/

namespace CharMap

variable {p : List Char → Bool} {m : CharMap} {lines : List String}

/-- All texts that the map has for characters have a property. -/
def Targets (p : List Char → Bool) (m : CharMap) : Prop :=
  ∀ (n : Nat) (s : List Char), m.targets[n]? = some s → p s = true

/-- All characters that the map has for others have a property. -/
def All (p : Char → Bool) (m : CharMap) : Prop :=
  ∀ (n : Nat) (s : List Char), m.targets[n]? = some s → s.all p = true

theorem targets_empty : Targets p ⟨∅⟩ := fun n s h => by simp at h

theorem Targets.insert (hm : m.Targets p) {n : Nat} {s : List Char} (hs : p s = true) :
    Targets p ⟨m.targets.insert n s⟩ := by
  intro k t h
  rw [Std.HashMap.getElem?_insert] at h
  split at h
  · cases h
    exact hs
  · exact hm k t h

theorem Targets.addSingles (hm : m.Targets p)
    (h : (tableEntries '.' lines).all (fun e => p (e.tail.map Char.ofNat)) = true) :
    (m.addSingles lines).Targets p := by
  unfold CharMap.addSingles
  refine List.foldlRecOn (motive := fun (acc : CharMap × Nat) => acc.1.Targets p) _ _ hm
    fun acc hacc e he => ?_
  exact hacc.insert (List.all_eq_true.1 h e he)

theorem Targets.addRuns (hm : m.Targets p)
    (h : (tableEntries '.' lines).all (fun e => (List.range (e.getD 1 0)).all fun i =>
      p [Char.ofNat (e.getD 3 0 + e.getD 2 0 * i)]) = true) : (m.addRuns true lines).Targets p := by
  unfold CharMap.addRuns
  refine List.foldlRecOn (motive := fun (acc : CharMap × Nat) => acc.1.Targets p) _ _ hm
    fun acc hacc e he => ?_
  refine List.foldlRecOn (motive := fun t => Targets p ⟨t⟩) _ _ hacc fun t ht i hi => ?_
  exact Targets.insert ht (List.all_eq_true.1 (List.all_eq_true.1 h e he) i hi)

theorem Targets.apply (hm : m.Targets p) {c : Char} (hc : p [c] = true) : p (m.apply c) = true := by
  unfold CharMap.apply
  rw [Std.HashMap.getD_eq_getD_getElem?]
  cases h : m.targets[c.toNat]? with
  | none => exact hc
  | some s => exact hm _ s h

theorem All.apply {p : Char → Bool} (hm : m.All p) {c : Char} (hc : p c = true) :
    (m.apply c).all p = true :=
  Targets.apply hm (by rw [List.all_cons, hc]; rfl)

end CharMap

/-- A table line by line, as lists of characters, which are evaluated faster than texts. -/
theorem tableEntries_cons (sep : Char) (line : List Char) (lines : List String) :
    tableEntries sep (String.ofList line :: lines) =
      ((pieces ' ' line).filter (!·.isEmpty)).map (fun e => (pieces sep e).map hexValue) ++
        tableEntries sep lines := by
  rw [tableEntries, List.flatMap_cons, String.toList_ofList]
  rfl

theorem all_lowerTable : lowerTable.All isWordly := by
  refine CharMap.Targets.addSingles (CharMap.targets_empty.addRuns ?runs) ?singles
  all_goals
    repeat rw [tableEntries_cons]
    decide +kernel

theorem all_titleTable : titleTable.All isWordly := by
  refine CharMap.Targets.addSingles (CharMap.targets_empty.addRuns ?runs) ?singles
  all_goals
    repeat rw [tableEntries_cons]
    decide +kernel

/-- No character is left out of a text in small letters. -/
theorem filled_lowerTable : lowerTable.Targets (!·.isEmpty) := by
  refine CharMap.Targets.addSingles (CharMap.targets_empty.addRuns ?runs) ?singles
  all_goals
    repeat rw [tableEntries_cons]
    decide +kernel

/-- What maps the letters and digits of ASCII well, one by one, maps all of them well. -/
theorem isWordly_of_ascii {f : Char → Char}
    (hf : ∀ n < 128, isWordly (Char.ofNat n) = true → isWordly (f (Char.ofNat n)) = true) {c : Char}
    (hc : c.toNat < 128) (h : isWordly c = true) : isWordly (f c) = true := by
  rw [← Char.ofNat_toNat c] at h ⊢
  exact hf _ hc h

theorem isWordly_toLower {c : Char} : c.toNat < 128 → isWordly c = true → isWordly c.toLower = true :=
  isWordly_of_ascii (by decide +kernel)

theorem isWordly_toUpper {c : Char} : c.toNat < 128 → isWordly c = true → isWordly c.toUpper = true :=
  isWordly_of_ascii (by decide +kernel)

section
variable {c : Char} {s before : List Char}

theorem all_lowerChar (h : isWordly c = true) (after : List Char) :
    (lowerChar before c after).all isWordly = true := by
  unfold lowerChar
  split
  · rename_i hc
    rw [List.all_cons, isWordly_toLower hc h]
    rfl
  · split
    · split <;> decide
    · exact all_lowerTable.apply h

theorem all_lowerAfter (h : s.all isWordly = true) : (lowerAfter before s).all isWordly = true := by
  induction s generalizing before with
  | nil => rfl
  | cons c s ih =>
    rw [List.all_cons, Bool.and_eq_true] at h
    rw [lowerAfter, List.all_append, all_lowerChar h.1, ih h.2]
    rfl

theorem lowerChar_ne_nil {after : List Char} : lowerChar before c after ≠ [] := by
  unfold lowerChar
  split
  · exact List.cons_ne_nil _ _
  · split
    · exact List.cons_ne_nil _ _
    · simpa using filled_lowerTable.apply (c := c) rfl

/-- A word in small letters is not empty. -/
theorem lower_ne_nil (h : s ≠ []) : lower s ≠ [] := by
  cases s with
  | nil => exact absurd rfl h
  | cons c s => exact fun hnil => lowerChar_ne_nil (List.append_eq_nil_iff.1 hnil).1

theorem all_capitalize (h : s.all isWordly = true) : (capitalize s).all isWordly = true := by
  cases s with
  | nil => rfl
  | cons c s =>
    rw [List.all_cons, Bool.and_eq_true] at h
    have htitle : (titleChar c).all isWordly = true := by
      unfold titleChar
      split
      · rename_i hc
        rw [List.all_cons, isWordly_toUpper hc h.1]
        rfl
      · exact all_titleTable.apply h.1
    rw [capitalize, List.all_append, htitle, all_lowerAfter h.2]
    rfl

end

end Text

/-! ## Words -/

open Text (isWordly)

/-- Words are not empty and have letters and numbers only. -/
theorem isWord_of_mem_wordRuns {s w : List Char} (h : w ∈ wordRuns s) :
    w ≠ [] ∧ w.all Text.isWordChar = true := by
  induction s generalizing w with
  | nil => cases h
  | cons c r ih =>
    unfold wordRuns at h
    split at h
    · rename_i hc
      have hcons : ∀ v : List Char, v.all Text.isWordChar = true →
          c :: v ≠ [] ∧ (c :: v).all Text.isWordChar = true := fun v hv => by
        rw [List.all_cons, hc, hv]
        exact ⟨List.cons_ne_nil c v, rfl⟩
      cases r with
      | nil => exact List.mem_singleton.1 h ▸ hcons [] rfl
      | cons d r =>
        dsimp only at h
        split at h
        · cases hruns : wordRuns (d :: r) with
          | nil =>
            rw [hruns] at h
            exact List.mem_singleton.1 h ▸ hcons [] rfl
          | cons v ws =>
            rw [hruns] at h
            rcases List.mem_cons.1 h with rfl | hw
            · exact hcons v (ih (hruns ▸ List.mem_cons_self)).2
            · exact ih (hruns ▸ List.mem_cons_of_mem v hw)
        · rcases List.mem_cons.1 h with rfl | hw
          · exact hcons [] rfl
          · exact ih hw
    · exact ih h

theorem all_of_mem_splitWords {name : String} {w : List Char} (h : w ∈ splitWords name) :
    w.all isWordly = true := by
  obtain ⟨v, hv, rfl⟩ := List.mem_map.1 h
  refine Text.all_lowerAfter (List.all_eq_true.2 fun c hc => ?_)
  exact Text.isWordly_of_isWordChar (List.all_eq_true.1 (isWord_of_mem_wordRuns hv).2 c hc)

theorem ne_nil_of_mem_splitWords {name : String} {w : List Char} (h : w ∈ splitWords name) : w ≠ [] := by
  obtain ⟨v, hv, rfl⟩ := List.mem_map.1 h
  exact Text.lower_ne_nil (isWord_of_mem_wordRuns hv).1

/-! ## Identifiers -/

/-- Whether a character occurs in identifiers. -/
def isIdentifierChar (c : Char) : Bool := isWordly c || c == '_' || c == '-'

theorem isIdentifierChar_of_isWordly {c : Char} (h : isWordly c = true) : isIdentifierChar c = true := by
  rw [isIdentifierChar, h]
  rfl

theorem all_identifierChar {s : List Char} (h : s.all isWordly = true) : s.all isIdentifierChar = true :=
  List.all_eq_true.2 fun c hc => isIdentifierChar_of_isWordly (List.all_eq_true.1 h c hc)

theorem all_intercalate {p : Char → Bool} {sep : List Char} {words : List (List Char)}
    (hsep : sep.all p = true) (h : ∀ w ∈ words, w.all p = true) : (sep.intercalate words).all p = true := by
  induction words with
  | nil => rfl
  | cons w words ih =>
    have hw := h w List.mem_cons_self
    have hwords := ih fun v hv => h v (List.mem_cons_of_mem w hv)
    by_cases hnil : words = []
    · rw [hnil, List.intercalate_singleton]
      exact hw
    · rw [List.intercalate_cons_of_ne_nil hnil, List.all_append, List.all_append, hw, hsep, hwords]
      rfl

theorem Naming.all_join (naming : Naming) {words : List (List Char)}
    (h : ∀ w ∈ words, w.all isWordly = true) : (naming.join words).all isIdentifierChar = true := by
  have hcapitalize : ∀ l : List (List Char), (∀ w ∈ l, w.all isWordly = true) →
      (l.flatMap Text.capitalize).all isIdentifierChar = true := fun l hl => by
    refine all_identifierChar (List.all_eq_true.2 fun c hc => ?_)
    obtain ⟨w, hw, hcw⟩ := List.mem_flatMap.1 hc
    exact List.all_eq_true.1 (Text.all_capitalize (hl w hw)) c hcw
  cases naming with
  | snake => exact all_intercalate rfl fun w hw => all_identifierChar (h w hw)
  | kebab => exact all_intercalate rfl fun w hw => all_identifierChar (h w hw)
  | pascal => exact hcapitalize words h
  | camel =>
    cases words with
    | nil => rfl
    | cons w words =>
      have hw := all_identifierChar (h w List.mem_cons_self)
      have hwords := hcapitalize words fun v hv => h v (List.mem_cons_of_mem w hv)
      rw [Naming.join, List.all_append]
      exact Bool.and_eq_true_iff.2 ⟨hw, hwords⟩

theorem all_integerText (n : Int) : (Decimal.integerText n).toList.all isIdentifierChar = true := by
  have hdigits : (Decimal.digitsOf n.natAbs).all isIdentifierChar = true :=
    List.all_eq_true.2 fun c hc => by
      have hdigit : c.isDigit = true := Nat.isDigit_of_mem_toDigits (by omega) (by omega) hc
      simp [isIdentifierChar, isWordly, Char.isAlphanum, hdigit]
  unfold Decimal.integerText
  rw [String.toList_ofList]
  split
  · rw [List.all_cons, hdigits]
    rfl
  · exact hdigits

namespace Subject

variable (s : Subject) (naming : Naming) (h : Handle)

/-- **Of the characters of ASCII, identifiers have letters, digits, underscores and hyphens.** -/
theorem all_identifierAt : (s.identifierAt naming h).toList.all isIdentifierChar = true := by
  unfold identifierAt
  dsimp only
  split
  · have hkind : s.kind.toList.all isIdentifierChar = true := by cases s <;> simp only [kind] <;> decide
    rw [String.toList_append, String.toList_append, List.all_append, List.all_append, hkind,
      all_integerText]
    rfl
  · rw [identifier, String.toList_ofList]
    exact naming.all_join fun _ => all_of_mem_splitWords

/-- An identifier is never empty. -/
theorem identifierAt_ne_empty : s.identifierAt naming h ≠ "" := by
  unfold identifierAt
  dsimp only
  split
  · cases s <;> simp [kind]
  · rename_i hne
    simpa using hne

/-- A character that occurs in no identifier is not in this one. -/
theorem notMem_identifierAt {c : Char} (hc : isIdentifierChar c = false) :
    c ∉ (s.identifierAt naming h).toList := fun hmem => by
  rw [List.all_eq_true.1 (s.all_identifierAt naming h) c hmem] at hc
  cases hc

end Subject

/-! ## Reading words off identifiers -/

/-- The character between words, if a convention puts one there. -/
def Naming.separator? : Naming → Option Char
  | .snake => some '_'
  | .kebab => some '-'
  | .camel | .pascal => none

section
variable {naming : Naming} {sep : Char} (hsep : naming.separator? = some sep)
include hsep

theorem Naming.join_eq_intercalate (words : List (List Char)) :
    naming.join words = [sep].intercalate words := by
  cases naming <;> cases hsep <;> rfl

theorem Naming.isWordly_separator : isWordly sep = false := by
  cases naming <;> cases hsep <;> rfl

end

/-- The words with a character between them. A text without characters has no words. -/
def wordsBetween (sep : Char) (s : List Char) : List (List Char) := if s = [] then [] else s.splitOn sep

/-- Words that are joined can be told apart if none of them is empty and the separator is in none of them. -/
theorem wordsBetween_intercalate {sep : Char} {words : List (List Char)}
    (h : ∀ w ∈ words, w ≠ [] ∧ sep ∉ w) : wordsBetween sep ([sep].intercalate words) = words := by
  by_cases hwords : words = []
  · rw [hwords]
    rfl
  · have hsplit := List.splitOn_intercalate sep (fun w hw => (h w hw).2) hwords
    have hjoined : [sep].intercalate words ≠ [] := fun hnil => by
      -- only the empty word could be joined to nothing
      rw [hnil, List.splitOn_nil] at hsplit
      exact (h [] (hsplit ▸ List.mem_singleton_self [])).1 rfl
    rw [wordsBetween, if_neg hjoined, hsplit]

/-- **The words of a name are read off its identifier**, if the convention has a separator. -/
theorem wordsBetween_identifier {naming : Naming} {sep : Char} (hsep : naming.separator? = some sep)
    (name : String) : wordsBetween sep (identifier naming name).toList = splitWords name := by
  rw [identifier, String.toList_ofList, naming.join_eq_intercalate hsep]
  refine wordsBetween_intercalate fun w hw => ⟨ne_nil_of_mem_splitWords hw, fun hmem => ?_⟩
  have hwordly := List.all_eq_true.1 (all_of_mem_splitWords hw) sep hmem
  rw [naming.isWordly_separator hsep] at hwordly
  cases hwordly

theorem identifier_eq_iff {naming : Naming} {sep : Char} (hsep : naming.separator? = some sep)
    (n m : String) : identifier naming n = identifier naming m ↔ splitWords n = splitWords m := by
  constructor
  · intro h
    rw [← wordsBetween_identifier hsep n, h, wordsBetween_identifier hsep m]
  · intro h
    rw [identifier, identifier, h]

/-- **Identifiers tell words.** By the conventions with a separator, two names have one identifier if and only
if they have the same words in the same order; names without any word are among them. -/
theorem identifiers_tell_words (n m : String) :
    (identifier .snake n = identifier .snake m ↔ splitWords n = splitWords m) ∧
      (identifier .kebab n = identifier .kebab m ↔ splitWords n = splitWords m) :=
  ⟨identifier_eq_iff rfl n m, identifier_eq_iff rfl n m⟩

/-- Without a separator, digits hide where a word starts. -/
example : identifier .pascal "a 1" = identifier .pascal "a1" ∧
    identifier .camel "a 1" = identifier .camel "a1" ∧ splitWords "a 1" ≠ splitWords "a1" := by
  decide +kernel

end Actionbook
