import Actionbook.Sentence.Pattern
import Mathlib.Data.List.Count
import Mathlib.Data.List.Infix

/-!
# What patterns fit

The pattern of a name is used in two forms: its pieces are read off a sentence (`matchPieces`), and it is
written as a regular expression (`writtenPattern`). `Reads` says without any search how texts make up a
sentence, and both forms have this meaning.

* `reads_of_matchPieces`, `isSome_matchPieces`: the search finds what is there, and something if there is
  anything.
* `eq_or_outreaches_of_matchPieces`: of several ways it finds the one that gives earlier placeholders the
  longer texts.
* `matchesPattern_written`: the regular expression matches what its pieces read.
-/

namespace Actionbook.Sentence

variable {ps : List Piece} {s rest text : List Char} {texts groups : List (List Char)}

/-! ## How texts make up a sentence -/

/-- Texts without line breaks stand for the placeholders in a sentence, which may have one line break at
its end. -/
inductive Reads : List Piece → List Char → List (List Char) → Prop
  | finish {s : List Char} (hs : s = [] ∨ s = ['\n']) : Reads [] s []
  | literal {t s : List Char} {ps : List Piece} {texts : List (List Char)} (hr : Reads ps s texts) :
      Reads (.literal t :: ps) (t ++ s) texts
  | placeholder {p text s : List Char} {ps : List Piece} {texts : List (List Char)}
      (hn : '\n' ∉ text) (hr : Reads ps s texts) :
      Reads (.placeholder p :: ps) ('"' :: (text ++ '"' :: s)) (text :: texts)

/-! ## Reading -/

theorem stripPrefix?_eq_some {t : List Char} : stripPrefix? t s = some rest ↔ s = t ++ rest := by
  induction t generalizing s with
  | nil => simp [stripPrefix?, eq_comm]
  | cons c t ih =>
    cases s with
    | nil => simp [stripPrefix?]
    | cons d s =>
      rw [stripPrefix?, List.cons_append, List.cons.injEq]
      by_cases hcd : c = d
      · rw [if_pos hcd, ih]
        exact (and_iff_right hcd.symm).symm
      · rw [if_neg hcd]
        constructor
        · intro h
          cases h
        · exact fun h => absurd h.1.symm hcd

theorem mem_quotedReadings :
    (text, rest) ∈ quotedReadings s ↔ s = text ++ '"' :: rest ∧ '\n' ∉ text := by
  induction s generalizing text with
  | nil => simp [quotedReadings]
  | cons c r ih =>
    have hlonger : (text, rest) ∈ (if c = '\n' then [] else
        (quotedReadings r).map fun e => (c :: e.1, e.2)) ↔
        ∃ t, text = c :: t ∧ c ≠ '\n' ∧ r = t ++ '"' :: rest ∧ '\n' ∉ t := by
      split
      · rename_i hc
        simp [hc]
      · rename_i hc
        simp only [List.mem_map, Prod.mk.injEq]
        constructor
        · rintro ⟨⟨a, b⟩, hm, rfl, rfl⟩
          exact ⟨a, rfl, hc, ih.1 hm⟩
        · rintro ⟨t, rfl, -, ht⟩
          exact ⟨(t, rest), ih.2 ht, rfl, rfl⟩
    have hmem : (text, rest) ∈ quotedReadings (c :: r) ↔
        (∃ t, text = c :: t ∧ c ≠ '\n' ∧ r = t ++ '"' :: rest ∧ '\n' ∉ t) ∨
          c = '"' ∧ text = [] ∧ rest = r := by
      rw [quotedReadings]
      split
      · rename_i hc
        refine List.mem_append.trans ((or_congr hlonger List.mem_singleton).trans ?_)
        simp [hc]
      · rename_i hc
        refine hlonger.trans ?_
        simp [hc]
    rw [hmem]
    constructor
    · rintro (⟨t, rfl, hc, rfl, ht⟩ | ⟨rfl, rfl, rfl⟩)
      · refine ⟨rfl, fun hm => ?_⟩
        rcases List.mem_cons.1 hm with h | h
        · exact hc h.symm
        · exact ht h
      · exact ⟨rfl, List.not_mem_nil⟩
    · rintro ⟨heq, hn⟩
      cases text with
      | nil =>
        obtain ⟨rfl, rfl⟩ := List.cons.inj heq
        exact .inr ⟨rfl, rfl, rfl⟩
      | cons d t =>
        obtain ⟨rfl, rfl⟩ := List.cons.inj heq
        rw [List.mem_cons, not_or] at hn
        exact .inl ⟨t, rfl, Ne.symm hn.1, rfl, hn.2⟩

/-- What the search finds is there. -/
theorem reads_of_matchPieces (hm : matchPieces ps s = some texts) : Reads ps s texts := by
  induction ps generalizing s texts with
  | nil =>
    rw [matchPieces] at hm
    split at hm
    · cases hm
      exact .finish ‹_›
    · cases hm
  | cons piece ps ih =>
    cases piece with
    | literal t =>
      obtain ⟨rest, hrest, hm⟩ := Option.bind_eq_some_iff.1 hm
      rw [stripPrefix?_eq_some.1 hrest]
      exact .literal (ih hm)
    | placeholder p =>
      unfold matchPieces at hm
      split at hm
      · obtain ⟨⟨text, rest⟩, hq, hm⟩ := List.exists_of_findSome?_eq_some hm
        obtain ⟨texts', hrest, rfl⟩ := Option.map_eq_some_iff.1 hm
        obtain ⟨rfl, hn⟩ := mem_quotedReadings.1 hq
        exact .placeholder hn (ih hrest)
      · cases hm

/-- Where there is something to find, the search finds something. -/
theorem isSome_matchPieces (hr : Reads ps s texts) : (matchPieces ps s).isSome := by
  induction hr with
  | finish hs => rw [matchPieces, if_pos hs]; rfl
  | literal hr ih =>
    rename_i t s ps texts
    rw [matchPieces, stripPrefix?_eq_some.2 rfl, Option.bind_some]
    exact ih
  | placeholder hn hr ih =>
    rename_i p text s ps texts
    obtain ⟨found, hfound⟩ := Option.isSome_iff_exists.1 ih
    rw [matchPieces, List.findSome?_isSome_iff]
    refine ⟨(text, s), mem_quotedReadings.2 ⟨rfl, hn⟩, ?_⟩
    simp only [hfound, Option.map_some, Option.isSome_some]

/-! ## The way that is found -/

/-- Of two ways to read a sentence the first one gives the longer text to the first placeholder where they
differ. -/
inductive Outreaches : List (List Char) → List (List Char) → Prop
  | longer {text text' : List Char} {texts texts' : List (List Char)}
      (h : text'.length < text.length) : Outreaches (text :: texts) (text' :: texts')
  | later {text : List Char} {texts texts' : List (List Char)} (h : Outreaches texts texts') :
      Outreaches (text :: texts) (text :: texts')

/-- Longer texts are tried first. -/
theorem pairwise_quotedReadings (s : List Char) :
    (quotedReadings s).Pairwise fun a b => b.1.length < a.1.length := by
  induction s with
  | nil => exact .nil
  | cons c r ih =>
    have hlonger : (if c = '\n' then [] else
        (quotedReadings r).map fun e => (c :: e.1, e.2)).Pairwise fun a b =>
          b.1.length < a.1.length := by
      split
      · exact .nil
      · exact List.pairwise_map.2 (ih.imp fun h => Nat.succ_lt_succ h)
    rw [quotedReadings]
    split
    · refine List.pairwise_append.2 ⟨hlonger, List.pairwise_singleton _ _, fun a ha b hb => ?_⟩
      cases List.mem_singleton.1 hb
      split at ha
      · cases ha
      · obtain ⟨e, -, rfl⟩ := List.mem_map.1 ha
        exact Nat.succ_pos _
    · exact hlonger

/-- **The search gives earlier placeholders the longer texts.** -/
theorem eq_or_outreaches_of_matchPieces (hm : matchPieces ps s = some texts) (hr : Reads ps s groups) :
    groups = texts ∨ Outreaches texts groups := by
  induction hr generalizing texts with
  | finish hs =>
    rw [matchPieces, if_pos hs] at hm
    cases hm
    exact .inl rfl
  | literal hr ih =>
    rw [matchPieces, stripPrefix?_eq_some.2 rfl, Option.bind_some] at hm
    exact ih hm
  | placeholder hn hr ih =>
    rename_i p group s ps groups
    rw [matchPieces] at hm
    obtain ⟨tried, ⟨text, rest⟩, left, hsplit, hfound, htried⟩ := List.findSome?_eq_some_iff.1 hm
    obtain ⟨texts, hrest, rfl⟩ := Option.map_eq_some_iff.1 hfound
    have hgroup : (group, s) ∈ tried ++ (text, rest) :: left :=
      hsplit ▸ mem_quotedReadings.2 ⟨rfl, hn⟩
    rcases List.mem_append.1 hgroup with hgroup | hgroup
    · -- a way that has been tried leaves a rest that cannot be read
      obtain ⟨found, hfound⟩ := Option.isSome_iff_exists.1 (isSome_matchPieces hr)
      have hnone : (matchPieces ps s).map (group :: ·) = none := htried _ hgroup
      rw [hfound] at hnone
      cases hnone
    rcases List.mem_cons.1 hgroup with hgroup | hgroup
    · cases hgroup
      exact (ih hrest).imp (congrArg (group :: ·)) .later
    · have hpairwise := pairwise_quotedReadings (group ++ '"' :: s)
      rw [hsplit] at hpairwise
      have hshorter := (List.pairwise_cons.1 (List.pairwise_append.1 hpairwise).2.1).1 _ hgroup
      exact .inr (.longer hshorter)

/-! ## The written form -/

/-- What a regular expression of the kind that is written matches after its first mark, and the texts of
its groups: a special character behind a backslash and any other one stand for themselves, a group stands
for a text without line breaks, and the last mark for the end, or for a line break there. -/
inductive Matches : List Char → List Char → List (List Char) → Prop
  | finish {s : List Char} (hs : s = [] ∨ s = ['\n']) : Matches ['$'] s []
  | escaped {c : Char} {p s : List Char} {groups : List (List Char)} (hm : Matches p s groups) :
      Matches ('\\' :: c :: p) (c :: s) groups
  | plain {c : Char} {p s : List Char} {groups : List (List Char)} (hc : isSpecial c = false)
      (hm : Matches p s groups) : Matches (c :: p) (c :: s) groups
  | group {text p s : List Char} {groups : List (List Char)} (hn : '\n' ∉ text)
      (hm : Matches p s groups) : Matches ('(' :: '.' :: '*' :: ')' :: p) (text ++ s) (text :: groups)

/-- A sentence matches a regular expression, with texts for its groups. -/
def MatchesPattern (pattern sentence : String) (groups : List String) : Prop :=
  ∃ p, pattern.toList = '^' :: p ∧ Matches p sentence.toList (groups.map String.toList)

theorem matches_escaped {c : Char} {p : List Char} :
    Matches ('\\' :: c :: p) s groups ↔ ∃ r, s = c :: r ∧ Matches p r groups := by
  constructor
  · intro h
    cases h with
    | escaped hm => exact ⟨_, rfl, hm⟩
    | plain hc hm => exact absurd hc (by decide)
  · rintro ⟨r, rfl, hm⟩
    exact .escaped hm

theorem matches_plain {c : Char} {p : List Char} (hc : isSpecial c = false) :
    Matches (c :: p) s groups ↔ ∃ r, s = c :: r ∧ Matches p r groups := by
  constructor
  · intro h
    cases h with
    | finish => exact absurd hc (by decide)
    | escaped => exact absurd hc (by decide)
    | plain _ hm => exact ⟨_, rfl, hm⟩
    | group => exact absurd hc (by decide)
  · rintro ⟨r, rfl, hm⟩
    exact .plain hc hm

theorem matches_group {p : List Char} : Matches ('(' :: '.' :: '*' :: ')' :: p) s groups ↔
    ∃ text r groups', s = text ++ r ∧ groups = text :: groups' ∧ '\n' ∉ text ∧
      Matches p r groups' := by
  constructor
  · intro h
    cases h with
    | plain hc _ => exact absurd hc (by decide)
    | group hn hm => exact ⟨_, _, _, rfl, rfl, hn, hm⟩
  · rintro ⟨text, r, groups', rfl, rfl, hn, hm⟩
    exact .group hn hm

theorem matches_literal {t p : List Char} : Matches ((Piece.literal t).written ++ p) s groups ↔
    ∃ r, s = t ++ r ∧ Matches p r groups := by
  induction t generalizing s with
  | nil =>
    constructor
    · exact fun h => ⟨s, rfl, h⟩
    · rintro ⟨r, rfl, h⟩
      exact h
  | cons c t ih =>
    have hcons : (Piece.literal (c :: t)).written ++ p =
        (if isSpecial c then ['\\', c] else [c]) ++ ((Piece.literal t).written ++ p) :=
      List.append_assoc _ _ _
    have hfirst : Matches ((Piece.literal (c :: t)).written ++ p) s groups ↔
        ∃ r, s = c :: r ∧ Matches ((Piece.literal t).written ++ p) r groups := by
      rw [hcons]
      split
      · exact matches_escaped
      · rename_i hc
        exact matches_plain (Bool.not_eq_true _ ▸ hc)
    rw [hfirst]
    constructor
    · rintro ⟨r, rfl, hm⟩
      obtain ⟨r', rfl, hm'⟩ := ih.1 hm
      exact ⟨r', rfl, hm'⟩
    · rintro ⟨r, rfl, hm⟩
      exact ⟨t ++ r, rfl, ih.2 ⟨r, rfl, hm⟩⟩

theorem matches_placeholder {p q : List Char} : Matches ((Piece.placeholder q).written ++ p) s groups ↔
    ∃ text r groups', s = '"' :: (text ++ '"' :: r) ∧ groups = text :: groups' ∧ '\n' ∉ text ∧
      Matches p r groups' := by
  have hquote : isSpecial '"' = false := by decide
  show Matches ('"' :: '(' :: '.' :: '*' :: ')' :: '"' :: p) s groups ↔ _
  simp only [matches_plain hquote, matches_group]
  constructor
  · rintro ⟨-, rfl, text, -, groups', rfl, rfl, hn, r, rfl, hm⟩
    exact ⟨text, r, groups', rfl, rfl, hn, hm⟩
  · rintro ⟨text, r, groups', rfl, rfl, hn, hm⟩
    exact ⟨_, rfl, text, _, groups', rfl, rfl, hn, r, rfl, hm⟩

/-- **The written form of a pattern matches what its pieces read.** -/
theorem matches_written : Matches (ps.flatMap Piece.written ++ ['$']) s groups ↔ Reads ps s groups := by
  induction ps generalizing s groups with
  | nil =>
    constructor
    · intro h
      cases h with
      | finish hs => exact .finish hs
      | plain hc _ => exact absurd hc (by decide)
    · rintro ⟨hs⟩
      exact .finish hs
  | cons piece ps ih =>
    rw [List.flatMap_cons, List.append_assoc]
    cases piece with
    | literal t =>
      rw [matches_literal]
      constructor
      · rintro ⟨r, rfl, hm⟩
        exact .literal (ih.1 hm)
      · rintro ⟨⟩
        rename_i r hr
        exact ⟨r, rfl, ih.2 hr⟩
    | placeholder p =>
      rw [matches_placeholder]
      constructor
      · rintro ⟨text, r, groups', rfl, rfl, hn, hm⟩
        exact .placeholder hn (ih.1 hm)
      · rintro ⟨⟩
        rename_i text r groups' hn hr
        exact ⟨text, r, groups', rfl, rfl, hn, ih.2 hr⟩

theorem matchesPattern_written {name sentence : String} {groups : List String} :
    MatchesPattern (writtenPattern name) sentence groups ↔
      Reads (pieces name.toList) sentence.toList (groups.map String.toList) := by
  rw [← matches_written, MatchesPattern, writtenPattern, String.toList_ofList, List.cons_append]
  constructor
  · rintro ⟨p, hp, hm⟩
    obtain ⟨-, rfl⟩ := List.cons.inj hp
    exact hm
  · exact fun hm => ⟨_, rfl, hm⟩

end Actionbook.Sentence
