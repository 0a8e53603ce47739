import Actionbook.Proofs.Patterns
import Mathlib.Data.List.Count
import Mathlib.Data.List.Infix

/-!
# Names with texts

A name with texts put in for its placeholders (`spell`) is read again

* if and only if none of the texts has a line break (`exists_reads_spell`): both readings have the
  characters of the name and those of their texts (`spell_perm`), and a name cannot make good for the one
  line break that is overlooked at the end (`spell_ne_spell_newline`);
* as these texts only, if none of them has a double quote (`eq_of_reads_spell`): then no text that is read
  has one, and each ends at the next quote.

`filled_agrees` says this of the sentences that are made of names.
-/

namespace Actionbook.Sentence

variable {ps : List Piece} {s : List Char} {texts groups : List (List Char)}

/-- The pieces with the given texts for the placeholders; what there is no text for stays. -/
def spell : List Piece → List (List Char) → List Char
  | [], _ => []
  | .literal t :: ps, texts => t ++ spell ps texts
  | .placeholder p :: ps, [] => '"' :: (p ++ '"' :: spell ps [])
  | .placeholder _ :: ps, text :: texts => '"' :: (text ++ '"' :: spell ps texts)

/-- The texts that stand for themselves at the placeholders. -/
def ownTexts : List Piece → List (List Char)
  | [] => []
  | .literal _ :: ps => ownTexts ps
  | .placeholder p :: ps => p :: ownTexts ps

/-- The characters of a name beside the texts at its placeholders. -/
def frame : List Piece → List Char
  | [] => []
  | .literal t :: ps => t ++ frame ps
  | .placeholder _ :: ps => '"' :: '"' :: frame ps

/-- A name with texts has the characters of the name and those of the texts. -/
theorem spell_perm (hlen : texts.length = (ownTexts ps).length) :
    (spell ps texts).Perm (frame ps ++ texts.flatten) := by
  induction ps generalizing texts with
  | nil =>
    rw [List.length_eq_zero_iff.1 hlen]
    exact .refl []
  | cons piece ps ih =>
    cases piece with
    | literal t =>
      rw [spell, frame, List.append_assoc]
      exact (ih hlen).append_left t
    | placeholder p =>
      cases texts with
      | nil => cases hlen
      | cons text texts =>
        rw [spell, frame, List.flatten_cons, List.cons_append, List.cons_append]
        refine .cons _ (List.perm_middle.trans (.cons _ ?_))
        exact ((ih (Nat.succ.inj hlen)).append_left text).trans
          (List.perm_append_comm_assoc _ _ _)

/-- What is read are texts without line breaks, and perhaps a line break at the end. -/
theorem Reads.eq_spell (hr : Reads ps s groups) : groups.length = (ownTexts ps).length ∧
    (∀ x ∈ groups, '\n' ∉ x) ∧ ∃ e, (e = [] ∨ e = ['\n']) ∧ s = spell ps groups ++ e := by
  induction hr with
  | finish hs => exact ⟨rfl, fun x hx => absurd hx List.not_mem_nil, _, hs, rfl⟩
  | literal hr ih =>
    obtain ⟨hlen, hn, e, he, hs⟩ := ih
    exact ⟨hlen, hn, e, he, by rw [hs, spell, List.append_assoc]⟩
  | placeholder htext hr ih =>
    obtain ⟨hlen, hn, e, he, hs⟩ := ih
    refine ⟨congrArg Nat.succ hlen, fun x hx => ?_, e, he, by rw [hs, spell]; simp⟩
    rcases List.mem_cons.1 hx with rfl | hx
    · exact htext
    · exact hn x hx

theorem reads_spell (hlen : texts.length = (ownTexts ps).length) (hn : ∀ x ∈ texts, '\n' ∉ x) :
    Reads ps (spell ps texts) texts := by
  induction ps generalizing texts with
  | nil =>
    rw [List.length_eq_zero_iff.1 hlen]
    exact .finish (.inl rfl)
  | cons piece ps ih =>
    cases piece with
    | literal t => exact .literal (ih hlen hn)
    | placeholder p =>
      cases texts with
      | nil => cases hlen
      | cons text texts =>
        exact .placeholder (hn text List.mem_cons_self)
          (ih (Nat.succ.inj hlen) fun x hx => hn x (List.mem_cons_of_mem _ hx))

/-- After the last placeholder a name reads the same, whatever its texts are. -/
theorem exists_ending (hsome : ownTexts ps ≠ []) : ∃ ending : List Char, ∀ texts,
    texts.length = (ownTexts ps).length → ∃ start, spell ps texts = start ++ '"' :: ending := by
  induction ps with
  | nil => exact absurd rfl hsome
  | cons piece ps ih =>
    cases piece with
    | literal t =>
      obtain ⟨ending, hending⟩ := ih hsome
      refine ⟨ending, fun texts hlen => ?_⟩
      obtain ⟨start, hstart⟩ := hending texts hlen
      exact ⟨t ++ start, by rw [spell, hstart, List.append_assoc]⟩
    | placeholder p =>
      by_cases hlast : ownTexts ps = []
      · refine ⟨spell ps [], fun texts hlen => ?_⟩
        obtain ⟨text, rfl⟩ : ∃ text, texts = [text] := by
          rw [ownTexts, hlast] at hlen
          exact List.length_eq_one_iff.1 hlen
        exact ⟨'"' :: text, rfl⟩
      · obtain ⟨ending, hending⟩ := ih hlast
        refine ⟨ending, fun texts hlen => ?_⟩
        cases texts with
        | nil => cases hlen
        | cons text texts =>
          obtain ⟨start, hstart⟩ := hending texts (Nat.succ.inj hlen)
          exact ⟨'"' :: (text ++ '"' :: start), by rw [spell, hstart]; simp⟩

/-- A name with texts is no name with other texts and a line break behind. -/
theorem spell_ne_spell_newline (hlen : texts.length = (ownTexts ps).length)
    (hlen' : groups.length = (ownTexts ps).length) (hsome : ownTexts ps ≠ []) :
    spell ps texts ≠ spell ps groups ++ ['\n'] := by
  obtain ⟨ending, hending⟩ := exists_ending hsome
  obtain ⟨start, hstart⟩ := hending texts hlen
  obtain ⟨start', hstart'⟩ := hending groups hlen'
  intro heq
  rw [hstart, hstart', List.append_assoc, List.cons_append,
    List.append_cons start' '"' (ending ++ ['\n'])] at heq
  -- the ends of the same length are equal, but the first has one more quote
  have hends : '"' :: ending = ending ++ ['\n'] :=
    (List.append_inj' heq (by simp)).2
  have hcount := congrArg (List.count '"') hends
  rw [List.count_cons_self, List.count_append, List.count_singleton] at hcount
  simp at hcount

/-- What is read off a name with texts has no line break behind. -/
theorem Reads.spell_eq (hr : Reads ps (spell ps texts) groups)
    (hlen : texts.length = (ownTexts ps).length) : spell ps texts = spell ps groups := by
  obtain ⟨hlen', -, e, rfl | rfl, hs⟩ := hr.eq_spell
  · rw [hs, List.append_nil]
  · by_cases hnone : ownTexts ps = []
    · rw [hnone] at hlen hlen'
      rw [List.length_eq_zero_iff.1 hlen, List.length_eq_zero_iff.1 hlen']
    · exact absurd hs (spell_ne_spell_newline hlen hlen' hnone)

/-- A character that is not in some texts is not in others that make up the same sentence. -/
theorem not_mem_of_spell_eq {c : Char} (hlen : texts.length = (ownTexts ps).length)
    (hlen' : groups.length = (ownTexts ps).length) (heq : spell ps texts = spell ps groups)
    (hc : ∀ x ∈ groups, c ∉ x) : ∀ x ∈ texts, c ∉ x := by
  have hperm : (frame ps ++ texts.flatten).Perm (frame ps ++ groups.flatten) :=
    (spell_perm hlen).symm.trans (heq ▸ spell_perm hlen')
  intro x hx hcx
  have hmem : c ∈ groups.flatten :=
    ((List.perm_append_left_iff _).1 hperm).subset (List.mem_flatten.2 ⟨x, hx, hcx⟩)
  obtain ⟨y, hy, hcy⟩ := List.mem_flatten.1 hmem
  exact hc y hy hcy

/-- **A name with texts is read again if and only if none of them has a line break.** -/
theorem exists_reads_spell (hlen : texts.length = (ownTexts ps).length) :
    (∃ groups, Reads ps (spell ps texts) groups) ↔ ∀ x ∈ texts, '\n' ∉ x := by
  constructor
  · rintro ⟨groups, hr⟩
    obtain ⟨hlen', hn, -⟩ := hr.eq_spell
    exact not_mem_of_spell_eq hlen hlen' (hr.spell_eq hlen) hn
  · exact fun hn => ⟨texts, reads_spell hlen hn⟩

/-- A text without quotes ends at the first quote. -/
theorem eq_of_append_quote {x y r r' : List Char} (h : x ++ '"' :: r = y ++ '"' :: r')
    (hx : '"' ∉ x) (hy : '"' ∉ y) : x = y ∧ r = r' := by
  induction x generalizing y with
  | nil =>
    cases y with
    | nil => exact ⟨rfl, (List.cons.inj h).2⟩
    | cons c y =>
      obtain ⟨rfl, -⟩ := List.cons.inj h
      exact absurd List.mem_cons_self hy
  | cons c x ih =>
    cases y with
    | nil =>
      obtain ⟨rfl, -⟩ := List.cons.inj h
      exact absurd List.mem_cons_self hx
    | cons d y =>
      obtain ⟨rfl, hrest⟩ := List.cons.inj h
      rw [List.mem_cons, not_or] at hx hy
      obtain ⟨rfl, rfl⟩ := ih hrest hx.2 hy.2
      exact ⟨rfl, rfl⟩

/-- Texts without quotes are told apart. -/
theorem spell_inj (hlen : texts.length = (ownTexts ps).length)
    (hlen' : groups.length = (ownTexts ps).length) (heq : spell ps texts = spell ps groups)
    (hq : ∀ x ∈ texts, '"' ∉ x) (hq' : ∀ x ∈ groups, '"' ∉ x) : texts = groups := by
  induction ps generalizing texts groups with
  | nil => rw [List.length_eq_zero_iff.1 hlen, List.length_eq_zero_iff.1 hlen']
  | cons piece ps ih =>
    cases piece with
    | literal t => exact ih hlen hlen' (List.append_cancel_left heq) hq hq'
    | placeholder p =>
      cases texts with
      | nil => cases hlen
      | cons text texts =>
        cases groups with
        | nil => cases hlen'
        | cons group groups =>
          obtain ⟨rfl, hrest⟩ := eq_of_append_quote (List.cons.inj heq).2
            (hq text List.mem_cons_self) (hq' group List.mem_cons_self)
          rw [ih (Nat.succ.inj hlen) (Nat.succ.inj hlen') hrest
            (fun x hx => hq x (List.mem_cons_of_mem _ hx))
            fun x hx => hq' x (List.mem_cons_of_mem _ hx)]

/-- **Texts without quotes are read as they are, and in no other way.** -/
theorem eq_of_reads_spell (hlen : texts.length = (ownTexts ps).length) (hq : ∀ x ∈ texts, '"' ∉ x)
    (hr : Reads ps (spell ps texts) groups) : groups = texts := by
  have hlen' := hr.eq_spell.1
  have heq := (hr.spell_eq hlen).symm
  exact spell_inj hlen' hlen heq (not_mem_of_spell_eq hlen' hlen heq hq) hq

/-! ## Names -/

theorem not_mem_of_splitAtQuote {a b : List Char} (h : splitAtQuote s = some (a, b)) : '"' ∉ a := by
  induction s generalizing a with
  | nil => cases h
  | cons c s ih =>
    rw [splitAtQuote] at h
    split at h
    · cases h
      exact List.not_mem_nil
    · rename_i hc
      obtain ⟨⟨a', b'⟩, hs, he⟩ := Option.map_eq_some_iff.1 h
      cases he
      rw [List.mem_cons, not_or]
      exact ⟨Ne.symm hc, ih hs⟩

/-- A placeholder has no quotes itself. -/
theorem not_mem_ownTexts (name : List Char) : ∀ p ∈ ownTexts (pieces name), '"' ∉ p := by
  fun_induction pieces name with
  | case1 => exact fun p hp => absurd hp List.not_mem_nil
  | case2 => exact fun p hp => absurd hp List.not_mem_nil
  | case3 name before afterOpen _ inside rest h _ _ ih =>
    intro p hp
    rcases List.mem_cons.1 hp with rfl | hp
    · exact not_mem_of_splitAtQuote h
    · exact ih p hp

/-- A name with texts for its placeholders. -/
def spelled (name : String) (texts : List String) : String :=
  String.ofList (spell (pieces name.toList) (texts.map String.toList))

theorem placeholders_eq (name : String) :
    placeholders name = (ownTexts (pieces name.toList)).map String.ofList := by
  unfold placeholders
  induction pieces name.toList with
  | nil => rfl
  | cons piece ps ih =>
    cases piece with
    | literal t => exact ih
    | placeholder p => exact congrArg (String.ofList p :: ·) ih

/-- The texts that are put in for the placeholders of a name; where there is none, the placeholder
stays. -/
def filledTexts (fill : String → Option String) (name : String) : List String :=
  (placeholders name).map fun p => (fill p).getD p

theorem filled_eq (fill : String → Option String) (name : String) :
    filled fill name = spelled name (filledTexts fill name) := by
  unfold filled spelled filledTexts
  rw [placeholders_eq, List.map_map, List.map_map]
  congr 1
  induction pieces name.toList with
  | nil => rfl
  | cons piece ps ih =>
    rw [List.flatMap_cons, ih]
    cases piece with
    | literal t => rfl
    | placeholder p =>
      simp only [ownTexts, List.map_cons, spell, Function.comp_apply]
      cases fill (String.ofList p) <;> simp

theorem map_toList_ofList (l : List (List Char)) : (l.map String.ofList).map String.toList = l := by
  rw [List.map_map]
  exact (List.map_congr_left fun x _ => String.toList_ofList).trans (List.map_id l)

/-- What is captured is read. -/
theorem reads_of_captures? {name sentence : String} {texts : List String}
    (hc : captures? name sentence = some texts) :
    Reads (pieces name.toList) sentence.toList (texts.map String.toList) := by
  obtain ⟨found, hfound, rfl⟩ := Option.map_eq_some_iff.1 hc
  rw [map_toList_ofList]
  exact reads_of_matchPieces hfound

/-- One text is captured at each placeholder. -/
theorem length_of_captures? {name sentence : String} {texts : List String}
    (hc : captures? name sentence = some texts) : texts.length = (placeholders name).length := by
  obtain ⟨hlen, -⟩ := (reads_of_captures? hc).eq_spell
  rwa [List.length_map, ← List.length_map (f := String.ofList), ← placeholders_eq] at hlen

/-- A sentence that is made of a name agrees with a pattern for it. -/
structure Agree (pattern name sentence : String) (fill : String → Option String) : Prop where
  /-- The texts that are put in stand at the placeholders of the name. -/
  spelled : sentence = spelled name (filledTexts fill name)
  /-- The sentence follows the pattern unless one of these texts has a line break. -/
  follows : (∃ groups, MatchesPattern pattern sentence groups) ↔
    ∀ text ∈ filledTexts fill name, '\n' ∉ text.toList
  /-- If none of those that take the place of a placeholder has a quote either, the groups are the
  texts. -/
  captured : (∀ text ∈ filledTexts fill name, '\n' ∉ text.toList) →
    (∀ p ∈ placeholders name, ∀ text, fill p = some text → '"' ∉ text.toList) →
      captures? name sentence = some (filledTexts fill name) ∧
        ∀ groups, MatchesPattern pattern sentence groups → groups = filledTexts fill name

/-- **A name with texts agrees with the pattern of the name.** -/
theorem filled_agrees (fill : String → Option String) (name : String) :
    Agree (writtenPattern name) name (filled fill name) fill := by
  have hlen : ((filledTexts fill name).map String.toList).length =
      (ownTexts (pieces name.toList)).length := by
    rw [List.length_map, filledTexts, List.length_map, placeholders_eq, List.length_map]
  have hspelled : (filled fill name).toList =
      spell (pieces name.toList) ((filledTexts fill name).map String.toList) := by
    rw [filled_eq, spelled, String.toList_ofList]
  have hbreaks : (∃ groups, Reads (pieces name.toList) (filled fill name).toList groups) ↔
      ∀ text ∈ filledTexts fill name, '\n' ∉ text.toList := by
    rw [hspelled, exists_reads_spell hlen]
    simp only [List.forall_mem_map]
  refine ⟨filled_eq fill name, ⟨?_, ?_⟩, fun hn hq => ?_⟩
  · rintro ⟨groups, hm⟩
    exact hbreaks.1 ⟨_, matchesPattern_written.1 hm⟩
  · intro hn
    refine ⟨filledTexts fill name, matchesPattern_written.2 ?_⟩
    rw [hspelled]
    exact reads_spell hlen (List.forall_mem_map.2 hn)
  -- nothing but the texts is read
  have honly : ∀ groups : List String, Reads (pieces name.toList) (filled fill name).toList
      (groups.map String.toList) → groups = filledTexts fill name := by
    intro groups hr
    rw [hspelled] at hr
    refine List.map_injective_iff.2 (fun _ _ => String.toList_injective)
      (eq_of_reads_spell hlen ?_ hr)
    rw [List.forall_mem_map]
    intro text htext
    obtain ⟨p, hp, rfl⟩ := List.mem_map.1 htext
    cases hfill : fill p with
    | some text => exact hq p hp text hfill
    | none =>
      rw [placeholders_eq] at hp
      obtain ⟨own, hown, rfl⟩ := List.mem_map.1 hp
      rw [Option.getD_none, String.toList_ofList]
      exact not_mem_ownTexts _ own hown
  refine ⟨?_, fun groups hm => honly groups (matchesPattern_written.1 hm)⟩
  obtain ⟨groups, hr⟩ := hbreaks.2 hn
  obtain ⟨found, hfound⟩ := Option.isSome_iff_exists.1 (isSome_matchPieces hr)
  have hcaptured : captures? name (filled fill name) = some (found.map String.ofList) := by
    rw [captures?, hfound, Option.map_some]
  rw [hcaptured, honly _ (reads_of_captures? hcaptured)]

end Actionbook.Sentence
