import Actionbook.Proofs.Grammar
import Actionbook.Proofs.Phrasing
import Actionbook.Proofs.Rewriting

/-!
# Which sentences are recognised

Before a sentence is compared with the patterns, a keyword in front of it and the blanks at its ends are
taken off. The blanks make no difference: names in a document have none at their ends, and so have none the
names with texts in them (`Sentence.tight_spell`), so that a text which a pattern matches as it is displayed
is matched without them as well (`Sentence.Reads.trim`). The keyword does: where the name of an action word
begins with one, it is taken off under this keyword all the same, and the rest is all that is compared.

* `Enriched.links_iff`: a run links the sentences that the names of action words admit.
* `bare_sentences_are_recognised`: what is matched as it is displayed is linked, unless its keyword is in
  front of it; and in any case, exactly what is matched without the keyword.
* `doubled_keyword_is_overlooked`: a sentence that is the name of an action word, and is not linked.
-/

namespace Actionbook

open Work (Ensures)

/-- The keyword of a step stands in front of what it displays, in any case. -/
def Step.Prefaced (s : Step) : Prop := s.key.toList ++ [' '] <+: Text.lower s.value.display.toList

instance (s : Step) : Decidable s.Prefaced :=
  inferInstanceAs (Decidable (s.key.toList ++ [' '] <+: Text.lower s.value.display.toList))

namespace Graph

/-- The pattern of some action word matches a text. -/
def Recognises (g : Graph) (text : String) : Prop := ∃ k w pattern groups, g.actionWord? k = some w ∧
  w.pattern = some pattern ∧ Sentence.MatchesPattern pattern text groups

/-- A node is a resolved call of an action word. -/
def Links (g : Graph) (h : Handle) : Prop := ∃ c t w, g.content? h = some (.call c) ∧
  c.resolved = some true ∧ c.target = some t ∧ g.actionWord? t = some w ∧ c.actionWord = w.name

/-- What a run that leads to `g` makes of the step `s` under a keyword. -/
structure Recognised (g : Graph) (h : Handle) (s : Step) : Prop where
  /-- It is linked if what it says apart from its keyword is matched. -/
  linked : g.Links h ↔ g.Recognises s.sentence
  /-- It is linked if it is matched as it is displayed, and its keyword is not in front. -/
  bare : g.Recognises s.value.display → ¬ s.Prefaced → g.Links h

end Graph

/-! ## Blanks at the ends -/

namespace Text

variable {s e : List Char}

/-- A text has no blanks at its ends. -/
structure Tight (s : List Char) : Prop where
  first : ∀ c, s.head? = some c → isBlank c = false
  last : ∀ c, s.getLast? = some c → isBlank c = false

theorem trimRight_cons (c : Char) (s : List Char) : trimRight (c :: s) =
    if (trimRight s).isEmpty && isBlank c then [] else c :: trimRight s := rfl

theorem trimRight_append_blank (s : List Char) (he : ∀ c ∈ e, isBlank c = true) :
    trimRight (s ++ e) = trimRight s := by
  induction s with
  | nil => exact Grammar.trimRight_eq_nil.2 he
  | cons c s ih => rw [List.cons_append, trimRight_cons, trimRight_cons, ih]

theorem trimRight_prefix (s : List Char) : trimRight s <+: s := by
  induction s with
  | nil => exact List.prefix_rfl
  | cons c s ih =>
    rw [trimRight_cons]
    split
    · exact List.nil_prefix
    · exact (List.prefix_cons_inj c).2 ih

theorem trimRight_eq_self (hs : ∀ c, s.getLast? = some c → isBlank c = false) : trimRight s = s := by
  induction s with
  | nil => rfl
  | cons c s ih =>
    rw [trimRight_cons]
    cases s with
    | nil =>
      rw [hs c rfl]
      rfl
    | cons d s =>
      have hrest : trimRight (d :: s) = d :: s := ih fun c' hc' => hs c' (by rwa [List.getLast?_cons_cons])
      rw [hrest]
      rfl

theorem tight_trim (s : List Char) : Tight (trim s) where
  first c hc := by
    have hhead : (s.dropWhile isBlank).head? = some c := by
      obtain ⟨rest, hrest⟩ := trimRight_prefix (s.dropWhile isBlank)
      rw [← hrest, List.head?_append]
      exact Option.or_eq_some_iff.2 (.inl hc)
    have hnot := List.head?_dropWhile_not isBlank s
    rw [hhead] at hnot
    simpa using hnot
  last c hc := by
    obtain ⟨l, hl⟩ := List.getLast?_eq_some_iff.1 hc
    by_contra hblank
    exact trimRight_ne_append_blank (Bool.eq_true_of_not_eq_false hblank) _ l hl

/-- Of a text with blanks behind it the text is left. -/
theorem Tight.trim_append (hs : Tight s) (he : ∀ c ∈ e, isBlank c = true) : trim (s ++ e) = s := by
  cases s with
  | nil =>
    show trimRight (e.dropWhile isBlank) = []
    rw [List.dropWhile_eq_nil_iff.2 he]
    rfl
  | cons c s =>
    have hc : isBlank c = false := hs.first c rfl
    rw [trim, List.cons_append, List.dropWhile_cons_of_neg (by rw [hc]; exact Bool.false_ne_true),
      ← List.cons_append, trimRight_append_blank _ he, trimRight_eq_self hs.last]

end Text

/-! ## Names with texts -/

namespace Sentence

variable {ps : List Piece} {s : List Char} {texts groups : List (List Char)} {name : List Char}

theorem eq_of_splitAtQuote {a b : List Char} (h : splitAtQuote s = some (a, b)) : s = a ++ '"' :: b := by
  induction s generalizing a with
  | nil => cases h
  | cons c s ih =>
    rw [splitAtQuote] at h
    split at h
    · rename_i hc
      cases h
      rw [hc, List.nil_append]
    · obtain ⟨⟨a', b'⟩, hs, he⟩ := Option.map_eq_some_iff.1 h
      cases he
      rw [ih hs, List.cons_append]

/-- With its own texts a name is what it is. -/
theorem spell_ownTexts (name : List Char) : spell (pieces name) (ownTexts (pieces name)) = name := by
  fun_induction pieces name with
  | case1 name => exact List.append_nil name
  | case2 name => exact List.append_nil name
  | case3 name before afterOpen hopen inside rest hclose _ _ ih =>
    rw [ownTexts, ownTexts, spell, spell, ih, ← eq_of_splitAtQuote hclose, ← eq_of_splitAtQuote hopen]

theorem head?_spell (hlen : texts.length = (ownTexts ps).length) :
    (spell ps texts).head? = (frame ps).head? := by
  induction ps generalizing texts with
  | nil => rfl
  | cons piece ps ih =>
    cases piece with
    | literal t => rw [spell, frame, List.head?_append, List.head?_append, ih hlen]
    | placeholder p =>
      cases texts with
      | nil => cases hlen
      | cons text texts => rfl

theorem getLast?_spell (hlen : texts.length = (ownTexts ps).length) :
    (spell ps texts).getLast? = (frame ps).getLast? := by
  induction ps generalizing texts with
  | nil => rfl
  | cons piece ps ih =>
    cases piece with
    | literal t => rw [spell, frame, List.getLast?_append, List.getLast?_append, ih hlen]
    | placeholder p =>
      cases texts with
      | nil => cases hlen
      | cons text texts =>
        -- either way the second quote is last if nothing follows it
        have hspell : spell (.placeholder p :: ps) (text :: texts) =
            '"' :: text ++ ['"'] ++ spell ps texts := by
          rw [spell, List.append_assoc]
          rfl
        have hframe : frame (.placeholder p :: ps) = ['"', '"'] ++ frame ps := rfl
        rw [hspell, List.getLast?_append, List.getLast?_concat, hframe, List.getLast?_append,
          ih (Nat.succ.inj hlen)]
        rfl

/-- Whatever its texts are, a name without blanks at its ends has none there. -/
theorem tight_spell (hname : Text.Tight name) (hlen : texts.length = (ownTexts (pieces name)).length) :
    Text.Tight (spell (pieces name) texts) := by
  have hown := spell_ownTexts name
  constructor
  · rw [head?_spell hlen, ← head?_spell rfl, hown]
    exact hname.first
  · rw [getLast?_spell hlen, ← getLast?_spell rfl, hown]
    exact hname.last

/-- Blanks at the ends of a sentence make no difference to such a name. -/
theorem Reads.trim (hname : Text.Tight name) (hr : Reads (pieces name) s groups) :
    Reads (pieces name) (Text.trim s) groups := by
  obtain ⟨hlen, hn, e, he, rfl⟩ := hr.eq_spell
  have hblank : ∀ c ∈ e, Text.isBlank c = true := by
    rcases he with rfl | rfl
    · exact List.forall_mem_nil _
    · exact List.forall_mem_singleton.2 (by decide)
  rw [(tight_spell hname hlen).trim_append hblank]
  exact reads_spell hlen hn

theorem admits_iff_reads {name sentence : String} (hs : Text.Closed sentence.toList) :
    Admits name sentence ↔ ∃ groups, Reads (pieces name.toList) sentence.toList groups := by
  constructor
  · intro hm
    obtain ⟨texts, hf⟩ := hm
    exact ⟨_, hf.reads⟩
  · intro hm
    obtain ⟨groups, hr⟩ := hm
    apply (isSome_captures? hs).1
    rw [captures?, Option.isSome_map]
    exact isSome_matchPieces hr

end Sentence

open Sentence (Admits Reads pieces)

/-- Without its keyword in front a sentence is what is displayed, but for blanks at its ends. -/
theorem Step.sentence_of_bare {s : Step} (h : ¬ s.Prefaced) : s.sentence = Text.trimmed s.value.display := by
  unfold Step.sentence Sentence.withoutKeyword
  exact if_neg fun hp => h (List.isPrefixOf_iff_prefix.1 hp)

/-! ## The names of a document -/

theorem eq_childText_of_requiredChild {e : Xml.Element} {tag owner t : String}
    (h : requiredChild e tag owner = .ok t) : t = childText e tag := by
  unfold requiredChild childText? at h
  dsimp only at h
  cases hempty : (childText e tag).isEmpty with
  | true =>
    rw [hempty] at h
    cases h
  | false =>
    rw [hempty] at h
    cases h
    rfl

theorem tight_childText (e : Xml.Element) (tag : String) : Text.Tight (childText e tag).toList := by
  unfold childText
  cases e.child? tag with
  | none => exact ⟨nofun, nofun⟩
  | some c =>
    show Text.Tight (Text.trimmed c.text).toList
    rw [Text.trimmed, String.toList_ofList]
    exact Text.tight_trim _

/-- The names of action words have no blanks at their ends. -/
theorem Design.tight_of_readGraph {text : String} {strict : Bool} {g : Graph}
    (hg : readGraph text strict = .ok g) : ∀ name ∈ g.words.map (·.2.name), Text.Tight name.toList := by
  obtain ⟨d, hd, -, rfl⟩ := readGraph_eq_ok.1 hg
  rw [names_words]
  intro name hname
  obtain ⟨w, hw, rfl⟩ := List.mem_map.1 hname
  obtain ⟨e, he⟩ := exists_of_ofText hd w hw
  rw [eq_childText_of_requiredChild (readDefinition_parameters he).1]
  exact tight_childText e "name"

/-! ## Runs -/

namespace Graph

variable {g g' m : Graph} {h : Handle} {s : Step} {text : String}

/-- A pattern matches what the name of its action word reads. -/
theorem Phrased.recognises_iff (hp : g.Phrased) (hs : g.Sound) : g.Recognises text ↔
    ∃ name ∈ g.words.map (·.2.name), ∃ groups, Reads (pieces name.toList) text.toList groups := by
  constructor
  · intro hm
    obtain ⟨k, w, pattern, groups, hw, hpattern, hm⟩ := hm
    rw [hp.patterned k w hw] at hpattern
    cases hpattern
    refine ⟨w.name, List.mem_map.2 ⟨(k, w), hs.mem_words_of_actionWord? hw, rfl⟩, ?_⟩
    exact ⟨groups.map String.toList, Sentence.matchesPattern_written.1 hm⟩
  · intro hm
    obtain ⟨name, hname, groups, hr⟩ := hm
    obtain ⟨word, hword, rfl⟩ := List.mem_map.1 hname
    have hw := mem_words hword
    refine ⟨word.1, word.2, _, groups.map String.ofList, hw, hp.patterned _ _ hw, ?_⟩
    apply Sentence.matchesPattern_written.2
    rwa [Sentence.map_toList_ofList]

/-- **A run links a sentence** exactly if the name of an action word admits it. -/
theorem Enriched.links_iff (he : g.Enriched m g') (hs : g.Sound) (hplain : g.plain? h = some s)
    (hk : sentenceKeywords.contains s.key = true) :
    g'.Links h ↔ ∃ name ∈ g.words.map (·.2.name), Admits name s.sentence := by
  obtain ⟨k, d, hd, hm⟩ := hs.exists_body (isStep_of_plain? hplain)
  have hrewritten := he.rewritten hd hm hplain hk
  constructor
  · intro hm
    obtain ⟨c, -, -, hc, -⟩ := hm
    obtain ⟨word, hword, hadmits⟩ := hrewritten.iff.1 ⟨c, hc⟩
    exact ⟨word.2.name, List.mem_map_of_mem hword, hadmits⟩
  · intro hm
    obtain ⟨name, hname, hadmits⟩ := hm
    obtain ⟨v, hv, rfl⟩ := List.mem_map.1 hname
    obtain ⟨c, hc⟩ := hrewritten.iff.2 ⟨v, hv, hadmits⟩
    obtain ⟨before, word, after, texts, hsplit, -, hstands⟩ := hrewritten.first c hc
    have hin : (word.1, word.2.toDefinition) ∈ g'.words.map fun w => (w.1, w.2.toDefinition) := by
      rw [words_congr he.follows.root he.follows.fixed, hsplit, List.map_append, List.map_cons]
      exact List.mem_append_right _ List.mem_cons_self
    obtain ⟨w, hw, heq⟩ := List.mem_map.1 hin
    obtain ⟨hhandle, hdefinition⟩ := Prod.mk.inj heq
    refine ⟨c, word.1, w.2, hc, hstands.resolved, hstands.target, ?_, ?_⟩
    · rw [← hhandle]
      exact mem_words hw
    · exact hstands.actionWord.trans (congrArg Definition.name hdefinition).symm

/-- What a run makes of a step under a keyword, if no name has blanks at its ends. -/
theorem Enriched.recognised (he : g.Enriched m g') (hp : g'.Phrased) (hs : g.Sound)
    (hnames : ∀ name ∈ g.words.map (·.2.name), Text.Tight name.toList) (hplain : g.plain? h = some s)
    (hk : sentenceKeywords.contains s.key = true) : g'.Recognised h s := by
  have hwords : g'.words.map (·.2.name) = g.words.map (·.2.name) :=
    map_name_words_congr he.follows.root he.follows.fixed
  have hlinked : g'.Links h ↔ g'.Recognises s.sentence := by
    rw [he.links_iff hs hplain hk, hp.recognises_iff he.after.sound, hwords]
    exact exists_congr fun _ => and_congr_right fun _ => Sentence.admits_iff_reads s.closed_sentence
  refine ⟨hlinked, fun hmatched hbare => hlinked.2 ?_⟩
  rw [hp.recognises_iff he.after.sound, hwords] at hmatched ⊢
  obtain ⟨name, hname, groups, hr⟩ := hmatched
  refine ⟨name, hname, groups, ?_⟩
  rw [s.sentence_of_bare hbare, Text.trimmed, String.toList_ofList]
  exact hr.trim (hnames name hname)

end Graph

/-- **Bare sentences are recognised** in a run over a graph that is read: a step under a keyword that the
pattern of an action word matches as it is displayed becomes a resolved call, unless the keyword is in front
of it. Then it becomes one exactly if a pattern matches what is left. -/
theorem bare_sentences_are_recognised {text : String} {strict : Bool} {g : Graph}
    (hg : Design.readGraph text strict = .ok g) (r : Report) :
    Ensures enrich ⟨g, r⟩ fun _ s => ∀ h step, g.plain? h = some step →
      sentenceKeywords.contains step.key = true → s.graph.Recognised h step := by
  have hs := Design.sound_of_readGraph hg
  refine ((Graph.ensures_enrich hs).and (Graph.ensures_enrich_phrased hs)).mono ?_
  intro _ s hrun h step hplain hk
  obtain ⟨⟨m, he⟩, hp⟩ := hrun
  exact he.recognised hp hs (Design.tight_of_readGraph hg) hplain hk

namespace Design

/-- A name that begins with a keyword, as a sentence under this keyword and under another one. -/
abbrev doubledText : String := "<project><name>p</name><scenarios><scenario><name>s</name><steps>
    <action><key>given</key><value><stringliteral>given x</stringliteral></value></action>
    <action><key>when</key><value><stringliteral>given x</stringliteral></value></action>
  </steps></scenario></scenarios>
  <actionwords><actionword><name>given x</name></actionword></actionwords></project>"

def doubled : Design where
  name := "p"
  description := ""
  scenarios := [{
    name := "s", uid := none, description := "", tags := [], parameters := [], rows := []
    steps := [.plain "given" (.string "given x"), .plain "when" (.string "given x")] }]
  actionWords := [untypedWord "given x" [] []]

set_option maxRecDepth 4000 in
theorem ofText_doubled : ofText doubledText = .ok doubled :=
  ofText_eq_ok (by decide +kernel)

theorem readGraph_doubled : readGraph doubledText true = .ok doubled.graph :=
  readGraph_eq_ok.2 ⟨_, ofText_doubled, fun _ => by decide, rfl⟩

end Design

/-- After a run the name is a sentence that its own pattern matches. -/
theorem ensures_doubled_recognised : Ensures enrich ⟨Design.doubled.graph, {}⟩ fun _ s =>
    s.graph.Recognises "given x" := by
  have hs := Design.sound_of_readGraph Design.readGraph_doubled
  have hname : Ensures enrich ⟨Design.doubled.graph, {}⟩ fun _ s =>
      decide ((s.graph.actionWord? 4).map (·.name) = some "given x") = true :=
    Work.ensures_of_check (by decide +kernel)
  refine ((Graph.ensures_enrich_phrased hs).and hname).mono ?_
  intro _ s hrun
  obtain ⟨hp, hname⟩ := hrun
  obtain ⟨w, hw, hwname⟩ := Option.map_eq_some_iff.1 (of_decide_eq_true hname)
  refine ⟨4, w, _, [], hw, hp.patterned 4 w hw, Sentence.matchesPattern_written.2 ?_⟩
  rw [hwname]
  exact Sentence.reads_of_captures? (by decide +kernel)

theorem doubled_is_recognised :
    (Design.readGraph Design.doubledText true = .ok Design.doubled.graph ∧
      Design.doubled.graph.plain? 3 = some ⟨"when", .string "given x", none⟩) ∧
    Ensures enrich ⟨Design.doubled.graph, {}⟩ fun _ s =>
      s.graph.Recognises "given x" ∧ s.graph.Recognised 3 ⟨"when", .string "given x", none⟩ ∧
        s.graph.Links 3 := by
  refine ⟨⟨Design.readGraph_doubled, rfl⟩, ?_⟩
  refine (ensures_doubled_recognised.and (bare_sentences_are_recognised Design.readGraph_doubled {})).mono ?_
  intro _ s hrun
  obtain ⟨hmatched, hall⟩ := hrun
  have hstep := hall 3 ⟨"when", .string "given x", none⟩ rfl (by decide)
  exact ⟨hmatched, hstep, hstep.bare hmatched (by decide +kernel)⟩

/-- **A sentence may be overlooked** though it is the name of an action word: under the keyword that it
begins with. -/
theorem doubled_keyword_is_overlooked :
    (Design.readGraph Design.doubledText true = .ok Design.doubled.graph ∧
      Design.doubled.graph.plain? 2 = some ⟨"given", .string "given x", none⟩) ∧
    Ensures enrich ⟨Design.doubled.graph, {}⟩ fun _ s =>
      s.graph.Recognises "given x" ∧ ¬ s.graph.Links 2 := by
  refine ⟨⟨Design.readGraph_doubled, rfl⟩, ?_⟩
  have hplain : Ensures enrich ⟨Design.doubled.graph, {}⟩ fun _ s => (s.graph.plain? 2).isSome = true :=
    Work.ensures_of_check (by decide +kernel)
  refine (ensures_doubled_recognised.and hplain).mono ?_
  intro _ s hrun
  obtain ⟨hmatched, hplain⟩ := hrun
  obtain ⟨step, hstep⟩ := Option.isSome_iff_exists.1 hplain
  refine ⟨hmatched, fun hlinks => ?_⟩
  obtain ⟨c, -, -, hc, -⟩ := hlinks
  rw [Graph.plain?_eq_some.1 hstep] at hc
  cases hc

end Actionbook
