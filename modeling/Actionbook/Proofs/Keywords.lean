import Actionbook.Proofs.Phrasing
import Actionbook.Proofs.Settling

/-!
# The keywords that steps come under

While a body is normalized the last effective keyword is handed on from step to step, through calls that
were written as such, sentences that become calls and sentences that stay. What comes of it does not
mention this order of events: a step comes under the last of the keywords up to it that opens a part
(`given`, `when` or `then`), and if there is none, under the first keyword of its body (`governing`).

* `trail_eq_governing`: the keyword that is handed on is the governing one.
* `Enriched.governed`, `Enriched.unspoken`: what a run notes at a single step.
* `Phrased.mem_keywords`: the keywords that are noted at an action word.
* `keywords_are_governed`: the whole of it.
-/

namespace Actionbook

open Work (Ensures)

/-- The keyword that a step comes under, from the keywords up to it: the last one that opens a part, or else
the first one. -/
def governing (keywords : List String) : Option String :=
  (keywords.filter primaryKeywords.contains).getLast?.or keywords.head?

/-- The effective keyword of a call or of a plain step. -/
def Content.effective? : Content → Option String
  | .call c => c.effective
  | .step s => s.effective
  | _ => none

/-- The effective keyword that is noted at the node with a handle. -/
def Graph.effective? (g : Graph) (h : Handle) : Option String := (g.content? h).bind Content.effective?

/-- What a run from `g` to `g'` notes of keywords. -/
structure Graph.Governed (g g' : Graph) : Prop where
  /-- Scenarios and action words have the steps that they have had. -/
  bodies : ∀ k, g'.definition? k = g.definition? k
  /-- A step with a keyword comes under the governing keyword of the steps up to it in its body. -/
  spoken : ∀ k d before h after, g.definition? k = some d → d.steps = before ++ h :: after →
    g.keyword? h ≠ none → g'.effective? h = governing ((before ++ [h]).filterMap g.keyword?)
  /-- A step without a keyword comes under none. -/
  unspoken : ∀ h, g.keyword? h = none → (∀ c, g'.content? h = some (.call c) → c.effective = none) ∧
    ∀ s, g.content? h = some (.step s) → g'.content? h = some (.step s)
  /-- The keywords of an action word are in order, … -/
  sorted : ∀ t w, g'.actionWord? t = some w → w.keywords.Pairwise (· ≤ ·)
  /-- … none of them stands twice, … -/
  distinct : ∀ t w, g'.actionWord? t = some w → w.keywords.Nodup
  /-- … and they are those that the resolved calls of the word come under. -/
  collected : ∀ t w, g'.actionWord? t = some w → ∀ a, a ∈ w.keywords ↔
    ∃ h c, g'.content? h = some (.call c) ∧ c.resolved = some true ∧ c.target = some t ∧
      c.effective = some a

/-! ## The governing keyword -/

section
variable {keywords : List String} {k a : String}

theorem governing_append (keywords : List String) (k : String) : governing (keywords ++ [k]) =
    if primaryKeywords.contains k then some k else (governing keywords).or (some k) := by
  unfold governing
  rw [List.filter_append, List.head?_append]
  split
  · rename_i hk
    rw [List.filter_cons_of_pos hk, List.filter_nil, List.getLast?_concat, Option.some_or]
  · rename_i hk
    rw [List.filter_cons_of_neg hk, List.filter_nil, List.append_nil, List.head?_cons, Option.or_assoc]

theorem mem_of_governing (h : governing keywords = some a) : a ∈ keywords := by
  rcases Option.or_eq_some_iff.1 h with h | ⟨-, h⟩
  · exact List.mem_of_mem_filter (List.mem_of_getLast? h)
  · exact List.mem_of_head? h

theorem ne_empty_of_sentenceKeyword (hk : k ∈ sentenceKeywords) : k ≠ "" := by
  intro h
  rw [h] at hk
  revert hk
  decide

/-- A keyword that does not open a part stands for what governs the steps before it. -/
theorem effectiveKeyword_eq (hk : k ∈ sentenceKeywords) (hks : ∀ a ∈ keywords, a ∈ sentenceKeywords) :
    some (effectiveKeyword k (governing keywords)) = governing (keywords ++ [k]) := by
  rw [governing_append]
  unfold effectiveKeyword
  split
  · rfl
  · rename_i hprimary
    have hcontinuing : continuingKeywords.contains k = true := by
      rcases List.mem_append.1 hk with hk | hk
      · exact absurd (List.contains_iff_mem.2 hk) hprimary
      · exact List.contains_iff_mem.2 hk
    cases hlast : governing keywords with
    | none => rfl
    | some l =>
      have hl : l.isEmpty = false := by
        rw [String.isEmpty_eq_false_iff]
        exact ne_empty_of_sentenceKeyword (hks l (mem_of_governing hlast))
      show some (if (continuingKeywords.contains k && !l.isEmpty) = true then l else k) = some l
      rw [hcontinuing, hl]
      rfl

/-- **The keyword that is handed on** is the one that governs the steps so far. -/
theorem trail_eq_governing {l : List (Option String)}
    (hl : ∀ k, some k ∈ l → k ∈ sentenceKeywords) : trail l = governing (l.filterMap id) := by
  -- from the back, since a step hands on what it has got from those before it
  induction l using List.reverseRecOn with
  | nil => rfl
  | append_singleton l k ih =>
    have hbefore : trail l = governing (l.filterMap id) :=
      ih fun k' hk' => hl k' (List.mem_append_left _ hk')
    rw [trail_append, List.filterMap_append, hbefore]
    cases k with
    | none =>
      rw [Option.map_none, Option.none_or, List.filterMap_cons_none rfl, List.filterMap_nil,
        List.append_nil]
    | some k =>
      rw [Option.map_some, Option.some_or, List.filterMap_cons_some (f := id) rfl, List.filterMap_nil]
      apply effectiveKeyword_eq
      · exact hl k (List.mem_append_right _ (List.mem_singleton_self _))
      · intro a ha
        obtain ⟨k', hk', rfl⟩ := List.mem_filterMap.1 ha
        exact hl a (List.mem_append_left _ hk')

end

namespace Graph

variable {g g' m : Graph} {h k t : Handle} {σ τ : StepState} {last : Option String} {a : String}
  {x y : CallState} {d : Definition} {before after : List Handle}

/-! ## A single step -/

theorem mem_sentenceKeywords_of_keyword? (hk : g.keyword? h = some a) : a ∈ sentenceKeywords := by
  obtain ⟨σ, -, hσ⟩ := Option.bind_eq_some_iff.1 hk
  apply List.contains_iff_mem.1
  cases σ with
  | plain s => exact (Option.filter_eq_some_iff.1 (show (some s.key).filter _ = _ from hσ)).2
  | call x => exact (Option.filter_eq_some_iff.1 (show x.call.keyword.filter _ = _ from hσ)).2

theorem keyword?_sentence {s : Step} (hk : sentenceKeywords.contains s.key = true) :
    (StepState.plain s).keyword? = some s.key := by
  rw [StepState.keyword?, Option.filter, if_pos hk]

theorem effective?_plain {s : Step} (hs : g.step? h = some (.plain s)) :
    g.effective? h = s.effective := by
  rw [effective?, plain?_eq_some.1 (plain?_of_step? hs)]
  rfl

theorem effective?_call (hx : g.step? h = some (.call x)) : g.effective? h = x.call.effective := by
  rw [effective?, (state?_eq_some.1 (state?_of_step? hx)).1]
  rfl

/-- A step gets the effective keyword that its keyword has after `last`. -/
theorem Enriches.effective? (he : m.Enriches last σ τ) (hτ : g'.step? h = some τ)
    (hk : σ.keyword? = some a) : g'.effective? h = some (effectiveKeyword a last) := by
  cases he with
  | other hother =>
    rw [StepState.keyword?, Option.filter, hother] at hk
    cases hk
  | sentence hkey =>
    rw [keyword?_sentence hkey] at hk
    cases hk
    exact effective?_plain hτ
  | placed hkey =>
    rw [keyword?_sentence hkey] at hk
    cases hk
    exact effective?_call hτ
  | call =>
    rw [effective?_call hτ]
    show (StepState.call _).effective last = _
    rw [StepState.effective, hk]
    rfl

/-- A step without a keyword gets none, and a plain one stays. -/
theorem Enriches.unspoken (he : m.Enriches last σ τ) (hk : σ.keyword? = none) :
    (∃ s, σ = .plain s ∧ τ = .plain s) ∨
      ∃ x y, σ = .call x ∧ τ = .call y ∧ y.call.effective = none := by
  cases he with
  | other => exact .inl ⟨_, rfl, rfl⟩
  | sentence hkey =>
    rw [keyword?_sentence hkey] at hk
    cases hk
  | placed hkey =>
    rw [keyword?_sentence hkey] at hk
    cases hk
  | call =>
    rename_i x y sentence _
    refine .inr ⟨x, _, rfl, rfl, ?_⟩
    show (StepState.call x).effective last = none
    rw [StepState.effective, hk]
    rfl

namespace Enriched

variable (he : g.Enriched m g')
include he

theorem governed (hd : g.definition? k = some d) (hsplit : d.steps = before ++ h :: after)
    (hk : g.keyword? h ≠ none) :
    g'.effective? h = governing ((before ++ [h]).filterMap g.keyword?) := by
  obtain ⟨a, ha⟩ := Option.ne_none_iff_exists'.1 hk
  obtain ⟨σ, τ, hσ, hτ, hstep⟩ := he.steps k d before h after hd hsplit
  have hkey : σ.keyword? = some a := by
    rw [keyword?, hσ] at ha
    exact ha
  have hall : ∀ b, some b ∈ (before ++ [h]).map g.keyword? → b ∈ sentenceKeywords := by
    intro b hb
    obtain ⟨j, -, hj⟩ := List.mem_map.1 hb
    exact mem_sentenceKeywords_of_keyword? hj
  -- the step hands on the keyword that it comes under
  have hlast : trail ((before ++ [h]).map g.keyword?) =
      some (effectiveKeyword a (trail (before.map g.keyword?))) := by
    rw [List.map_append, List.map_singleton, ha, trail_append]
    rfl
  rw [hstep.effective? hτ hkey, ← hlast, trail_eq_governing hall, List.filterMap_map]
  rfl

/-- A step after a run has its place in a body of the graph before. -/
theorem exists_steps (hh : g'.IsStep h) :
    ∃ k d before after, g.definition? k = some d ∧ d.steps = before ++ h :: after := by
  obtain ⟨k, d, hd, hm⟩ := he.after.sound.exists_body hh
  rw [he.follows.definition?] at hd
  obtain ⟨before, after, hsplit⟩ := List.append_of_mem hm
  exact ⟨k, d, before, after, hd, hsplit⟩

theorem effective?_of_unspoken (hk : g.keyword? h = none) {c : Call}
    (hc : g'.content? h = some (.call c)) : c.effective = none := by
  have hz := state?_call hc
  obtain ⟨last, σ, hσ, hstep⟩ := he.exists_step (isStep_of_state? hz) (step?_call hz)
  rw [keyword?, hσ] at hk
  rcases hstep.unspoken hk with ⟨s, -, h⟩ | ⟨x, y, -, h, hy⟩
  · cases h
  · cases h
    exact hy

theorem plain_of_unspoken (hs : g.Sound) (hk : g.keyword? h = none) {s : Step}
    (hc : g.content? h = some (.step s)) : g'.content? h = some (.step s) := by
  have hplain := plain?_eq_some.2 hc
  obtain ⟨k, d, hd, hm⟩ := hs.exists_body (isStep_of_plain? hplain)
  obtain ⟨last, σ, τ, hσ, hτ, hstep⟩ := he.exists_enriches hd hm
  rw [keyword?, hσ] at hk
  rw [step?_plain hplain] at hσ
  cases hσ
  rcases hstep.unspoken hk with ⟨s', h, rfl⟩ | ⟨x, y, h, -⟩
  · cases h
    exact plain?_eq_some.1 (plain?_of_step? hτ)
  · cases h

/-- No call comes under an empty keyword. -/
theorem effective_ne_empty {c : Call} (hc : g'.content? h = some (.call c)) (ha : c.effective = some a) :
    a ≠ "" := by
  obtain ⟨k, d, before, after, hd, hsplit⟩ := he.exists_steps (isStep_of_state? (state?_call hc))
  have hk : g.keyword? h ≠ none := by
    intro hk
    rw [he.effective?_of_unspoken hk hc] at ha
    cases ha
  have hgoverned := he.governed hd hsplit hk
  have heffective : g'.effective? h = some a := by
    rw [effective?, hc]
    exact ha
  rw [heffective] at hgoverned
  obtain ⟨j, -, hj⟩ := List.mem_filterMap.1 (mem_of_governing hgoverned.symm)
  exact ne_empty_of_sentenceKeyword (mem_sentenceKeywords_of_keyword? hj)

end Enriched

/-! ## The keywords of an action word -/

theorem mem_keywordsOf {uses : List (Handle × String)} : a ∈ keywordsOf uses t ↔ (t, a) ∈ uses := by
  rw [keywordsOf, mem_sortTexts, mem_distinct, List.mem_map]
  constructor
  · intro hm
    obtain ⟨u, hu, ha⟩ := hm
    obtain ⟨hu, ht⟩ := List.mem_filter.1 hu
    rw [beq_iff_eq] at ht
    rwa [← ht, ← ha]
  · intro h
    exact ⟨(t, a), List.mem_filter.2 ⟨h, beq_self_eq_true t⟩, rfl⟩

theorem mem_usesAt : (t, a) ∈ g.usesAt h ↔ ∃ c, g.content? h = some (.call c) ∧ c.target = some t ∧
    c.effective = some a ∧ a ≠ "" := by
  constructor
  · intro hm
    unfold usesAt at hm
    cases hσ : g.step? h with
    | none =>
      rw [hσ] at hm
      cases hm
    | some σ =>
      rw [hσ] at hm
      cases σ with
      | plain s => cases hm
      | call x =>
        refine ⟨x.call, (state?_eq_some.1 (state?_of_step? hσ)).1, ?_⟩
        simp only [Option.map_some, Option.getD_some, StepState.uses] at hm
        split at hm
        · rename_i a' t' ha ht
          split at hm
          · cases hm
          · rename_i hne
            cases List.mem_singleton.1 hm
            exact ⟨ht, ha, fun h => hne (by rw [h]; rfl)⟩
        · cases hm
  · intro hm
    obtain ⟨c, hc, ht, ha, hne⟩ := hm
    rw [usesAt, step?_call (state?_call hc)]
    simp only [Option.map_some, Option.getD_some, StepState.uses, ha, ht]
    rw [if_neg (by rwa [String.isEmpty_iff])]
    exact List.mem_singleton_self _

theorem Sound.mem_uses (hs : g.Sound) : (t, a) ∈ g.uses ↔ ∃ h c, g.content? h = some (.call c) ∧
    c.target = some t ∧ c.effective = some a ∧ a ≠ "" := by
  rw [uses, List.mem_flatMap]
  constructor
  · intro hm
    obtain ⟨h, -, hm⟩ := hm
    exact ⟨h, mem_usesAt.1 hm⟩
  · intro hm
    obtain ⟨h, c, hc, hm⟩ := hm
    exact ⟨h, hs.mem_steps.2 (isStep_of_state? (state?_call hc)), mem_usesAt.2 ⟨c, hc, hm⟩⟩

/-- A call has a target if it is resolved. -/
theorem Enriched.resolved_of_target (he : g.Enriched m g') {c : Call}
    (hc : g'.content? h = some (.call c)) (ht : c.target = some t) : c.resolved = some true := by
  have hfinished := he.finished (state?_call hc)
  unfold CallState.Finished at hfinished
  split at hfinished
  · exact hfinished.resolved
  · rw [hfinished.target] at ht
    cases ht

theorem Phrased.mem_keywords (hp : g'.Phrased) (he : g.Enriched m g') {w : ActionWord}
    (hw : g'.actionWord? t = some w) : a ∈ w.keywords ↔ ∃ h c, g'.content? h = some (.call c) ∧
      c.resolved = some true ∧ c.target = some t ∧ c.effective = some a := by
  rw [hp.keyworded t w hw, mem_keywordsOf, he.after.sound.mem_uses]
  constructor
  · intro hm
    obtain ⟨h, c, hc, ht, ha, -⟩ := hm
    exact ⟨h, c, hc, he.resolved_of_target hc ht, ht, ha⟩
  · intro hm
    obtain ⟨h, c, hc, -, ht, ha⟩ := hm
    exact ⟨h, c, hc, ht, ha, he.effective_ne_empty hc ha⟩

end Graph

/-- **The keywords that steps come under** after a run over a graph that is read. Every body stands for
itself, and an action word has the keywords that it is called under anywhere. -/
theorem keywords_are_governed {text : String} {strict : Bool} {g : Graph}
    (hg : Design.readGraph text strict = .ok g) (r : Report) :
    Ensures enrich ⟨g, r⟩ fun _ s => g.Governed s.graph := by
  have hs := Design.sound_of_readGraph hg
  refine ((Graph.ensures_enrich hs).and (Graph.ensures_enrich_phrased hs)).mono ?_
  intro _ s hrun
  obtain ⟨⟨m, he⟩, hp⟩ := hrun
  exact {
    bodies := fun k => by rw [he.follows.definition?]
    spoken := fun k d before h after hd hsplit hk => he.governed hd hsplit hk
    unspoken := fun h hk =>
      ⟨fun c hc => he.effective?_of_unspoken hk hc, fun s hc => he.plain_of_unspoken hs hk hc⟩
    sorted := fun t w hw => by
      rw [hp.keyworded t w hw]
      exact (sortTexts_sorted _).imp textLe_iff.1
    distinct := fun t w hw => by
      rw [hp.keyworded t w hw]
      exact (sortTexts_perm _).nodup_iff.2 (nodup_distinct _)
    collected := fun t w hw a => hp.mem_keywords he hw }

namespace Design

/-- A scenario that goes on with something before it has begun, and a word that is called by sentences and
calls of all kinds. -/
abbrev continuedText : String := "<project><name>p</name><scenarios><scenario><name>s</name><steps>
    <action><key>and</key><value><stringliteral>none</stringliteral></value></action>
    <call><actionword>w</actionword><annotation>but</annotation></call>
    <action><key>then</key><value><stringliteral>w</stringliteral></value></action>
    <call><actionword>w</actionword></call>
    <action><key>but</key><value><stringliteral>none</stringliteral></value></action>
  </steps></scenario></scenarios>
  <actionwords><actionword><name>w</name></actionword><actionword><name>u</name><steps>
    <call><actionword>w</actionword><annotation>but</annotation></call>
  </steps></actionword></actionwords></project>"

def continued : Design where
  name := "p"
  description := ""
  scenarios := [{
    name := "s", uid := none, description := "", tags := [], parameters := [], rows := []
    steps := [.plain "and" (.string "none"), .call "w" (some "but") [], .plain "then" (.string "w"),
      .call "w" none [], .plain "but" (.string "none")] }]
  actionWords := [untypedWord "w" [] [], untypedWord "u" [] [.call "w" (some "but") []]]

set_option maxRecDepth 4000 in
theorem ofText_continued : ofText continuedText = .ok continued :=
  ofText_eq_ok (by decide +kernel)

theorem readGraph_continued : readGraph continuedText true = .ok continued.graph :=
  readGraph_eq_ok.2 ⟨_, ofText_continued, fun _ => by decide, rfl⟩

end Design

theorem continued_is_governed : Design.readGraph Design.continuedText true = .ok Design.continued.graph ∧
    (Ensures enrich ⟨Design.continued.graph, {}⟩ fun _ s => Design.continued.graph.Governed s.graph) ∧
    Ensures enrich ⟨Design.continued.graph, {}⟩ fun _ s => decide (
      (s.graph.steps.map s.graph.effective? =
        [some "and", some "and", some "then", none, some "then", some "but"]) ∧
      s.graph.words.map (·.2.keywords) = [["and", "but", "then"], []]) = true := by
  refine ⟨Design.readGraph_continued, ?_, Work.ensures_of_check (by decide +kernel)⟩
  exact keywords_are_governed Design.readGraph_continued {}

end Actionbook
