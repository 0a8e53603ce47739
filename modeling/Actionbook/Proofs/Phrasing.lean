import Actionbook.Proofs.Declarations
import Actionbook.Proofs.Spelling

/-!
# Sentences and patterns agree

The sentence of a call and the pattern of its action word are both made of the word's name, but apart from
each other: the one for people, the other for tools that find the word for a sentence. After a run they
agree wherever sentences are lines (`sentences_agree`).
-/

namespace Actionbook

open Work (Ensures)

namespace Graph

variable {g g' m : Graph} {h : Handle} {x : CallState} {r : Report}

/-- The sentence of a call of the action word `t` agrees with the pattern of the word. What is put in for a
placeholder is what is displayed for the parameter of its name, or the last of several. -/
def Agrees (g : Graph) (c : Call) (t : Handle) : Prop :=
  ∃ w pattern displayed plain, g.actionWord? t = some w ∧ w.name = c.actionWord ∧
    w.pattern = some pattern ∧ g.displayedArguments c = .ok displayed ∧
    c.sentence = some (c.opening ++ plain) ∧
    Sentence.Agree pattern w.name plain (displayed.reverse.lookup ·)

/-- After a run all calls have their sentences, and all action words have their patterns. -/
theorem ensures_enrich_phrased (hs : g.Sound) : Ensures enrich ⟨g, r⟩ fun _ s => s.graph.Phrased := by
  unfold enrich
  simp only [Pass.all, Work.ensures_bind, Work.ensures_get, Work.ensures_pure, List.forM_eq_forM,
    List.forM_cons, List.forM_nil, Work.ensures_announcing]
  refine (ensures_pass hs .link).mono ?_
  rintro - ⟨g₁, r₁⟩ ⟨h₁, -⟩
  refine (ensures_pass h₁.sound .type).mono ?_
  rintro - ⟨g₂, r₂⟩ ⟨h₂, -⟩
  refine (ensures_pass h₂.sound .bind).mono ?_
  rintro - ⟨g₃, r₃⟩ ⟨h₃, -⟩
  refine (ensures_pass h₃.sound .complete).mono ?_
  rintro - ⟨g₄, r₄⟩ ⟨h₄, -⟩
  exact (ensures_normalizeSentences h₄.sound).mono fun _ _ hn => hn.2.1

/-- A call whose target is the action word of its name agrees with it. -/
theorem Phrased.agrees (hp : g.Phrased) (hs : g.Sound) (hx : g.state? h = some x) {t : Handle}
    (ht : g.target? x.call.actionWord = some t) (htarget : x.call.target = some t) :
    g.Agrees x.call t := by
  obtain ⟨w, -, hname, hw, -⟩ := exists_of_target? ht
  have hplain : x.plainSentence g.parameter? =
      Sentence.filled ((x.displayed g.parameter?).reverse.lookup ·) w.name := by
    rw [CallState.plainSentence, htarget, hname]
  have hsentence : x.call.sentence = some (x.call.opening ++
      Sentence.filled ((x.displayed g.parameter?).reverse.lookup ·) w.name) := by
    rw [hp.worded h x hx, CallState.sentence, hplain]
  exact ⟨w, _, _, _, hw, hname, hp.patterned t w hw, hs.displayedArguments_eq hx htarget, hsentence,
    Sentence.filled_agrees _ _⟩

end Graph

/-- **Sentences and patterns agree** after a run over a graph that is read: what a call says follows the
pattern of its action word if and only if none of the texts at the placeholders has a line break, and if
nothing that is displayed there has a quote, the groups are these texts. -/
theorem sentences_agree {text : String} {strict : Bool} {g : Graph}
    (hg : Design.readGraph text strict = .ok g) (r : Report) :
    Ensures enrich ⟨g, r⟩ fun _ s => ∀ h c, s.graph.content? h = some (.call c) →
      c.resolved = some true → ∃ t, c.target = some t ∧ s.graph.Agrees c t := by
  have hs := Design.sound_of_readGraph hg
  refine ((Graph.ensures_enrich hs).and (Graph.ensures_enrich_phrased hs)).mono ?_
  rintro _ ⟨g', r'⟩ ⟨⟨m, he⟩, hp⟩ h c hc hresolved
  have hx := Graph.state?_call hc
  have hfinished := he.finished hx
  unfold CallState.Finished at hfinished
  split at hfinished
  · rename_i t ht
    exact ⟨t, hfinished.target, hp.agrees he.after.sound hx ht hfinished.target⟩
  · rw [hfinished.resolved] at hresolved
    cases hresolved

/-- One call that was written as such, and one that was a sentence. -/
theorem spoken_agrees : Design.readGraph Design.spokenText true = .ok Design.spokenDesign.graph ∧
    (Ensures enrich ⟨Design.spokenDesign.graph, {}⟩ fun _ s => ∀ h c,
      s.graph.content? h = some (.call c) → c.resolved = some true →
        ∃ t, c.target = some t ∧ s.graph.Agrees c t) ∧
    Ensures enrich ⟨Design.spokenDesign.graph, {}⟩ fun _ s => decide ([4, 6].map (fun h =>
        (s.graph.state? h).map fun x => (x.call.resolved, x.call.sentence)) =
      [some (some true, some "say \"1\""), some (some true, some "Given say \"no\"")]) = true := by
  refine ⟨Design.readGraph_spoken, ?_, Work.ensures_of_check (by decide +kernel)⟩
  exact sentences_agree Design.readGraph_spoken {}

end Actionbook
