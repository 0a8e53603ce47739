import Actionbook.Proofs.Wording

/-!
# Normalizing sentences

Normalizing goes through the steps of every body. `Graph.Normalizes` relates what a step is before and
after: a plain step that is no sentence stays, a sentence without an action word gets its effective
keyword, a sentence with one gives way to a call (`Graph.Placed`), and a call gets its effective keyword
and its sentence. The effective keyword depends on the keywords of the steps before it in its body only
(`trail`). What is due for a step that was plain is reported here (`Graph.news`); on calls the passes
before have reported. Every call gets its sentence (`Graph.Worded`), and every action word its pattern
(`ActionWord.Patterned`) and the keywords under which steps call it (`Graph.uses`).

* `ensures_normalizeStep`, `ensures_normalizeSentences`: the pass follows this relation.
-/

namespace Actionbook

open Work (Ensures)

namespace CallState

/-- A call with its effective keyword and its sentence. -/
def annotated (effective : Option String) (sentence : String) (x : CallState) : CallState :=
  { x with call := { x.call with effective, sentence := some sentence } }

end CallState

/-- An action word has its pattern. -/
def ActionWord.Patterned (w : ActionWord) : Prop := w.pattern = some (Sentence.writtenPattern w.name)

namespace StepState

/-- The warnings that are due for a step. -/
def due (formals : Handle → List (Handle × Parameter)) (h : Handle) : StepState → List Warning
  | .plain s =>
    if sentenceKeywords.contains s.key then [⟨.unmatchedSentence s.value.display, some h⟩] else []
  | .call x => x.unresolved h ++ x.missing formals h

/-- What is reported of a step that is `τ` after normalizing: all that is due if it was plain before. -/
def news (formals : Handle → List (Handle × Parameter)) (h : Handle) : StepState → StepState → List Warning
  | .plain _, τ => τ.due formals h
  | .call _, _ => []

/-- The action word that a step calls under an effective keyword, with the keyword. -/
def uses : StepState → List (Handle × String)
  | .plain _ => []
  | .call x =>
    match x.call.effective, x.call.target with
    | some a, some t => if a.isEmpty then [] else [(t, a)]
    | _, _ => []

end StepState

/-- The keywords under which an action word is called, without repetition and in order. -/
def keywordsOf (uses : List (Handle × String)) (word : Handle) : List String :=
  sortTexts (distinct ((uses.filter (·.1 == word)).map (·.2)))

namespace Graph

variable {g g' : Graph} {h k : Handle} {r : Report} {x y : CallState} {σ τ : StepState}
  {words : List (Handle × ActionWord)} {last : Option String}

/-- What is reported of a step that normalizing has gone through, from `g` to `g'`. -/
def news (g g' : Graph) (h : Handle) : List Warning :=
  match g.step? h, g'.step? h with
  | some σ, some τ => σ.news g.formals h τ
  | _, _ => []

theorem news_eq (hσ : g.step? h = some σ) (hτ : g'.step? h = some τ) :
    g.news g' h = σ.news g.formals h τ := by
  simp only [news, hσ, hτ]

/-- What the node with a handle calls under an effective keyword, if it is a step. -/
def usesAt (g : Graph) (h : Handle) : List (Handle × String) :=
  ((g.step? h).map StepState.uses).getD []

/-- What steps call under their effective keywords. -/
def uses (g : Graph) : List (Handle × String) := g.steps.flatMap g.usesAt

/-- What normalizing makes of a step after steps of which the last had the effective keyword `last`. -/
inductive Normalizes (g : Graph) (words : List (Handle × ActionWord)) (last : Option String) :
    StepState → StepState → Prop
  | other {s : Step} (hk : sentenceKeywords.contains s.key = false) :
      Normalizes g words last (.plain s) (.plain s)
  | sentence {s : Step} (hk : sentenceKeywords.contains s.key = true)
      (hm : firstMatch? words s.sentence = none) :
      Normalizes g words last (.plain s)
        (.plain { s with effective := some (effectiveKeyword s.key last) })
  | placed {s : Step} {word : Handle × ActionWord} {texts : List String} {y : CallState}
      {sentence : String} (hk : sentenceKeywords.contains s.key = true)
      (hm : firstMatch? words s.sentence = some (word, texts)) (hy : g.Placed word s.key texts y) :
      Normalizes g words last (.plain s)
        (.call (y.annotated (some (effectiveKeyword s.key last)) sentence))
  | call {x : CallState} {sentence : String} : Normalizes g words last (.call x)
      (.call (x.annotated ((StepState.call x).effective last) sentence))

/-! ## Annotating a call -/

/-- Writing a call with the same arguments and the same target. -/
theorem becomes_setCall {c : Call} (hs : g.Sound) (hx : g.state? h = some x)
    (harg : c.arguments = x.call.arguments) (ht : c.target = x.call.target) :
    g.Becomes h { x with call := c } (g.setContent h (.call c)) := by
  obtain ⟨hc, ha⟩ := state?_eq_some.1 hx
  have hstep := isStep_of_state? hx
  have hkids := kids_of_state? hx
  have hold := (hs.map_fst_of_state? hx).trans hkids.symm
  have hargs := harg.trans hkids.symm
  rw [setContent_eq_put, ← put_self fun e he => argument?_of_state? hx he]
  refine ⟨put_nil_reworked hs hstep hold hargs, put_nil_sound hs hstep hold hargs fun t ht' => ?_,
    state?_put_nil hs hstep hold hargs⟩
  rw [ha]
  exact hs.bound h x.call hc t (ht ▸ ht')

/-- Annotating a call whose effective keyword is known. -/
def annotateAs (h : Handle) (c : Call) (seen : KeywordTrail) (effective : Option String) :
    Work KeywordTrail := do
  Work.change (·.updateCall h fun c => { c with effective })
  let sentence ← Work.read fun g => do g.sentenceOf (← g.call h)
  Work.change (·.updateCall h fun c => { c with sentence := some sentence })
  return {
    last := effective.or seen.last
    used := match effective, c.target with
      | some a, some t => if a.isEmpty then seen.used else seen.used ++ [(t, a)]
      | _, _ => seen.used }

theorem annotateCall_eq (h : Handle) (x : CallState) (seen : KeywordTrail) :
    annotateCall h x.call seen =
      annotateAs h x.call seen ((StepState.call x).effective seen.last) := by
  unfold annotateCall StepState.effective
  simp only [StepState.keyword?]
  cases x.call.keyword with
  | none => rfl
  | some a =>
    by_cases ha : sentenceKeywords.contains a
    · simp only [ha, if_true, Option.filter, Option.map]
      rfl
    · simp only [ha, Option.filter, Option.map]
      rfl

theorem ensures_annotateCall {seen : KeywordTrail} (hs : g.Sound) (hx : g.state? h = some x) :
    Ensures (annotateCall h x.call seen) ⟨g, r⟩ fun seen' s => ∃ sentence,
      g.Becomes h (x.annotated ((StepState.call x).effective seen.last) sentence) s.graph ∧
      s.graph.Worded h ∧ seen'.last = ((StepState.call x).effective seen.last).or seen.last ∧
      seen'.used = seen.used ++
        (StepState.call (x.annotated ((StepState.call x).effective seen.last) sentence)).uses ∧
      s.report = r := by
  obtain ⟨hc, -⟩ := state?_eq_some.1 hx
  rw [annotateCall_eq]
  generalize (StepState.call x).effective seen.last = effective
  unfold annotateAs
  simp only [Work.ensures_bind, Work.ensures_read, Work.ensures_change, Work.ensures_pure,
    updateCall_eq hc]
  have hb₁ := becomes_setCall (c := { x.call with effective }) hs hx rfl rfl
  have hc₁ := (state?_eq_some.1 hb₁.state).1
  have ht := hb₁.sound.sentenceOf_eq hb₁.state
  generalize hsentence : CallState.sentence _ _ = t at ht
  have hb₂ := becomes_setCall (c := { x.call with effective, sentence := some t }) hb₁.sound hb₁.state
    rfl rfl
  refine ⟨t, by simp only [call_ok hc₁, bind, Except.bind]; exact ht, t, ?_⟩
  rw [updateCall_eq hc₁]
  refine ⟨hb₁.trans hb₂, fun y hy => ?worded, trivial, ?used, trivial⟩
  case worded =>
    rw [hb₂.state] at hy
    cases hy
    rw [funext (hb₂.reworked.parameter? hb₁.sound)]
    exact congrArg some hsentence.symm
  case used =>
    simp only [StepState.uses, CallState.annotated]
    split
    · split <;> simp
    · simp

/-! ## A step -/

theorem reworked_setStep {s : Step} (hs : g.Sound) (hplain : g.plain? h = some s) (s' : Step) :
    g.Reworked h (g.setContent h (.step s')) ∧ (g.setContent h (.step s')).Sound ∧
      (g.setContent h (.step s')).plain? h = some s' := by
  have hh := mem_handles_of_content? (plain?_eq_some.1 hplain)
  have hself : (g.setContent h (.step s')).content? h = some (.step s') := by
    rw [content?_setContent hh, if_pos rfl]
  have hnew := plain?_eq_some.2 hself
  have hkids : (g.setContent h (.step s')).kids h = [] := kids_of_plain? hnew
  have hr : g.Reworked h (g.setContent h (.step s')) := by
    refine ⟨root_setContent, isStep_of_plain? hplain, isStep_of_plain? hnew, ⟨0, size_setContent, ?_⟩,
      fun a ha => ?_, fun k hne _ => ?_, fun k _ => parent?_setContent, fun k hk => ?_⟩
    · rw [hkids, kids_of_plain? hplain]
      rfl
    · rw [hkids] at ha
      cases ha
    · rw [node?_setContent, if_neg hne]
    · rw [hkids] at hk
      cases hk
  refine ⟨hr, hr.sound hs fun c hc => ?_, hnew⟩
  rw [hself] at hc
  cases hc

/-- The step `h` has been gone through: it has been normalized and phrased, and what is due for it has been
reported. -/
def GoneThrough (g : Graph) (words : List (Handle × ActionWord)) (h : Handle) (r : Report)
    (seen seen' : KeywordTrail) (s : Workspace) : Prop :=
  g.Reworked h s.graph ∧ s.graph.Sound ∧ s.graph.Worded h ∧
    ∃ σ τ, g.step? h = some σ ∧ s.graph.step? h = some τ ∧
      g.Normalizes words seen.last σ τ ∧ seen'.last = (σ.effective seen.last).or seen.last ∧
      seen'.used = seen.used ++ τ.uses ∧ r.Gains (σ.news g.formals h τ) s.report

theorem effective_sentence {s : Step} (hk : sentenceKeywords.contains s.key = true) :
    (StepState.plain s).effective last = some (effectiveKeyword s.key last) := by
  simp only [StepState.effective, StepState.keyword?, Option.filter, hk]
  rfl

section
variable {index : List (String × Handle)} {seen : KeywordTrail} {s : Step} (hs : g.Sound)
include hs

/-- A step that is no sentence stays. -/
theorem ensures_normalizeStep_other (hplain : g.plain? h = some s)
    (hk : sentenceKeywords.contains s.key = false) :
    Ensures (normalizeStep words index seen h) ⟨g, r⟩ (g.GoneThrough words h r seen) := by
  unfold normalizeStep
  simp only [Work.ensures_bind, Work.ensures_read]
  refine ⟨_, node_ok (plain?_eq_some.1 hplain), ?_⟩
  simp only [hk, Bool.not_false, if_true]
  have hσ := step?_plain hplain
  have hnone : (StepState.plain s).effective seen.last = none := by
    simp only [StepState.effective, StepState.keyword?, Option.filter, hk]
    rfl
  have hquiet : (StepState.plain s).news g.formals h (.plain s) = [] := by
    simp only [StepState.news, StepState.due, hk]
    rfl
  refine Work.ensures_pure.2 ⟨.refl hs (isStep_of_plain? hplain), hs, worded_of_plain? hplain, _, _, hσ,
    hσ, .other hk, ?_, (List.append_nil _).symm, ?_⟩
  · rw [hnone]
    rfl
  · rw [hquiet]
    exact .refl r

/-- A sentence that follows the pattern of no action word gets its effective keyword. -/
theorem ensures_normalizeStep_unmatched (hplain : g.plain? h = some s)
    (hk : sentenceKeywords.contains s.key = true) (hm : firstMatch? words s.sentence = none) :
    Ensures (normalizeStep words index seen h) ⟨g, r⟩ (g.GoneThrough words h r seen) := by
  unfold normalizeStep
  simp only [Work.ensures_bind, Work.ensures_read]
  refine ⟨_, node_ok (plain?_eq_some.1 hplain), ?_⟩
  obtain ⟨hr, hs', hnew⟩ := reworked_setStep hs hplain
    { s with effective := some (effectiveKeyword s.key seen.last) }
  have hset := updateStep_eq (f := fun s' => { s' with
    effective := some (effectiveKeyword s.key seen.last) }) (plain?_eq_some.1 hplain)
  simp only [hk, Bool.not_true, rewriteStep, hm, Work.ensures_pure, Bool.false_eq_true, if_false,
    Work.ensures_bind, Work.ensures_change, Work.ensures_warn]
  rw [hset]
  refine ⟨hr, hs', worded_of_plain? hnew, _, _, step?_plain hplain, step?_plain hnew, .sentence hk hm,
    by rw [effective_sentence hk]; rfl, (List.append_nil _).symm, ?_⟩
  simp only [StepState.news, StepState.due, hk, if_true]
  exact .warn r _

/-- A call takes the place of a sentence that follows the pattern of an action word. -/
theorem ensures_normalizeStep_placed {word : Handle × ActionWord} {texts : List String}
    (hplain : g.plain? h = some s) (hk : sentenceKeywords.contains s.key = true)
    (hm : firstMatch? words s.sentence = some (word, texts))
    (hword : g.definition? word.1 = some word.2.toDefinition)
    (hi : ∀ name, index.lookup name = g.target? name) :
    Ensures (normalizeStep words index seen h) ⟨g, r⟩ (g.GoneThrough words h r seen) := by
  unfold normalizeStep
  simp only [Work.ensures_bind, Work.ensures_read]
  refine ⟨_, node_ok (plain?_eq_some.1 hplain), ?_⟩
  simp only [hk, Bool.not_true, Bool.false_eq_true, if_false, rewriteStep, hm, Work.ensures_bind,
    Work.ensures_pure, if_true]
  refine (ensures_placeCall hs hplain hword hi).mono ?_
  rintro - ⟨g₁, r₁⟩ ⟨y, hy, hb, hgain⟩
  simp only [Work.ensures_read]
  refine ⟨y.call, call_ok (state?_eq_some.1 hb.state).1, ?_⟩
  refine (ensures_annotateCall hb.sound hb.state).mono ?_
  rintro seen' ⟨g₂, r₂⟩ ⟨sentence, hb₂, hworded, hlast, hused, rfl⟩
  have heff : (StepState.call y).effective seen.last = some (effectiveKeyword s.key seen.last) := by
    simp only [StepState.effective, StepState.keyword?, hy.keyword, Option.filter, hk]
    rfl
  rw [heff] at hb₂ hlast hused
  have hb₃ := hb.trans hb₂
  exact ⟨hb₃.reworked, hb₃.sound, hworded, _, _, step?_plain hplain, step?_call hb₃.state,
    .placed hk hm hy, by rw [effective_sentence hk]; exact hlast, hused, hgain⟩

/-- A call is annotated. -/
theorem ensures_normalizeStep_call (hx : g.state? h = some x) :
    Ensures (normalizeStep words index seen h) ⟨g, r⟩ (g.GoneThrough words h r seen) := by
  unfold normalizeStep
  simp only [Work.ensures_bind, Work.ensures_read]
  refine ⟨_, node_ok (state?_eq_some.1 hx).1, ?_⟩
  refine (ensures_annotateCall hs hx).mono ?_
  rintro seen' s ⟨sentence, hb, hworded, hlast, hused, hrep⟩
  exact ⟨hb.reworked, hb.sound, hworded, _, _, step?_call hx, step?_call hb.state, .call, hlast,
    hused, hrep ▸ .refl r⟩

/-- **Normalizing a step.** -/
theorem ensures_normalizeStep (hstep : g.IsStep h)
    (hwords : ∀ w ∈ words, g.definition? w.1 = some w.2.toDefinition)
    (hi : ∀ name, index.lookup name = g.target? name) :
    Ensures (normalizeStep words index seen h) ⟨g, r⟩ (g.GoneThrough words h r seen) := by
  rcases isStep_cases hstep with ⟨s, hplain⟩ | ⟨x, hx⟩
  · cases hk : sentenceKeywords.contains s.key with
    | false => exact ensures_normalizeStep_other hs hplain hk
    | true =>
      cases hm : firstMatch? words s.sentence with
      | none => exact ensures_normalizeStep_unmatched hs hplain hk hm
      | some m =>
        obtain ⟨w, hw, hcap⟩ := List.exists_of_findSome?_eq_some hm
        obtain ⟨texts, -, rfl⟩ := Option.map_eq_some_iff.1 hcap
        exact ensures_normalizeStep_placed hs hplain hk hm (hwords w hw) hi
  · exact ensures_normalizeStep_call hs hx

end

/-! ## Bodies -/

/-- The steps of a body with the last effective keyword before each of them. -/
def marks (g : Graph) (steps : List Handle) : List (Handle × Option String) :=
  steps.zipIdx.map fun (h, i) => (h, trail ((steps.take i).map g.keyword?))

theorem map_fst_marks (g : Graph) (steps : List Handle) : (g.marks steps).map (·.1) = steps := by
  rw [marks, List.map_map]
  exact List.zipIdx_map_fst 0 steps

theorem map_fst_allMarks (g : Graph) (bodies : List (List Handle)) :
    (bodies.flatMap g.marks).map (·.1) = bodies.flatten := by
  rw [List.map_flatMap, List.flatMap_def]
  simp only [map_fst_marks, List.map_id']

theorem marks_append_singleton (g : Graph) (steps : List Handle) (h : Handle) :
    g.marks (steps ++ [h]) = g.marks steps ++ [(h, trail (steps.map g.keyword?))] := by
  unfold marks
  rw [List.zipIdx_append, List.map_append]
  congr 1
  · refine List.map_congr_left fun e he => ?_
    have hlt : e.2 ≤ steps.length := by
      have := (List.getElem?_eq_some_iff.1 (List.mk_mem_zipIdx_iff_getElem?.1 he)).1
      omega
    dsimp only
    rw [List.take_append_of_le_length hlt]
  · simp

theorem mem_marks {g : Graph} {steps before after : List Handle} {h : Handle}
    (hs : steps = before ++ h :: after) : (h, trail (before.map g.keyword?)) ∈ g.marks steps := by
  refine List.mem_map.2 ⟨(h, before.length), ?_, ?_⟩
  · rw [List.mk_mem_zipIdx_iff_getElem?, hs]
    simp
  · simp [hs]

/-- In the middle of normalizing: the steps `done` are normalized, and the others are as before. -/
structure Normalizing (g : Graph) (words : List (Handle × ActionWord))
    (done : List (Handle × Option String)) (g' : Graph) : Prop extends Follows g g' where
  formals : g'.formals = g.formals
  parameter : g'.parameter? = g.parameter?
  normal : ∀ e ∈ done, ∃ σ τ, g.step? e.1 = some σ ∧ g'.step? e.1 = some τ ∧
    g.Normalizes words e.2 σ τ
  left : ∀ h ∉ done.map (·.1), g'.step? h = g.step? h

theorem Normalizes.congr (hf : g'.formals = g.formals) (ht : g'.target? = g.target?)
    (hp : g'.parameter? = g.parameter?) (hn : g'.Normalizes words last σ τ) :
    g.Normalizes words last σ τ := by
  cases hn with
  | other hk => exact .other hk
  | sentence hk hm => exact .sentence hk hm
  | placed hk hm hy =>
    refine .placed hk hm ?_
    obtain ⟨args, hargs, hc⟩ := hy
    refine ⟨args, hf ▸ hargs, ?_⟩
    rwa [hf, ht, CallState.retyped_congr hp] at hc
  | call => exact .call

theorem Normalizing.step {done : List (Handle × Option String)} {g'' : Graph}
    (hn : g.Normalizing words done g') (hnot : h ∉ done.map (·.1)) (hr : g'.Reworked h g'')
    (hs : g''.Sound) (hσ : g'.step? h = some σ) (hτ : g''.step? h = some τ)
    (hstep : g'.Normalizes words last σ τ) : g.Normalizing words (done ++ [(h, last)]) g'' := by
  have hframe : ∀ k ≠ h, g''.step? k = g'.step? k := fun k hne => hr.step?_of_ne hn.sound hne
  refine ⟨hn.toFollows.trans ⟨hr.root, hr.fixed hn.sound, hs, hr.linked⟩,
    (hr.formals hn.sound).trans hn.formals,
    (funext (hr.parameter? hn.sound)).trans hn.parameter, fun e he => ?_, fun k hk => ?_⟩
  · rcases List.mem_append.1 he with he | he
    · obtain ⟨σ', τ', h1, h2, h3⟩ := hn.normal e he
      have hne : e.1 ≠ h := fun e' => hnot (e' ▸ List.mem_map_of_mem he)
      exact ⟨σ', τ', h1, (hframe _ hne).trans h2, h3⟩
    · rw [List.mem_singleton] at he
      subst he
      exact ⟨σ, τ, (hn.left h hnot).symm.trans hσ, hτ,
        hstep.congr hn.formals hn.toFollows.target? hn.parameter⟩
  · rw [List.map_append, List.mem_append, not_or, List.map_singleton, List.mem_singleton] at hk
    rw [hframe k hk.2]
    exact hn.left k hk.1

/-- What is reported of the steps that are normalized stays when another one is reworked. -/
theorem Normalizing.news_append {done : List (Handle × Option String)} {g'' : Graph}
    (hn : g.Normalizing words done g') (hnot : h ∉ done.map (·.1)) (hr : g'.Reworked h g'')
    (hσ : g'.step? h = some σ) (hτ : g''.step? h = some τ) :
    (done.map (·.1) ++ [h]).flatMap (g.news g'') =
      (done.map (·.1)).flatMap (g.news g') ++ σ.news g.formals h τ := by
  have hframe : ∀ k ∈ done.map (·.1), g.news g'' k = g.news g' k := fun k hk => by
    rw [news, hr.step?_of_ne hn.sound fun e => hnot (e ▸ hk)]
    rfl
  rw [List.flatMap_append, List.flatMap_singleton,
    news_eq ((hn.left h hnot).symm.trans hσ) hτ, List.flatMap_congr hframe]

/-- What the steps that are normalized call stays when another one is reworked. -/
theorem Normalizing.uses_append {done : List (Handle × Option String)} {g'' : Graph}
    (hn : g.Normalizing words done g') (hnot : h ∉ done.map (·.1)) (hr : g'.Reworked h g'')
    (hτ : g''.step? h = some τ) :
    (done.map (·.1) ++ [h]).flatMap g''.usesAt = (done.map (·.1)).flatMap g'.usesAt ++ τ.uses := by
  have hframe : ∀ k ∈ done.map (·.1), g''.usesAt k = g'.usesAt k := fun k hk => by
    rw [usesAt, hr.step?_of_ne hn.sound fun e => hnot (e ▸ hk)]
    rfl
  rw [List.flatMap_append, List.flatMap_singleton, List.flatMap_congr hframe, usesAt, hτ]
  rfl

/-- In the middle of normalizing: the calls among `done` have their sentences, and the action words are as
in `g`. -/
structure Phrasing (g : Graph) (done : List Handle) (g' : Graph) : Prop where
  worded : ∀ h ∈ done, g'.Worded h
  actionWord : g'.actionWord? = g.actionWord?

theorem Phrasing.step {done : List Handle} {g'' : Graph} (hp : g.Phrasing done g') (hs : g'.Sound)
    (hnot : h ∉ done) (hr : g'.Reworked h g'') (hw : g''.Worded h) : g.Phrasing (done ++ [h]) g'' := by
  refine ⟨fun k hk => ?_, (funext (hr.actionWord? hs)).trans hp.actionWord⟩
  rcases List.mem_append.1 hk with hk | hk
  · exact (hp.worded k hk).of_reworked hs hr fun e => hnot (e ▸ hk)
  · rw [List.mem_singleton.1 hk]
    exact hw

section
variable {g₀ : Graph} {r₀ : Report} {index : List (String × Handle)}
  (hwords : ∀ w ∈ words, g.definition? w.1 = some w.2.toDefinition)
  (hi : ∀ name, index.lookup name = g.target? name)
include hwords hi

theorem ensures_normalizeBody {done : List (Handle × Option String)} {steps : List Handle}
    {used : List (Handle × String)} (hn : g.Normalizing words done g') (hnodup : steps.Nodup)
    (hw : g₀.Phrasing (done.map (·.1)) g') (hnew : ∀ h ∈ steps, h ∉ done.map (·.1))
    (hsteps : ∀ h ∈ steps, g.IsStep h)
    (hused : used = (done.map (·.1)).flatMap g'.usesAt)
    (hgain : r₀.Gains ((done.map (·.1)).flatMap (g.news g')) r) :
    Ensures (steps.foldlM (normalizeStep words index) { used }) ⟨g', r⟩ fun seen s =>
      g.Normalizing words (done ++ g.marks steps) s.graph ∧
        g₀.Phrasing ((done ++ g.marks steps).map (·.1)) s.graph ∧
        seen.used = ((done ++ g.marks steps).map (·.1)).flatMap s.graph.usesAt ∧
        r₀.Gains (((done ++ g.marks steps).map (·.1)).flatMap (g.news s.graph)) s.report := by
  refine (Work.ensures_foldlM (fun visited seen s =>
    (g.Normalizing words (done ++ g.marks visited) s.graph ∧
      g₀.Phrasing ((done ++ g.marks visited).map (·.1)) s.graph ∧
      seen.used = ((done ++ g.marks visited).map (·.1)).flatMap s.graph.usesAt ∧
      r₀.Gains (((done ++ g.marks visited).map (·.1)).flatMap (g.news s.graph)) s.report) ∧
      seen.last = trail (visited.map g.keyword?)) ⟨⟨?_, ?_, ?_, ?_⟩, rfl⟩ ?_).mono fun _ _ h => h.1
  · simpa [marks] using hn
  · simpa [marks] using hw
  · simpa [marks] using hused
  · simpa [marks] using hgain
  · rintro visited h rest seen ⟨g₁, r₁⟩ rfl ⟨⟨hn₁, hw₁, hused₁, hgain₁⟩, hlast⟩
    have hnot : h ∉ (done ++ g.marks visited).map (·.1) := by
      rw [List.map_append, map_fst_marks, List.mem_append, not_or]
      exact ⟨hnew h (by simp), fun hm =>
        (List.nodup_append.1 hnodup).2.2 h hm h List.mem_cons_self rfl⟩
    have hleft := hn₁.left h hnot
    have hstep : g₁.IsStep h := by
      obtain ⟨σ, hσ⟩ := exists_step (hsteps h (by simp))
      exact isStep_of_step? (hleft.trans hσ)
    have hf := hn₁.toFollows
    refine (ensures_normalizeStep hn₁.sound hstep (fun w hw => ?_) fun name => ?_).mono ?_
    · rw [hf.definition?]
      exact hwords w hw
    · rw [hi, hf.target?]
    · rintro seen' ⟨g₂, r₂⟩ ⟨hr, hs, hworded, σ, τ, hσ, hτ, hnorm, hlast', hused₂, hgain₂⟩
      rw [hlast] at hnorm
      rw [hn₁.formals] at hgain₂
      rw [marks_append_singleton, ← List.append_assoc]
      refine ⟨⟨hn₁.step hnot hr hs hσ hτ hnorm, ?_, ?_, ?_⟩, ?_⟩
      · rw [List.map_append, List.map_singleton]
        exact hw₁.step hn₁.sound hnot hr hworded
      · rw [List.map_append, List.map_singleton, hn₁.uses_append hnot hr hτ, ← hused₁]
        exact hused₂
      · rw [List.map_append, List.map_singleton, hn₁.news_append hnot hr hσ hτ]
        exact hgain₁.trans hgain₂
      have hkey : g.keyword? h = σ.keyword? := by simp [keyword?, ← hleft, hσ]
      rw [hlast', hlast, List.map_append, List.map_singleton, trail_append, hkey]
      rfl

theorem ensures_normalizeBodies {bodies : List (List Handle)} (hn : g.Normalizing words [] g')
    (hnodup : bodies.flatten.Nodup) (hsteps : ∀ b ∈ bodies, ∀ h ∈ b, g.IsStep h) :
    Ensures (bodies.foldlM (fun used steps => do
      return (← steps.foldlM (normalizeStep words index) { used }).used) []) ⟨g', r⟩ fun used s =>
      g.Normalizing words (bodies.flatMap g.marks) s.graph ∧
        g'.Phrasing bodies.flatten s.graph ∧ used = bodies.flatten.flatMap s.graph.usesAt ∧
        r.Gains (((bodies.flatMap g.marks).map (·.1)).flatMap (g.news s.graph)) s.report := by
  simp only [← map_fst_allMarks g]
  refine Work.ensures_foldlM (s := ⟨g', r⟩) (fun visited used s =>
    g.Normalizing words (visited.flatMap g.marks) s.graph ∧
      g'.Phrasing ((visited.flatMap g.marks).map (·.1)) s.graph ∧
      used = ((visited.flatMap g.marks).map (·.1)).flatMap s.graph.usesAt ∧
      r.Gains (((visited.flatMap g.marks).map (·.1)).flatMap (g.news s.graph)) s.report)
    ⟨hn, ⟨fun h hh => absurd hh List.not_mem_nil, rfl⟩, rfl, .refl r⟩ ?_
  rintro visited b rest used ⟨g₁, r₁⟩ rfl ⟨hn₁, hw₁, hused₁, hgain₁⟩
  have hflat : (visited ++ b :: rest).flatten = visited.flatten ++ (b ++ rest.flatten) := by simp
  rw [hflat] at hnodup
  obtain ⟨-, hb, hdisjoint⟩ := List.nodup_append.1 hnodup
  rw [Work.ensures_bind]
  refine (ensures_normalizeBody hwords hi hn₁ (List.nodup_append.1 hb).1 hw₁ (fun h hh => ?_)
    (hsteps b (by simp)) hused₁ hgain₁).mono fun _ s hs => ?_
  · rw [map_fst_allMarks]
    exact fun hm => hdisjoint h hm h (List.mem_append_left _ hh) rfl
  · simpa using hs

end

/-! ## The pass -/

/-- Noting something down at action words: what is noted at each of them makes `Q` hold, if `P` held. -/
theorem ensures_noteWords {f : Handle × ActionWord → ActionWord → ActionWord}
    {P Q : Handle → ActionWord → Prop} (hf : ∀ w w', (f w w').toDefinition = w'.toDefinition)
    {l : List (Handle × ActionWord)} (hl : ∀ w ∈ l, g.kind? w.1 = some .actionWord)
    (hP : ∀ h w, g.actionWord? h = some w → P h w) (hQP : ∀ h w, Q h w → P h w)
    (hQ : ∀ w ∈ l, ∀ w', g.definition? w.1 = some w'.toDefinition → P w.1 w' → Q w.1 (f w w')) :
    Ensures (l.forM fun w => Work.change (·.updateActionWord w.1 (f w))) ⟨g, r⟩ fun _ s =>
      g.Alike s.graph ∧ s.graph.parameter? = g.parameter? ∧ s.report = r ∧
        ∀ w ∈ l, ∀ w', s.graph.actionWord? w.1 = some w' → Q w.1 w' := by
  refine (Work.ensures_forM (fun done s =>
    g.Alike s.graph ∧ s.graph.parameter? = g.parameter? ∧ s.report = r ∧
      (∀ h w, s.graph.actionWord? h = some w → P h w) ∧
      ∀ w ∈ done, ∀ w', s.graph.actionWord? w.1 = some w' → Q w.1 w')
    ⟨.refl g, rfl, rfl, hP, fun w hw => absurd hw List.not_mem_nil⟩ ?_).mono
    fun _ _ ⟨ha, hp, hrep, _, hnoted⟩ => ⟨ha, hp, hrep, hnoted⟩
  rintro done w rest ⟨g₁, r₁⟩ rfl ⟨ha, hp, hrep, hP₁, hQ₁⟩
  have hkind : g₁.kind? w.1 = some .actionWord := (ha.kind? w.1).trans (hl w (by simp))
  obtain ⟨w', hw'⟩ := Option.isSome_iff_exists.1 (isSome_actionWord?.2 hkind)
  have hc := content?_actionWord.1 hw'
  have hnew : Q w.1 (f w w') := by
    refine hQ w (by simp) w' ?_ (hP₁ w.1 w' hw')
    rw [← definition?_congr ha.fixed]
    exact definition?_of_actionWord? hw'
  have hword : ∀ k, (g₁.setContent w.1 (.actionWord (f w w'))).actionWord? k =
      if k = w.1 then some (f w w') else g₁.actionWord? k := fun k => by
    unfold actionWord?
    rw [content?_setContent (mem_handles_of_content? hc)]
    split <;> rfl
  rw [Work.ensures_change, updateActionWord_eq hw']
  refine ⟨ha.trans (alike_setContent hc (by simp [Content.bare, hf])), ?_, hrep, fun k v hv => ?_,
    fun v hv v' hv' => ?_⟩
  · rw [← hp]
    funext k
    unfold parameter?
    dsimp only
    rw [content?_setContent (mem_handles_of_content? hc)]
    split
    · rename_i e
      rw [e, hc]
      rfl
    · rfl
  · rw [hword] at hv
    split at hv
    · rename_i e
      cases hv
      exact e ▸ hQP _ _ hnew
    · exact hP₁ k v hv
  · rw [hword] at hv'
    split at hv'
    · rename_i e
      cases hv'
      exact e ▸ hnew
    · rename_i hne
      refine hQ₁ v ((List.mem_append.1 hv).resolve_right fun hv => hne ?_) v' hv'
      rw [List.mem_singleton.1 hv]

theorem Alike.formals (ha : g.Alike g') (hp : g'.parameter? = g.parameter?) :
    g'.formals = g.formals := by
  funext k
  rw [Graph.formals, Graph.formals, definition?_congr ha.fixed, hp]

/-- All steps are normalized. -/
structure Normalized (g g' : Graph) : Prop extends Follows g g' where
  formals : g'.formals = g.formals
  parameter : g'.parameter? = g.parameter?
  normal : ∀ k d before h after, g.definition? k = some d → d.steps = before ++ h :: after →
    ∃ σ τ, g.step? h = some σ ∧ g'.step? h = some τ ∧
      g.Normalizes g.words (trail (before.map g.keyword?)) σ τ

/-- Calls have their sentences, and action words have their patterns and the keywords under which they
are called. -/
structure Phrased (g : Graph) : Prop where
  worded : ∀ h, g.Worded h
  patterned : ∀ h w, g.actionWord? h = some w → w.Patterned
  keyworded : ∀ h w, g.actionWord? h = some w → w.keywords = keywordsOf g.uses h

/-- The pattern of every action word is noted at it. -/
theorem ensures_notePatterns (hs : g.Sound) :
    Ensures (g.words.forM fun w => Work.change (·.updateActionWord w.1 fun w' =>
      { w' with pattern := some (Sentence.writtenPattern w.2.name) })) ⟨g, r⟩ fun _ s =>
        g.Alike s.graph ∧ s.graph.parameter? = g.parameter? ∧ s.report = r ∧
          ∀ h w, s.graph.actionWord? h = some w → w.Patterned := by
  have hwords : ∀ w ∈ g.words, g.definition? w.1 = some w.2.toDefinition := fun w hw =>
    definition?_of_actionWord? (mem_words hw)
  have hkinds : ∀ w ∈ g.words, g.kind? w.1 = some .actionWord := fun w hw =>
    kind?_of_actionWord? (mem_words hw)
  have hset : ∀ w ∈ g.words, ∀ w' : ActionWord, g.definition? w.1 = some w'.toDefinition → True →
      ({ w' with pattern := some (Sentence.writtenPattern w.2.name) } : ActionWord).Patterned := by
    intro w hw w' hd _
    rw [hwords w hw, Option.some.injEq] at hd
    have hname : w.2.name = w'.name := congrArg Definition.name hd
    unfold ActionWord.Patterned
    rw [hname]
  refine (ensures_noteWords (f := fun w w' => { w' with
    pattern := some (Sentence.writtenPattern w.2.name) }) (P := fun _ _ => True)
    (Q := fun _ w => w.Patterned) (fun _ _ => rfl) hkinds (fun _ _ _ => trivial)
    (fun _ _ _ => trivial) hset).mono fun _ s ⟨ha, hp, hrep, hnoted⟩ => ⟨ha, hp, hrep, fun h w hw => ?_⟩
  have hkind : g.kind? h = some .actionWord := by
    rw [← ha.kind?]
    exact kind?_of_actionWord? hw
  obtain ⟨w₀, hw₀⟩ := Option.isSome_iff_exists.1 (isSome_actionWord?.2 hkind)
  exact hnoted (h, w₀) (hs.mem_words_of_actionWord? hw₀) w hw

/-- The keywords under which action words are called are noted at them, where patterns are. -/
theorem ensures_noteKeywords {used : List (Handle × String)} (hs : g.Sound) (hf : g.Follows g')
    (hpattern : ∀ h w, g'.actionWord? h = some w → w.Patterned) :
    Ensures (g.words.forM fun w => Work.change (·.updateActionWord w.1 fun w' =>
      { w' with keywords := keywordsOf used w.1 })) ⟨g', r⟩ fun _ s =>
        g'.Alike s.graph ∧ s.graph.parameter? = g'.parameter? ∧ s.report = r ∧
          ∀ h w, s.graph.actionWord? h = some w → w.Patterned ∧ w.keywords = keywordsOf used h := by
  have hkinds : ∀ w ∈ g.words, g'.kind? w.1 = some .actionWord := fun w hw =>
    kind?_actionWord_congr hf.fixed (kind?_of_actionWord? (mem_words hw))
  refine (ensures_noteWords (f := fun w w' => { w' with keywords := keywordsOf used w.1 })
    (P := fun _ w => w.Patterned) (Q := fun h w => w.Patterned ∧ w.keywords = keywordsOf used h)
    (fun _ _ => rfl) hkinds hpattern (fun _ _ h => h.1) fun _ _ _ _ h => ⟨h, rfl⟩).mono
    fun _ s ⟨ha, hp, hrep, hnoted⟩ => ⟨ha, hp, hrep, fun h w hw => ?_⟩
  have hkind : g.kind? h = some .actionWord :=
    kind?_actionWord_congr (ha.fixed.trans hf.fixed).symm (kind?_of_actionWord? hw)
  obtain ⟨w₀, hw₀⟩ := Option.isSome_iff_exists.1 (isSome_actionWord?.2 hkind)
  exact hnoted (h, w₀) (hs.mem_words_of_actionWord? hw₀) w hw

/-- **Normalizing a sound graph.** -/
theorem ensures_normalizeSentences (hs : g.Sound) :
    Ensures normalizeSentences ⟨g, r⟩ fun _ s =>
      g.Normalized s.graph ∧ s.graph.Phrased ∧
        r.Gains (g.steps.flatMap (g.news s.graph)) s.report := by
  obtain ⟨index, hindex, hi⟩ := hs.actionWordIndex_ok
  obtain ⟨root, p, hroot, hp, ho⟩ := hs.exists_outline
  have hwords : ∀ w ∈ g.words, g.definition? w.1 = some w.2.toDefinition := fun w hw =>
    definition?_of_actionWord? (mem_words hw)
  unfold normalizeSentences
  simp only [Work.ensures_bind, Work.ensures_read]
  refine ⟨_, hs.actionWords_ok, index, hindex, ?_⟩
  refine (ensures_notePatterns hs).mono ?_
  rintro - ⟨g₁, r₁⟩ ⟨ha₁, hp₁, rfl, hpattern₁⟩
  have hs₁ := ha₁.sound hs
  refine ⟨_, hs₁.scenarios_ok, ?_⟩
  rw [stories_congr ha₁.root ha₁.fixed, hs.bodies_eq ho]
  have hstart : g.Normalizing g.words [] g₁ :=
    ⟨.of_alike hs ha₁, ha₁.formals hp₁, hp₁, fun e he => (List.not_mem_nil he).elim,
      fun h _ => congrFun ha₁.step? h⟩
  refine (ensures_normalizeBodies hwords hi hstart (hs.nodup_bodies ho) fun b hb h hh => ?_).mono ?_
  · obtain ⟨k, -, rfl⟩ := List.mem_map.1 hb
    exact hs.isStep_of_body hh
  rintro used ⟨g₂, r₂⟩ ⟨hn, hphrasing, hused, hgain⟩
  have hpattern₂ : ∀ h w, g₂.actionWord? h = some w → w.Patterned := fun h w hw =>
    hpattern₁ h w (hphrasing.actionWord ▸ hw)
  refine (ensures_noteKeywords hs hn.toFollows hpattern₂).mono ?_
  rintro - ⟨g₃, r₃⟩ ⟨ha₃, hp₃, rfl, hwords₃⟩
  have hfollows := hn.toFollows.trans (.of_alike hn.sound ha₃)
  have huses : used = g₃.uses := by
    have hat : g₃.usesAt = g₂.usesAt := by
      funext k
      rw [usesAt, ha₃.step?]
      rfl
    rw [hused, uses, hat, hfollows.steps, steps_eq ho]
  refine ⟨⟨hfollows, (ha₃.formals hp₃).trans hn.formals,
    hp₃.trans hn.parameter, fun k d before h after hd hsplit => ?_⟩, ⟨fun h x hx => ?worded,
    fun h w hw => (hwords₃ h w hw).1, fun h w hw => huses ▸ (hwords₃ h w hw).2⟩, ?gain⟩
  case gain =>
    have hnews : g.news g₃ = g.news g₂ := by
      funext k
      rw [news, ha₃.step?]
      rfl
    rw [hnews, steps_eq ho, ← map_fst_allMarks]
    exact hgain
  case worded =>
    rw [ha₃.state?] at hx
    have hm := hn.sound.mem_steps.2 (isStep_of_state? hx)
    rw [hn.toFollows.steps, steps_eq ho] at hm
    rw [hp₃]
    exact hphrasing.worded h hm x hx
  have hk := hs.mem_project hroot hp hd
  have hm : (h, trail (before.map g.keyword?)) ∈ ((p.scenarios ++ p.actionWords).map g.body).flatMap
      g.marks := by
    refine List.mem_flatMap.2 ⟨g.body k, List.mem_map_of_mem hk, mem_marks ((body_eq hd).trans hsplit)⟩
  obtain ⟨σ, τ, hσ, hτ, hnorm⟩ := hn.normal _ hm
  exact ⟨σ, τ, hσ, (congrFun ha₃.step? h).trans hτ, hnorm⟩

end Graph

end Actionbook
