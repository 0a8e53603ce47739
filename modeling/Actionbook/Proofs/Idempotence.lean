import Actionbook.Proofs.Reruns

/-!
# Passes that are run twice

A pass leaves nothing to do for a second run of it: `Graph.UnmovedBy g pass` says that the pass leaves `g`
as it is, down to what is noted at every node. For each pass there is a condition under which a sound
graph is not moved by it, and the pass establishes that condition on every sound graph, whatever passes
have been run before.

The passes that go through steps rework one of them at a time; a step that shows the same afterwards has
been reworked into itself, and no node has changed (`Reworked.eq_self`). So it is enough to follow what
steps become: binding depends on names only (`bindTo_bindTo`), completion leaves no default to be added
(`Completed.eq_of_completed`), and normalizing leaves no sentence that an action word fits
(`StepState.Normal`).

* `ensures_pass_unmoved`: every pass leaves a graph that it does not move.
* `passes_are_idempotent`: passes in any order over a document, and then one of them twice.
-/

namespace Actionbook

open Work (Ensures)

/-! ## Calls -/

namespace CallState

variable {formals : Handle → List (Handle × Parameter)} {target : Option Handle} {x y z : CallState}

/-- A call that has been bound is bound to the same parameters again. -/
theorem bindTo_bindTo :
    (x.bindTo formals target).bindTo formals target = x.bindTo formals target := by
  cases target with
  | none => simp [bindTo, Argument.cleared]
  | some t =>
    have hargs : assign (formals t) 0 [] (assign (formals t) 0 [] x.arguments) =
        assign (formals t) 0 [] x.arguments := by
      simpa using assign_map_assign (f := id) ⟨fun _ => rfl, fun _ => rfl, fun _ => rfl⟩
    simp only [bindTo, hargs]

/-- A call that has been completed is completed by nothing. -/
theorem Completed.eq_of_completed (hc : Completed formals x y) (hc' : Completed formals y z) :
    z = y := by
  obtain ⟨hno, rfl⟩ | ⟨t, new, hr, ht, hnew, rfl⟩ := hc.cases
  · obtain ⟨-, rfl⟩ | ⟨t, new, hr, ht, -⟩ := hc'.cases
    · rfl
    · rw [hno hr] at ht
      cases ht
  · obtain ⟨-, rfl⟩ | ⟨t', new', -, ht', hnew', rfl⟩ := hc'.cases
    · rfl
    · obtain rfl : t = t' := Option.some.inj (ht.symm.trans ht')
      have hnone : new' = [] := by
        simpa only [extend, defaults_of_completed hnew, List.map_eq_nil_iff] using hnew'
      subst hnone
      simp [extend]

end CallState

/-! ## Steps -/

/-- A step that normalizing has nothing to do for, after steps of which the last had the effective keyword
`last`. -/
def StepState.Normal (words : List (Handle × ActionWord)) (last : Option String) : StepState → Prop
  | .plain s => sentenceKeywords.contains s.key = true →
      firstMatch? words s.sentence = none ∧ s.effective = some (effectiveKeyword s.key last)
  | .call x => x.call.effective = (StepState.call x).effective last

namespace Graph

variable {g g' : Graph} {h : Handle} {r : Report} {x : CallState} {σ τ : StepState}
  {words words' : List (Handle × ActionWord)} {last : Option String}

/-- A step that is reworked into itself leaves the graph as it is. -/
theorem Reworked.eq_self (hr : g.Reworked h g') (hs : g.Sound) (hσ : g'.step? h = g.step? h) :
    g' = g := by
  obtain ⟨σ, hg⟩ := exists_step hr.before
  rw [hg] at hσ
  have hsame : g'.kids h = g.kids h ∧ ∀ k, k = h ∨ k ∈ g.kids h → g'.content? k = g.content? k := by
    cases σ with
    | plain s =>
      have hplain := plain?_of_step? hg
      have hplain' := plain?_of_step? hσ
      rw [kids_of_plain? hplain, kids_of_plain? hplain']
      refine ⟨rfl, ?_⟩
      rintro k (rfl | hk)
      · rw [plain?_eq_some.1 hplain, plain?_eq_some.1 hplain']
      · cases hk
    | call x =>
      have hx := state?_of_step? hg
      have hx' := state?_of_step? hσ
      rw [kids_of_state? hx, kids_of_state? hx', ← hs.map_fst_of_state? hx]
      refine ⟨rfl, ?_⟩
      rintro k (rfl | hk)
      · rw [(state?_eq_some.1 hx).1, (state?_eq_some.1 hx').1]
      · obtain ⟨e, he, rfl⟩ := List.mem_map.1 hk
        rw [content?_argument.1 (argument?_of_state? hx he),
          content?_argument.1 (argument?_of_state? hx' he)]
  obtain ⟨hkids, hcontent⟩ := hsame
  obtain ⟨root, p, -, -, hl⟩ := hs.rooted
  refine ext_node? hr.root fun k => ?_
  by_cases hk : k = h ∨ k ∈ g.kids h
  · have hthere : k ∈ g.handles := hk.elim (fun e => e ▸ hr.before.mem_handles) hl.kid_mem
    rw [node?_eq_map, node?_eq_map, hcontent k hk, hr.parent k hthere]
  · rw [not_or] at hk
    exact hr.elsewhere k hk.1 (hkids ▸ hk.2)

/-- What normalizing has made of a step is normal, for words of the same names. -/
theorem Normalizes.normal (hn : g.Normalizes words last σ τ)
    (hwords : words'.map (·.2.name) = words.map (·.2.name)) : τ.Normal words' last := by
  cases hn with
  | other hk => exact fun hk' => absurd (hk.symm.trans hk') Bool.false_ne_true
  | sentence hk hm =>
    refine fun _ => ⟨?_, rfl⟩
    rw [firstMatch?_eq_none, hwords, ← firstMatch?_eq_none]
    exact hm
  | placed hk hm hy =>
    simp only [StepState.Normal, StepState.effective, StepState.keyword?, CallState.annotated,
      hy.keyword, Option.filter, hk, if_true, Option.map_some]
  | call => rfl

/-- Normalizing keeps the keywords of steps. -/
theorem Normalizes.keyword? (hn : g.Normalizes words last σ τ) : τ.keyword? = σ.keyword? := by
  cases hn with
  | placed hk hm hy => simp only [StepState.keyword?, CallState.annotated, hy.keyword]
  | _ => rfl

/-- A normal step stays as it is, a call if it says what it said before. -/
theorem Normalizes.eq_of_normal (hn : g.Normalizes words last σ τ) (hσ : σ.Normal words last)
    (hsaid : ∀ x y, σ = .call x → τ = .call y → y.call.sentence = x.call.sentence) : τ = σ := by
  cases hn with
  | other hk => rfl
  | @sentence s hk hm =>
    obtain ⟨-, heff⟩ := hσ hk
    rw [← heff]
  | placed hk hm hy =>
    rw [(hσ hk).1] at hm
    cases hm
  | @call x sentence =>
    have heff : x.call.effective = (StepState.call x).effective last := hσ
    have hsentence : some sentence = x.call.sentence := hsaid _ _ rfl rfl
    simp only [CallState.annotated, ← heff, hsentence]

/-- A pass leaves the graph as it is. -/
def UnmovedBy (g : Graph) (pass : Pass) : Prop := ∀ r, Ensures pass.run ⟨g, r⟩ fun _ s => s.graph = g

/-! ## Linking -/

theorem Sound.unmovedBy_link (hs : g.Sound) (hl : g.Linked) : g.UnmovedBy .link := fun r => by
  refine (ensures_linkParents hs).mono ?_
  rintro - ⟨g', r'⟩ ⟨hf, hl', hrel⟩
  refine ext_node? hrel.root fun k => ?_
  have hkids : g'.kids = g.kids := funext fun p => kids_congr (congrFun hrel.content p)
  rw [node?_eq_map, node?_eq_map, congrFun hrel.content k, hs.parent?_congr hl hf.sound hl' hkids]

/-! ## Typing -/

theorem Alike.stripped (ha : g.Alike g') : g'.stripped = g.stripped := by
  have hbare : ∀ c : Content, c.bare.stripped = c.stripped := fun c => by cases c <;> rfl
  have hcontent : ∀ k, (g'.content? k).map Content.stripped = (g.content? k).map Content.stripped := by
    intro k
    have := congrArg (Option.map Content.stripped) (ha.bare k)
    simpa only [Option.map_map, Function.comp_def, hbare] using this
  refine ext_node? ha.root fun k => ?_
  rw [node?_eq_map, node?_eq_map, content?_stripped, content?_stripped, parent?_stripped,
    parent?_stripped, hcontent, ha.parent]

/-- Typing changes nothing where the types of all parameters are those that the evidence shows. -/
theorem Sound.unmovedBy_type (hs : g.Sound) {e : Evidence} (he : g.evidence = .ok e)
    (htypes : ∀ h p, g.parameter? h = some p → p.type = e.typeOf h p) : g.UnmovedBy .type := fun r => by
  obtain ⟨l, hl, -, hm⟩ := hs.parameters_ok
  have hall : g.parametersAt l = .ok (gather g.parameter? l) := getAll_ok (fun _ _ => parameter_ok)
    fun h hh => Option.isSome_iff_exists.2 ((hm h).1 hh)
  have hgather : gatherEvidence g (gather g.parameter? l) = .ok e := by
    simpa only [evidence, hl, hall, bind, Except.bind] using he
  show Ensures addTypes _ _
  unfold addTypes
  simp only [Work.ensures_bind, Work.ensures_read]
  refine ⟨_, by simp only [hl, bind, Except.bind]; exact hall, e, hgather, ?_⟩
  refine Work.ensures_forM (fun _ s => s.graph = g) rfl ?_
  rintro done ⟨h, p⟩ rest ⟨g', r'⟩ hsplit rfl
  have hp : g'.parameter? h = some p := by
    have hmem : (h, p) ∈ gather g'.parameter? l := hsplit ▸ List.mem_append_right _ List.mem_cons_self
    exact (mem_gather.1 hmem).2
  have hself : g'.updateParameter h (fun p' => { p' with type := e.typeOf h p }) = g' := by
    rw [updateParameter_eq hp, ← htypes h p hp]
    exact setContent_self (content?_parameter.1 hp)
  simp only [Work.ensures_bind, Work.ensures_change, hself]
  split
  · obtain ⟨o, ho, -⟩ := hs.exists_owner (mem_handles_of_content? (content?_parameter.1 hp))
    simp only [Work.ensures_bind, Work.ensures_read, Work.ensures_warn]
    exact ⟨o, ho, trivial⟩
  · exact Work.ensures_pure.2 rfl

/-! ## Binding and completing -/

/-- A pass over calls that leaves each of them as it is. -/
theorem forCalls_unmoved {f : Handle → Work Unit} (hs : g.Sound)
    (hstep : ∀ r h x, g.state? h = some x → Ensures (f h) ⟨g, r⟩ fun _ s => g.Becomes h x s.graph) :
    Ensures (do (← Work.read Graph.calls).forM f) ⟨g, r⟩ fun _ s => s.graph = g := by
  obtain ⟨l, hl, -, hm⟩ := hs.calls_ok
  simp only [Work.ensures_bind, Work.ensures_read]
  refine ⟨l, hl, Work.ensures_forM (fun _ s => s.graph = g) rfl ?_⟩
  rintro done h rest ⟨g', r'⟩ hsplit rfl
  obtain ⟨c, hc⟩ := (hm h).1 (hsplit ▸ List.mem_append_right _ List.mem_cons_self)
  have hx := state?_call hc
  refine (hstep r' h _ hx).mono fun _ s hb => hb.reworked.eq_self hs ?_
  rw [step?_call hb.state, step?_call hx]

/-- Binding changes nothing where every call is bound. -/
theorem Sound.unmovedBy_bind (hs : g.Sound) (hbound : ∀ h x, g.state? h = some x →
    x.bindTo g.formals (g.target? x.call.actionWord) = x) : g.UnmovedBy .bind := fun r => by
  obtain ⟨index, hi, hlookup⟩ := hs.actionWordIndex_ok
  show Ensures bindCalls _ _
  unfold bindCalls
  rw [Work.ensures_bind, Work.ensures_read]
  refine ⟨index, hi, forCalls_unmoved hs fun r h x hx => ?_⟩
  refine (ensures_bindCall hs hx fun t ht => ?_).mono fun _ s hb => ?_
  · rw [hlookup] at ht
    exact kind?_of_target? ht
  · rw [hlookup, hbound h x hx] at hb
    exact hb.1

/-- Completing changes nothing where every call has been completed. -/
theorem Sound.unmovedBy_complete (hs : g.Sound) (hcompleted : ∀ h x, g.state? h = some x →
    ∃ w, CallState.Completed g.formals w x) : g.UnmovedBy .complete := fun r => by
  show Ensures completeCalls _ _
  unfold completeCalls
  refine forCalls_unmoved hs fun r h x hx => ?_
  obtain ⟨w, hw⟩ := hcompleted h x hx
  refine (ensures_completeCall hs hx).mono ?_
  rintro - s ⟨y, hy, hb, -⟩
  rwa [hw.eq_of_completed hy] at hb

/-! ## Normalizing -/

/-- Noting down what action words have noted already. -/
theorem noteWords_unmoved {f : Handle × ActionWord → ActionWord → ActionWord}
    (hf : ∀ w ∈ g.words, f w w.2 = w.2) :
    Ensures (g.words.forM fun w => Work.change (·.updateActionWord w.1 (f w))) ⟨g, r⟩ fun _ s =>
      s = ⟨g, r⟩ := by
  refine Work.ensures_forM (fun _ s => s = ⟨g, r⟩) rfl ?_
  rintro done w rest s hsplit rfl
  have hw : w ∈ g.words := hsplit ▸ List.mem_append_right _ List.mem_cons_self
  rw [Work.ensures_change, updateActionWord_eq (mem_words hw), hf w hw,
    setContent_self (content?_actionWord.1 (mem_words hw))]

section
variable {index : List (String × Handle)} {seen : KeywordTrail} (hs : g.Sound) (hworded : ∀ h, g.Worded h)
  (hwords : ∀ w ∈ words, g.definition? w.1 = some w.2.toDefinition)
  (hi : ∀ name, index.lookup name = g.target? name)
include hs hworded hwords hi

/-- A normal step stays if calls have their sentences. -/
theorem normalizeStep_unmoved (hτ : g.step? h = some τ) (hnormal : τ.Normal words seen.last) :
    Ensures (normalizeStep words index seen h) ⟨g, r⟩ fun seen' s => s.graph = g ∧
      seen'.last = (τ.effective seen.last).or seen.last ∧ seen'.used = seen.used ++ τ.uses := by
  refine (ensures_normalizeStep hs (isStep_of_step? hτ) hwords hi).mono ?_
  rintro seen' ⟨g', r'⟩ ⟨hr, hs', hworded', σ, τ', hσ, hτ', hnorm, hlast, hused, -⟩
  rw [hτ] at hσ
  cases hσ
  have hparameter : g'.parameter? = g.parameter? := funext (hr.parameter? hs)
  have hsame : τ' = τ := by
    refine hnorm.eq_of_normal hnormal fun x y hx hy => ?_
    subst hx hy
    rw [hworded' y (state?_of_step? hτ'), hparameter, hworded h x (state?_of_step? hτ)]
    -- the sentence of a call does not depend on the one that it has noted
    cases hnorm with
    | call =>
      have heff : x.call.effective = (StepState.call x).effective seen.last := hnormal
      simp only [CallState.annotated, ← heff]
      rfl
  exact ⟨hr.eq_self hs (by rw [hτ', hτ, hsame]), hlast, hsame ▸ hused⟩

/-- A body of normal steps stays. -/
theorem normalizeBody_unmoved {steps : List Handle} {used : List (Handle × String)}
    (hnormal : ∀ before h after, steps = before ++ h :: after → ∃ τ, g.step? h = some τ ∧
      τ.Normal words (trail (before.map g.keyword?))) :
    Ensures (steps.foldlM (normalizeStep words index) { used }) ⟨g, r⟩ fun seen s =>
      s.graph = g ∧ seen.used = used ++ steps.flatMap g.usesAt := by
  refine (Work.ensures_foldlM (s := ⟨g, r⟩) (fun visited seen s =>
    (s.graph = g ∧ seen.used = used ++ visited.flatMap g.usesAt) ∧
      seen.last = trail (visited.map g.keyword?)) ⟨⟨rfl, by simp⟩, rfl⟩ ?_).mono fun _ _ h => h.1
  rintro visited h rest seen ⟨g', r'⟩ hsplit ⟨⟨rfl, hused⟩, hlast⟩
  obtain ⟨τ, hτ, hnorm⟩ := hnormal visited h rest hsplit
  rw [← hlast] at hnorm
  refine (normalizeStep_unmoved hs hworded hwords hi hτ hnorm).mono ?_
  rintro seen' s ⟨hg, hlast', hused'⟩
  have hat : g'.usesAt h = τ.uses := by rw [usesAt, hτ]; rfl
  have hkey : g'.keyword? h = τ.keyword? := by simp [keyword?, hτ]
  refine ⟨⟨hg, ?_⟩, ?_⟩
  · rw [hused', hused, List.flatMap_append, List.flatMap_singleton, hat, List.append_assoc]
  · rw [hlast', hlast, List.map_append, List.map_singleton, trail_append, hkey]
    rfl

/-- Bodies of normal steps stay, one after another. -/
theorem normalizeBodies_unmoved {bodies : List (List Handle)}
    (hnormal : ∀ b ∈ bodies, ∀ before h after, b = before ++ h :: after → ∃ τ, g.step? h = some τ ∧
      τ.Normal words (trail (before.map g.keyword?))) :
    Ensures (bodies.foldlM (fun used steps => do
      return (← steps.foldlM (normalizeStep words index) { used }).used) []) ⟨g, r⟩ fun used s =>
        s.graph = g ∧ used = bodies.flatten.flatMap g.usesAt := by
  refine Work.ensures_foldlM (s := ⟨g, r⟩)
    (fun visited used s => s.graph = g ∧ used = visited.flatten.flatMap g.usesAt) ⟨rfl, rfl⟩ ?_
  rintro visited b rest used ⟨g', r'⟩ hsplit ⟨rfl, rfl⟩
  rw [Work.ensures_bind]
  refine (normalizeBody_unmoved hs hworded hwords hi (hnormal b (by simp [hsplit]))).mono ?_
  rintro seen s ⟨hg, hused⟩
  exact Work.ensures_pure.2 ⟨hg, by simp [hused]⟩

end

/-- Normalizing changes nothing where all steps are normal and everything is noted down. -/
theorem Sound.unmovedBy_normalize (hs : g.Sound) (hp : g.Phrased)
    (hnormal : ∀ k d before h after, g.definition? k = some d → d.steps = before ++ h :: after →
      ∃ τ, g.step? h = some τ ∧ τ.Normal g.words (trail (before.map g.keyword?))) :
    g.UnmovedBy .normalize := fun r => by
  obtain ⟨index, hindex, hi⟩ := hs.actionWordIndex_ok
  obtain ⟨root, p, -, -, ho⟩ := hs.exists_outline
  have hwords : ∀ w ∈ g.words, g.definition? w.1 = some w.2.toDefinition := fun w hw =>
    definition?_of_actionWord? (mem_words hw)
  show Ensures normalizeSentences _ _
  unfold normalizeSentences
  simp only [Work.ensures_bind, Work.ensures_read]
  refine ⟨_, hs.actionWords_ok, index, hindex, ?_⟩
  refine (noteWords_unmoved (f := fun w w' => { w' with
    pattern := some (Sentence.writtenPattern w.2.name) }) fun w hw => ?_).mono ?_
  · rw [← hp.patterned w.1 w.2 (mem_words hw)]
  rintro - _ rfl
  refine ⟨_, hs.scenarios_ok, ?_⟩
  rw [hs.bodies_eq ho]
  have hbodies : ∀ b ∈ (p.scenarios ++ p.actionWords).map g.body, ∀ before h after,
      b = before ++ h :: after → ∃ τ, g.step? h = some τ ∧
        τ.Normal g.words (trail (before.map g.keyword?)) := by
    intro b hb before h after hsplit
    obtain ⟨k, -, rfl⟩ := List.mem_map.1 hb
    obtain ⟨d, hd, -⟩ := mem_body (g := g) (h := k) (k := h) (by simp [hsplit])
    exact hnormal k d before h after hd ((body_eq hd).symm.trans hsplit)
  refine (normalizeBodies_unmoved hs hp.worded hwords hi hbodies).mono ?_
  rintro used ⟨g', r'⟩ ⟨rfl, hused⟩
  refine (noteWords_unmoved (f := fun w w' => { w' with keywords := keywordsOf used w.1 })
    fun w hw => ?_).mono fun _ s hs' => by rw [hs']
  rw [hused, ← steps_eq ho]
  show { w.2 with keywords := keywordsOf g'.uses w.1 } = w.2
  rw [← hp.keyworded w.1 w.2 (mem_words hw)]

/-! ## All passes -/

/-- **Every pass leaves a graph that it does not move.** -/
theorem ensures_pass_unmoved (hs : g.Sound) (pass : Pass) :
    Ensures pass.run ⟨g, r⟩ fun _ s => s.graph.UnmovedBy pass := by
  cases pass with
  | link => exact (ensures_linkParents hs).mono fun _ s hl => hl.1.sound.unmovedBy_link hl.2.1
  | type =>
    refine (ensures_addTypes hs).mono ?_
    rintro - ⟨g', r'⟩ ⟨⟨e, he, ht⟩, -⟩
    have he' : g'.evidence = .ok e := by
      rw [← evidence_stripped, ht.toAlike.stripped, evidence_stripped, he]
    refine (ht.toAlike.sound hs).unmovedBy_type he' fun h p hp => ?_
    rw [ht.parameter] at hp
    obtain ⟨q, -, rfl⟩ := Option.map_eq_some_iff.1 hp
    rfl
  | bind =>
    refine (ensures_bindCalls hs).mono ?_
    rintro - ⟨g', r'⟩ ⟨hb, -⟩
    refine hb.sound.unmovedBy_bind fun h y hy => ?_
    obtain ⟨x, -, rfl⟩ := hb.exists_of_state? hy
    rw [CallState.actionWord_bindTo, hb.formals, hb.toFollows.target?, CallState.bindTo_bindTo]
  | complete =>
    refine (ensures_completeCalls hs).mono ?_
    rintro - ⟨g', r'⟩ ⟨hb, -⟩
    refine hb.sound.unmovedBy_complete fun h y hy => ?_
    obtain ⟨x, -, hxy⟩ := hb.exists_of_state? hy
    exact ⟨x, hb.formals ▸ hxy⟩
  | normalize =>
    refine (ensures_normalizeSentences hs).mono ?_
    rintro - ⟨g', r'⟩ ⟨hn, hp, -⟩
    refine hn.sound.unmovedBy_normalize hp fun k d before h after hd hsplit => ?_
    rw [hn.toFollows.definition?] at hd
    obtain ⟨σ, τ, -, hτ, hnorm⟩ := hn.normal k d before h after hd hsplit
    refine ⟨τ, hτ, ?_⟩
    have hkeys : before.map g'.keyword? = before.map g.keyword? := by
      refine List.map_congr_left fun j hj => ?_
      obtain ⟨front, back, hfront⟩ := List.append_of_mem hj
      obtain ⟨σ', τ', hσ', hτ', hnorm'⟩ := hn.normal k d front j (back ++ h :: after) hd
        (by simp [hsplit, hfront])
      rw [keyword?, keyword?, hσ', hτ', Option.bind_some, Option.bind_some, hnorm'.keyword?]
    rw [hkeys]
    exact hnorm.normal (map_name_words_congr hn.root hn.fixed)

end Graph

/-- **Every pass is idempotent** on every graph that passes make of a document: after passes in any order,
as often as one likes, a pass that is run twice leaves the graph as it is after the first time. -/
theorem passes_are_idempotent {text : String} {strict : Bool} {g : Graph}
    (hg : Design.readGraph text strict = .ok g) (r : Report) (passes : List Pass) (pass : Pass) :
    Ensures (passes.forM Pass.run) ⟨g, r⟩ fun _ reached =>
      Ensures pass.run reached fun _ once =>
        Ensures pass.run once fun _ twice => twice.graph = once.graph := by
  refine (Graph.ensures_passes (Design.sound_of_readGraph hg) passes).mono ?_
  rintro - ⟨g', r'⟩ ⟨hf, -⟩
  exact (Graph.ensures_pass_unmoved hf.sound pass).mono fun _ once hunmoved => hunmoved once.report

theorem passes_are_idempotent_on_sample :
    Design.readGraph Design.sampleText true = .ok Design.sample.graph ∧
      Ensures ([.complete, .normalize, .bind].forM Pass.run) ⟨Design.sample.graph, {}⟩ fun _ reached =>
        Ensures Pass.complete.run reached fun _ once =>
          Ensures Pass.complete.run once fun _ twice => twice.graph = once.graph :=
  ⟨Design.readGraph_sample, passes_are_idempotent Design.readGraph_sample {} _ _⟩

end Actionbook
