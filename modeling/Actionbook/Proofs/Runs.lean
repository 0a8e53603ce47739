import Actionbook.Proofs.Passes

/-!
# Runs of enrichment

A run takes the five passes one after the other. `Graph.Enriches` puts them together for a single step:
a call is bound, completed and annotated, and a sentence that follows a pattern gives way to such a
call. `Graph.Enriched g m g'` says so of a whole run from `g` to `g'`, where `m` is the graph before the
last pass.

* `ensures_enrich`: a run on a sound graph.
* `ensures_enrich_due`: its warnings are those that are due for the graph in the end.
* `ensures_enrichTimes`: several runs, one after the other.
-/

namespace Actionbook

open Work (Ensures)

/-- Runs enrichment several times. -/
def enrichTimes : Nat → Work Unit
  | 0 => pure ()
  | n + 1 => do
    let _ ← enrich
    enrichTimes n

namespace Graph

variable {g g' m : Graph} {h k : Handle} {r : Report} {x y : CallState} {σ τ : StepState}
  {last : Option String}

/-- What a run makes of a step after steps of which the last had the effective keyword `last`. -/
inductive Enriches (m : Graph) (last : Option String) : StepState → StepState → Prop
  | other {s : Step} (hk : sentenceKeywords.contains s.key = false) :
      Enriches m last (.plain s) (.plain s)
  | sentence {s : Step} (hk : sentenceKeywords.contains s.key = true)
      (hm : firstMatch? m.words s.sentence = none) :
      Enriches m last (.plain s)
        (.plain { s with effective := some (effectiveKeyword s.key last) })
  | placed {s : Step} {word : Handle × ActionWord} {texts : List String} {y : CallState}
      {sentence : String} (hk : sentenceKeywords.contains s.key = true)
      (hm : firstMatch? m.words s.sentence = some (word, texts)) (hy : m.Placed word s.key texts y) :
      Enriches m last (.plain s)
        (.call (y.annotated (some (effectiveKeyword s.key last)) sentence))
  | call {x y : CallState} {sentence : String}
      (hy : CallState.Completed m.formals (x.bindTo m.formals (m.target? x.call.actionWord)) y) :
      Enriches m last (.call x) (.call (y.annotated ((StepState.call x).effective last) sentence))

/-- The parameters of `m` are those of `g`, and have the types that the evidence in `g` shows once
parents are linked. -/
def Types (g m : Graph) : Prop :=
  ∃ linked e, g.Relinked linked ∧ linked.Sound ∧ linked.Linked ∧ linked.evidence = .ok e ∧
    ∀ h, m.parameter? h = (g.parameter? h).map fun p => { p with type := e.typeOf h p }

/-- A run from `g` to `g'` with `m` before the last pass. -/
structure Enriched (g m g' : Graph) : Prop where
  before : g.Follows m
  after : m.Follows g'
  linked : g'.Linked
  typed : g.Types m
  formals : g'.formals = m.formals
  parameter : g'.parameter? = m.parameter?
  steps : ∀ k d done h rest, g.definition? k = some d → d.steps = done ++ h :: rest →
    ∃ σ τ, g.step? h = some σ ∧ g'.step? h = some τ ∧
      m.Enriches (trail (done.map g.keyword?)) σ τ

namespace Enriched

theorem follows (he : g.Enriched m g') : g.Follows g' := he.before.trans he.after

theorem exists_enriches (he : g.Enriched m g') {d : Definition} (hd : g.definition? k = some d)
    (hm : h ∈ d.steps) : ∃ last σ τ, g.step? h = some σ ∧ g'.step? h = some τ ∧
      m.Enriches last σ τ := by
  obtain ⟨done, rest, hsplit⟩ := List.append_of_mem hm
  obtain ⟨σ, τ, hσ, hτ, hstep⟩ := he.steps k d done h rest hd hsplit
  exact ⟨_, σ, τ, hσ, hτ, hstep⟩

/-- Every step after a run comes from a step before it. -/
theorem exists_step (he : g.Enriched m g') (hh : g'.IsStep h) (hτ : g'.step? h = some τ) :
    ∃ last σ, g.step? h = some σ ∧ m.Enriches last σ τ := by
  obtain ⟨k, d, hd, hm⟩ := he.after.sound.exists_body hh
  rw [he.follows.definition?] at hd
  obtain ⟨last, σ, τ', hσ, hτ', hstep⟩ := he.exists_enriches hd hm
  rw [hτ] at hτ'
  cases hτ'
  exact ⟨last, σ, hσ, hstep⟩

end Enriched

/-! ## The passes before the last one -/

theorem Relinked.step? (hr : g.Relinked g') : g'.step? = g.step? := by
  have hp : g'.plain? = g.plain? := by
    funext k
    rw [plain?, hr.content]
    rfl
  have ha : ∀ c, g'.arguments c = g.arguments c := fun c => gather_congr fun a _ => by
    rw [argument?, hr.content]
    rfl
  have hx : g'.state? = g.state? := by
    funext k
    rw [Graph.state?, hr.content, Graph.state?]
    exact congrArg (Option.map · _) (funext fun c => by rw [ha])
  funext k
  rw [Graph.step?, Graph.step?, hp, hx]

/-- What binding and completing make of a step. -/
theorem Rebuilt.bind_complete {g₁ g₂ : Graph}
    (hb : g.Rebuilt (fun x y => y = x.bindTo g.formals (g.target? x.call.actionWord)) g₁)
    (hc : g₁.Rebuilt (CallState.Completed g₁.formals) g₂) (hσ : g.step? h = some σ) :
    (∃ s, σ = .plain s ∧ g₂.step? h = some (.plain s)) ∨
      ∃ x y, σ = .call x ∧ g₂.step? h = some (.call y) ∧
        CallState.Completed g₂.formals
          (x.bindTo g₂.formals (g₂.target? x.call.actionWord)) y := by
  have hform : g₂.formals = g.formals := hc.formals.trans hb.formals
  have htarget : g₂.target? = g.target? := hc.toFollows.target?.trans hb.toFollows.target?
  cases σ with
  | plain s =>
    refine .inl ⟨s, rfl, step?_plain ?_⟩
    rw [hc.plain, hb.plain]
    exact plain?_of_step? hσ
  | call x =>
    have hx := state?_of_step? hσ
    have h1 := hb.state h
    rw [hx] at h1
    obtain ⟨x₁, hx₁, rfl⟩ : ∃ y, g₁.state? h = some y ∧ y = _ := by
      cases hy : g₁.state? h with
      | none => rw [hy] at h1; cases h1
      | some y => rw [hy] at h1; cases h1 with | some e => exact ⟨y, rfl, e⟩
    have h2 := hc.state h
    rw [hx₁] at h2
    obtain ⟨y, hy, hcomp⟩ : ∃ y, g₂.state? h = some y ∧ CallState.Completed g₁.formals _ y := by
      cases hy : g₂.state? h with
      | none => rw [hy] at h2; cases h2
      | some y => rw [hy] at h2; cases h2 with | some e => exact ⟨y, rfl, e⟩
    refine .inr ⟨x, y, rfl, step?_call hy, ?_⟩
    rw [hform, htarget]
    rw [hb.formals] at hcomp
    exact hcomp

/-- Binding and completing leave the keywords of steps as they are. -/
theorem keyword?_of_bind_complete {g₂ : Graph}
    (h₂ : ∀ σ, g.step? h = some σ → (∃ s, σ = .plain s ∧ g₂.step? h = some (.plain s)) ∨
      ∃ x y, σ = .call x ∧ g₂.step? h = some (.call y) ∧ CallState.Completed g₂.formals
        (x.bindTo g₂.formals (g₂.target? x.call.actionWord)) y)
    (hh : g.IsStep h) : g₂.keyword? h = g.keyword? h := by
  obtain ⟨σ, hσ⟩ := exists_step hh
  rcases h₂ σ hσ with ⟨s, rfl, hτ⟩ | ⟨x, y, rfl, hτ, hc⟩
  · rw [keyword?, keyword?, hσ, hτ]
  · rw [keyword?, keyword?, hσ, hτ]
    simp only [Option.bind_some, StepState.keyword?, hc.keyword, CallState.keyword_bindTo]

/-! ## Runs -/

/-- The passes before the last one, one after the other. -/
structure Prepared (g m : Graph) : Prop extends Follows g m where
  linked' : m.Linked
  typed : g.Types m
  calls : ∀ h σ, g.step? h = some σ → (∃ s, σ = .plain s ∧ m.step? h = some (.plain s)) ∨
    ∃ x y, σ = .call x ∧ m.step? h = some (.call y) ∧ CallState.Completed m.formals
      (x.bindTo m.formals (m.target? x.call.actionWord)) y

theorem Prepared.enriched (hs : g.Sound) (hp : g.Prepared m) (hn : m.Normalized g') :
    g.Enriched m g' where
  before := hp.toFollows
  after := hn.toFollows
  linked := hn.linked hp.linked'
  typed := hp.typed
  formals := hn.formals
  parameter := hn.parameter
  steps := by
    intro k d done h rest hd hsplit
    obtain ⟨σ, τ, hσ, hτ, hnorm⟩ :=
      hn.normal k d done h rest ((hp.definition? k).trans hd) hsplit
    have hfits : ∀ j ∈ d.steps, g.IsStep j := (hs.definition_fits hd).2
    have hkeys : done.map m.keyword? = done.map g.keyword? := List.map_congr_left fun j hj =>
      keyword?_of_bind_complete (hp.calls j) (hfits j (hsplit ▸ List.mem_append_left _ hj))
    obtain ⟨ρ, hρ⟩ := exists_step (hfits h (by simp [hsplit]))
    rw [hkeys] at hnorm
    rcases hp.calls h ρ hρ with ⟨s, rfl, hσ'⟩ | ⟨x, y, rfl, hσ', hc⟩
    · rw [hσ] at hσ'
      cases hσ'
      refine ⟨_, τ, hρ, hτ, ?_⟩
      cases hnorm with
      | other hk => exact .other hk
      | sentence hk hm => exact .sentence hk hm
      | placed hk hm hy => exact .placed hk hm hy
    · rw [hσ] at hσ'
      cases hσ'
      refine ⟨_, τ, hρ, hτ, ?_⟩
      cases hnorm with
      | call =>
        have heff : (StepState.call y).effective = (StepState.call x).effective := by
          funext l
          simp only [StepState.effective, StepState.keyword?, hc.keyword, CallState.keyword_bindTo]
        rw [heff]
        exact .call hc

/-! ## What a run reports -/

/-- The warnings that are due for the parameters and the steps of a graph. -/
def due (g : Graph) : List Warning :=
  g.handles.flatMap g.untyped ++
    g.steps.flatMap fun h => ((g.step? h).map (StepState.due g.formals h)).getD []

/-- Every parameter stands in a scenario or in an action word. -/
theorem Sound.exists_owned (hs : g.Sound) (hh : g.kind? h = some .parameter) :
    ∃ k d, g.definition? k = some d ∧ h ∈ d.parameters := by
  obtain ⟨r, p, hr, hp, hl⟩ := hs.rooted
  have hne : h ≠ r := by
    rintro rfl
    rw [kind_eq hp] at hh
    cases hh
  obtain ⟨q, -, hq⟩ := hl.exists_parent (mem_handles_of_kind? hh) hne
  rcases hs.kid_cases hq with ⟨p, -, -, d, hd⟩ | ⟨d, hd, ⟨hm, -⟩ | ⟨-, hk⟩⟩ | hk
  · obtain ⟨c, hc, hcd⟩ := Option.bind_eq_some_iff.1 hd
    rw [kind_eq hc] at hh
    cases c <;> simp [Content.definition?, Content.kind] at hcd hh
  · exact ⟨q, d, hd, hm⟩
  · rcases hk with hk | hk <;> rw [hk] at hh <;> cases hh
  · rw [hk] at hh
    cases hh

/-- In a linked graph the owner of a parameter is the definition that lists it. -/
theorem Sound.ownerName_of_linked {d : Definition} (hs : g.Sound) (hl : g.Linked)
    (hd : g.definition? k = some d) (hm : h ∈ d.parameters) :
    g.ownerName h = .ofText? (some d.name) := by
  obtain ⟨r, p, hr, hp, hlist⟩ := hs.rooted
  obtain ⟨c, hc, hcd⟩ := Option.bind_eq_some_iff.1 hd
  have hkids : h ∈ g.kids k := kids_of_definition? hd ▸ List.mem_append_left _ hm
  obtain ⟨q, hq⟩ := hl h (hlist.kid_mem hkids) fun e => by
    rw [hr, Option.some.injEq] at e
    exact hlist.root_not_mem (e ▸ hkids)
  obtain rfl : q = k := hlist.eq_of_mem (hs.honest h q hq) hkids
  rw [ownerName, hq, Option.bind_some, hc]
  cases c <;> simp only [Content.definition?, reduceCtorEq, Option.some.injEq] at hcd <;>
    simp only [Option.bind_some, Content.name?, hcd]

/-- What is due for parameters stays when types stay. -/
theorem Follows.untyped (hs : g.Sound) (hf : g.Follows g') (hl : g.Linked)
    (hp : g'.parameter? = g.parameter?) : g'.untyped = g.untyped := by
  funext h
  rw [Graph.untyped, Graph.untyped, hp]
  cases hh : g.parameter? h with
  | none => rfl
  | some p =>
    obtain ⟨k, d, hd, hm⟩ := hs.exists_owned (isSome_parameter?.1 (Option.isSome_of_eq_some hh))
    rw [hs.ownerName_of_linked hl hd hm,
      hf.sound.ownerName_of_linked (hf.linked hl) ((hf.definition? k).trans hd) hm]

/-- The three passes that report on steps report what is due for each of them in the end. -/
theorem Normalized.due_eq {g₁ g₂ : Graph} (hc : g.Rebuilt (CallState.Completed g.formals) g₁)
    (hn : g₁.Normalized g₂) (hh : g₁.IsStep h) :
    ((g.state? h).map (CallState.unresolved h)).getD [] ++
        (((g₁.state? h).map (CallState.missing g.formals h)).getD [] ++ g₁.news g₂ h) =
      ((g₂.step? h).map (StepState.due g₂.formals h)).getD [] := by
  obtain ⟨k, d, hd, hm⟩ := hc.sound.exists_body hh
  obtain ⟨done, rest, hsplit⟩ := List.append_of_mem hm
  obtain ⟨σ, τ, hσ, hτ, hnorm⟩ := hn.normal k d done h rest hd hsplit
  rw [news_eq hσ hτ, hτ, hn.formals, hc.formals]
  cases σ with
  | plain s =>
    have hplain := plain?_of_step? hσ
    have hnone : ∀ x : Graph, x.plain? h = some s → x.state? h = none := fun x hx => by
      rw [Option.eq_none_iff_forall_ne_some]
      intro y hy
      rw [plain?_of_state? hy] at hx
      cases hx
    rw [hnone g₁ hplain, hnone g (by rw [← hc.plain]; exact hplain)]
    rfl
  | call y =>
    have hy := state?_of_step? hσ
    have hrel := hc.state h
    rw [hy] at hrel
    cases hx : g.state? h with
    | none => rw [hx] at hrel; cases hrel
    | some x =>
      rw [hx] at hrel
      cases hrel with
      | some hcomp =>
        cases hnorm with
        | call =>
          simp only [hy, Option.map_some, Option.getD_some, StepState.news, List.append_nil,
            StepState.due, ← CallState.Completed.unresolved hcomp h]
          rfl

/-- **A run on a sound graph** reports what is due for the graph in the end. -/
theorem ensures_enrich_due (hs : g.Sound) : Ensures enrich ⟨g, r⟩ fun warnings s =>
    (∃ m, g.Enriched m s.graph) ∧ warnings.Perm s.graph.due := by
  unfold enrich
  simp only [Pass.all, Work.ensures_bind, Work.ensures_get, Work.ensures_pure, List.forM_eq_forM,
    List.forM_cons, List.forM_nil, Work.ensures_announcing, Pass.run]
  refine ((ensures_linkParents hs).silent silent_linkParents).mono ?_
  rintro - ⟨g₁, r₁⟩ ⟨⟨hf₁, hl₁, hr₁⟩, rfl⟩
  refine (ensures_addTypes hf₁.sound).mono ?_
  rintro - ⟨g₂, r₂⟩ ⟨⟨e, he, ht₂⟩, hgain₂⟩
  have ha₂ := ht₂.toAlike
  have hf₂ := Follows.of_alike hf₁.sound ha₂
  refine (ensures_bindCalls hf₂.sound).mono ?_
  rintro - ⟨g₃, r₃⟩ ⟨hb₃, hgain₃⟩
  refine (ensures_completeCalls hb₃.sound).mono ?_
  rintro - ⟨g₄, r₄⟩ ⟨hc₄, hgain₄⟩
  refine (ensures_normalizeSentences hc₄.sound).mono ?_
  rintro - ⟨g₅, r₅⟩ ⟨hn₅, -, hgain₅⟩
  have hprep : g.Prepared g₄ := {
    toFollows := ((hf₁.trans hf₂).trans hb₃.toFollows).trans hc₄.toFollows
    linked' := hc₄.linked (hb₃.linked (hf₂.linked hl₁))
    typed := by
      refine ⟨g₁, e, hr₁, hf₁.sound, hl₁, he, fun h => ?_⟩
      rw [hc₄.parameter, hb₃.parameter, ht₂.parameter, parameter?, hr₁.content, ← parameter?]
    calls := fun h σ hσ => by
      refine hb₃.bind_complete hc₄ ?_
      rw [ha₂.step?, hr₁.step?]
      exact hσ }
  refine ⟨⟨g₄, hprep.enriched hs hn₅⟩, ?_⟩
  have hlater := (hb₃.toFollows.trans hc₄.toFollows).trans hn₅.toFollows
  have hparameters : (g₂.handles.flatMap g₂.untyped).Perm (g₅.handles.flatMap g₅.untyped) := by
    have hpar : g₅.parameter? = g₂.parameter? :=
      hn₅.parameter.trans (hc₄.parameter.trans hb₃.parameter)
    rw [hlater.untyped hf₂.sound (hf₂.linked hl₁) hpar]
    refine perm_flatMap_of_support g₂.nodup_handles g₅.nodup_handles fun h hdue => ?_
    obtain ⟨p, hp⟩ := exists_parameter_of_untyped hdue
    exact iff_of_true (mem_handles_of_content? (content?_parameter.1 hp))
      (mem_handles_of_content? (content?_parameter.1 (hpar ▸ hp)))
  have hsteps : (g₃.overCalls CallState.unresolved ++ (g₄.overCalls (CallState.missing g₃.formals) ++
      g₄.steps.flatMap (g₄.news g₅))).Perm
      (g₅.steps.flatMap fun h => ((g₅.step? h).map (StepState.due g₅.formals h)).getD []) := by
    rw [overCalls, overCalls, hn₅.toFollows.steps, hc₄.toFollows.steps, ← hc₄.toFollows.steps]
    refine ((List.flatMap_append_perm _ _ _).append_left _).trans
      ((List.flatMap_append_perm _ _ _).trans (.of_eq (List.flatMap_congr fun h hh => ?_)))
    exact hn₅.due_eq hc₄ (hc₄.sound.mem_steps.1 hh)
  refine ((((hgain₂.trans hgain₃).trans hgain₄).trans hgain₅).perm ?_).since
  rw [List.append_assoc, List.append_assoc]
  exact hparameters.append hsteps

/-- A run on a sound graph, without regard to what it reports. -/
theorem ensures_enrich (hs : g.Sound) :
    Ensures enrich ⟨g, r⟩ fun _ s => ∃ m, g.Enriched m s.graph :=
  (ensures_enrich_due hs).mono fun _ _ h => h.1

/-- **Several runs** keep what every run keeps. -/
theorem ensures_enrichTimes (inv : Graph → Prop) (hs : g.Sound) (hi : inv g)
    (run : ∀ g g' m : Graph, g.Sound → inv g → g.Enriched m g' → inv g') (n : Nat) :
    Ensures (enrichTimes n) ⟨g, r⟩ fun _ s => g.Follows s.graph ∧ inv s.graph := by
  induction n generalizing g r with
  | zero => exact Work.ensures_pure.2 ⟨.refl hs, hi⟩
  | succ n ih =>
    rw [enrichTimes, Work.ensures_bind]
    refine (ensures_enrich hs).mono ?_
    rintro _ ⟨g', r'⟩ ⟨m, he⟩
    exact (ih he.follows.sound (run g g' m hs hi he)).mono fun _ s ⟨hf, hP⟩ =>
      ⟨he.follows.trans hf, hP⟩

end Graph

end Actionbook
