import Actionbook.Proofs.Documents
import Actionbook.Proofs.Rebinding

/-!
# Runs that change nothing

What a graph holds apart from what enrichment finds out is there after the first run: a further run adds
no node, and leaves all calls and their arguments alone (`Graph.Rests`), as long as the defaults of
parameters find their parameters again. The evidence for types is then the same as before, and so from
the second run on types stay as well (`Retains.types_eq`).

* `Enriched.rests`: a run on a graph that has been enriched.
* `reruns_rest`: documents.
-/

namespace Actionbook

open Work (Ensures)

namespace CallState

variable {formals : Handle → List (Handle × Parameter)} {target : Option Handle} {x y : CallState}

/-- A call without what enrichment finds out. -/
def stripped (x : CallState) : CallState := ⟨x.call.stripped, mapped Argument.stripped x.arguments⟩

theorem stripped_bindTo : (x.bindTo formals target).stripped = x.stripped := by
  have hargs := congrArg (mapped Argument.stripped) (x.map_cleared_bindTo formals target)
  simp only [mapped, List.map_map] at hargs
  have hcall : (x.bindTo formals target).call.stripped = x.call.stripped := by
    cases target <;> rfl
  rw [stripped, hcall]
  exact congrArg (CallState.mk _) hargs

/-- Completion shows only where there are defaults. -/
theorem Completed.stripped (hc : Completed formals x y)
    (hd : ∀ t, x.call.target = some t → ∀ p ∈ writtenFormals (formals t), p.2.default = none) :
    y.stripped = x.stripped := by
  obtain ⟨-, rfl⟩ | ⟨t, new, -, ht, hnew, rfl⟩ := hc.cases
  · rfl
  · have hnil : defaults (formals t) (x.arguments.filterMap (·.2.parameter)) = [] :=
      defaults_eq_nil.2 fun p hp hdefault => by
        rw [hd t ht p hp] at hdefault
        cases hdefault
    rw [hnil, List.map_eq_nil_iff] at hnew
    subst hnew
    simp only [CallState.stripped, extend, Call.stripped, List.map_nil, List.append_nil]

end CallState

namespace StepState

/-- A step without what enrichment finds out and what a plain step says. -/
def stripped : StepState → StepState
  | .plain s => .plain s.stripped
  | .call x => .call x.stripped

/-- The same step with another effective keyword and another sentence. -/
inductive Renoted : StepState → StepState → Prop
  | plain (s : Step) (effective : Option String) : Renoted (.plain s) (.plain { s with effective })
  | call (x : CallState) (effective : Option String) (sentence : String) :
      Renoted (.call x) (.call (x.annotated effective sentence))

theorem Renoted.stripped {σ τ : StepState} (h : Renoted σ τ) : τ.stripped = σ.stripped := by
  cases h <;> rfl

end StepState

namespace Graph

variable {g g' m m' : Graph} {h k : Handle} {last : Option String} {σ τ : StepState}
  {x y z : CallState}

theorem step?_eq_none (hh : ¬ g.IsStep h) : g.step? h = none :=
  Option.eq_none_iff_forall_ne_some.2 fun _ hσ => hh (isStep_of_step? hσ)

/-- What stays for good decides on what is left of a content when it is stripped. -/
theorem stripped_of_fixed {c b : Content} (hf : c.fixed = some b) : c.stripped = b.stripped := by
  cases c <;> cases hf <;> rfl

/-! ## Graphs with the same steps -/

/-- `g'` follows `g`, and steps are what they were but for what enrichment finds out and what plain steps
say. -/
structure Retains (g g' : Graph) : Prop extends Follows g g' where
  steps : ∀ h, (g'.step? h).map StepState.stripped = (g.step? h).map StepState.stripped

section
variable (g : Graph) (h : Handle)

theorem fixed_stripped : g.stripped.fixed h = g.fixed h := by
  rw [fixed, fixed, content?_stripped]
  cases g.content? h with
  | none => rfl
  | some c => cases c <;> rfl

theorem linked_stripped : g.stripped.Linked ↔ g.Linked := by
  simp only [Linked, handles, size_stripped, parent?_stripped]
  rfl

theorem arguments_stripped (c : Call) :
    g.stripped.arguments c.stripped = mapped Argument.stripped (g.arguments c) := by
  simp only [arguments, gather, argument?_stripped, mapped, List.map_filterMap, Option.map_map]
  rfl

theorem step?_stripped : g.stripped.step? h = (g.step? h).map StepState.stripped := by
  have hplain : g.stripped.plain? h = (g.plain? h).map Step.stripped := by
    rw [plain?, plain?, content?_stripped]
    cases g.content? h with
    | none => rfl
    | some c => cases c <;> rfl
  have hstate : g.stripped.state? h = (g.state? h).map CallState.stripped := by
    rw [state?, state?, content?_stripped]
    cases g.content? h with
    | none => rfl
    | some c =>
      simp only [Option.map_some, Option.bind_some, Content.call?_stripped, Option.map_map]
      cases c.call? with
      | none => rfl
      | some call =>
        exact congrArg (fun args => some (CallState.mk call.stripped args)) (g.arguments_stripped call)
  rw [step?, step?, hplain, hstate, Option.map_or, Option.map_map, Option.map_map, Option.map_map,
    Option.map_map]
  rfl

end

/-- Graphs that are stripped to the same retain one another. -/
theorem retains_of_stripped (hs : g'.Sound) (h : g'.stripped = g.stripped) : g.Retains g' where
  root := (congrArg Graph.root h :)
  fixed := funext fun k => by rw [← fixed_stripped, h, fixed_stripped]
  sound := hs
  linked := fun hl => by rwa [← linked_stripped, h, linked_stripped]
  steps := fun k => by rw [← step?_stripped, h, step?_stripped]

/-- What a node lists if it is no step. -/
theorem kids_of_no_step (hn : g.step? h = none) :
    g.kids h = ((g.fixed h).bind Content.children?).getD [] := by
  unfold kids fixed
  cases hc : g.content? h with
  | none => rfl
  | some c =>
    cases c with
    | call c =>
      rw [step?_call (state?_call hc)] at hn
      cases hn
    | step s =>
      rw [step?_plain (plain?_eq_some.2 hc)] at hn
      cases hn
    | _ => rfl

/-- What a step lists. -/
theorem kids_of_step? (hσ : g.step? h = some σ) :
    g.kids h = match σ with
      | .plain _ => []
      | .call x => x.call.arguments := by
  cases σ with
  | plain s => exact kids_of_plain? (plain?_of_step? hσ)
  | call x => exact kids_of_state? (state?_of_step? hσ)

namespace Sound

variable (hs : g.Sound)
include hs

theorem mem_handles_iff : h ∈ g.handles ↔ g.root = some h ∨ ∃ k, h ∈ g.kids k := by
  obtain ⟨r, p, hr, hp, hl⟩ := hs.rooted
  rw [hr, Option.some.injEq]
  constructor
  · intro hh
    by_cases e : h = r
    · exact .inl e.symm
    · obtain ⟨k, -, hk⟩ := hl.exists_parent hh e
      exact .inr ⟨k, hk⟩
  · rintro (rfl | ⟨k, hk⟩)
    · exact mem_handles_of_content? hp
    · exact hl.kid_mem hk

/-- Every argument is one of a call. -/
theorem exists_caller {a : Argument} (ha : g.argument? h = some a) :
    ∃ k x, g.state? k = some x ∧ (h, a) ∈ x.arguments := by
  have hkind : g.kind? h = some .argument := isSome_argument?.1 (Option.isSome_of_eq_some ha)
  obtain ⟨r, p, hr, hp, hl⟩ := hs.rooted
  have hne : h ≠ r := by
    rintro rfl
    rw [kind_eq hp] at hkind
    cases hkind
  obtain ⟨k, hk, hm⟩ := hl.exists_parent (mem_handles_of_kind? hkind) hne
  obtain ⟨c, hc⟩ := content?_of_mem hk
  have hfit := hs.fits k c hc
  have hbody : ∀ d : Definition, d.Fits g → h ∉ d.parameters ++ d.steps := fun d hd hm => by
    rcases List.mem_append.1 hm with hm | hm
    · rw [hd.1 h hm] at hkind
      cases hkind
    · rcases hd.2 h hm with hstep | hstep <;> rw [hstep] at hkind <;> cases hkind
  cases c with
  | call c =>
    rw [kids_eq hc rfl] at hm
    exact ⟨k, _, state?_call hc, mem_gather.2 ⟨hm, ha⟩⟩
  | blank => exact hfit.elim
  | project p =>
    rw [kids_eq hc rfl] at hm
    rcases List.mem_append.1 hm with hm | hm
    · rw [hfit.1 h hm] at hkind
      cases hkind
    · rw [hfit.2 h hm] at hkind
      cases hkind
  | scenario s =>
    rw [kids_eq hc rfl] at hm
    exact absurd hm (hbody _ hfit)
  | actionWord w =>
    rw [kids_eq hc rfl] at hm
    exact absurd hm (hbody _ hfit)
  | parameter p =>
    rw [kids_eq hc rfl] at hm
    cases hm
  | argument a =>
    rw [kids_eq hc rfl] at hm
    cases hm
  | step s =>
    rw [kids_eq hc rfl] at hm
    cases hm

end Sound

/-- Arguments stay with the calls that they belong to. -/
theorem exists_argument_of_steps {a : Argument} (hs : g.Sound)
    (hsteps : ∀ h, (g'.step? h).map StepState.stripped = (g.step? h).map StepState.stripped)
    (ha : g.argument? h = some a) : ∃ b, g'.argument? h = some b ∧ b.stripped = a.stripped := by
  obtain ⟨k, x, hx, hm⟩ := hs.exists_caller ha
  have hk := hsteps k
  rw [step?_call hx, Option.map_some, Option.map_eq_some_iff] at hk
  obtain ⟨τ, hτ, heq⟩ := hk
  cases τ with
  | plain s => cases heq
  | call y =>
    simp only [StepState.stripped, StepState.call.injEq, CallState.stripped, CallState.mk.injEq] at heq
    have hm' : (h, a.stripped) ∈ mapped Argument.stripped y.arguments := by
      rw [heq.2]
      exact List.mem_map_of_mem (f := fun e => (e.1, Argument.stripped e.2)) hm
    obtain ⟨e, he, heq⟩ := List.mem_map.1 hm'
    simp only [Prod.mk.injEq] at heq
    exact ⟨e.2, heq.1 ▸ argument?_of_state? (state?_of_step? hτ) he, heq.2⟩

namespace Retains

variable (hr : g.Retains g')
include hr

theorem kids : g'.kids = g.kids := by
  funext h
  have hsteps := hr.steps h
  cases hσ : g.step? h with
  | none =>
    rw [hσ, Option.map_none, Option.map_eq_none_iff] at hsteps
    rw [kids_of_no_step hσ, kids_of_no_step hsteps, hr.fixed]
  | some σ =>
    rw [hσ, Option.map_some, Option.map_eq_some_iff] at hsteps
    obtain ⟨τ, hτ, heq⟩ := hsteps
    rw [kids_of_step? hσ, kids_of_step? hτ]
    cases σ <;> cases τ <;>
      simp only [StepState.stripped, reduceCtorEq, StepState.call.injEq, CallState.stripped,
        CallState.mk.injEq] at heq
    · rfl
    · exact (congrArg Call.arguments heq.1 :)

theorem handles (hs : g.Sound) : g'.handles.Perm g.handles := by
  refine (List.perm_ext_iff_of_nodup g'.nodup_handles g.nodup_handles).2 fun h => ?_
  rw [hs.mem_handles_iff, hr.sound.mem_handles_iff, hr.kids, hr.root]

/-- A run that retains the steps adds no node. -/
theorem size (hs : g.Sound) : g'.size = g.size := by
  have hlength := (hr.handles hs).length_eq
  simpa [Graph.handles] using hlength

theorem argument? (hs : g.Sound) (h : Handle) :
    (g'.argument? h).map Argument.stripped = (g.argument? h).map Argument.stripped := by
  cases ha : g.argument? h with
  | some a =>
    obtain ⟨b, hb, hba⟩ := exists_argument_of_steps hs hr.steps ha
    rw [hb, Option.map_some, Option.map_some, hba]
  | none =>
    cases hb : g'.argument? h with
    | none => rfl
    | some b =>
      obtain ⟨a, ha', -⟩ := exists_argument_of_steps hr.sound (fun h => (hr.steps h).symm) hb
      rw [ha] at ha'
      cases ha'

/-- Nodes are what they were but for what enrichment finds out and what plain steps say. -/
theorem content? (hs : g.Sound) (h : Handle) :
    (g'.content? h).map Content.stripped = (g.content? h).map Content.stripped := by
  have hmem : h ∈ g'.handles ↔ h ∈ g.handles := (hr.handles hs).mem_iff
  have hsteps := hr.steps h
  have hargs := hr.argument? hs h
  have hfixed := congrFun hr.fixed h
  cases hc : g.content? h with
  | none =>
    have hh : h ∉ g.handles := fun hh => by
      obtain ⟨c, hc'⟩ := content?_of_mem hh
      rw [hc] at hc'
      cases hc'
    rw [content?_eq_none (mt hmem.1 hh)]
  | some c =>
    obtain ⟨c', hc'⟩ := content?_of_mem (hmem.2 (mem_handles_of_content? hc))
    rw [hc', Option.map_some, Option.map_some, Option.some.injEq]
    cases hb : c.fixed with
    | some b =>
      have hb' : c'.fixed = some b := by
        rw [Graph.fixed, Graph.fixed, hc, hc', Option.bind_some, Option.bind_some] at hfixed
        rw [hfixed, hb]
      rw [stripped_of_fixed hb, stripped_of_fixed hb']
    | none =>
      cases c with
      | call c =>
        rw [step?_call (state?_call hc), Option.map_some, Option.map_eq_some_iff] at hsteps
        obtain ⟨τ, hτ, heq⟩ := hsteps
        cases τ with
        | plain s => cases heq
        | call y =>
          simp only [StepState.stripped, StepState.call.injEq, CallState.stripped, CallState.mk.injEq] at heq
          rw [(state?_eq_some.1 (state?_of_step? hτ)).1] at hc'
          cases hc'
          exact congrArg Content.call heq.1
      | step s =>
        rw [step?_plain (plain?_eq_some.2 hc), Option.map_some, Option.map_eq_some_iff] at hsteps
        obtain ⟨τ, hτ, heq⟩ := hsteps
        cases τ with
        | call y => cases heq
        | plain t =>
          simp only [StepState.stripped, StepState.plain.injEq] at heq
          rw [plain?_eq_some.1 (plain?_of_step? hτ)] at hc'
          cases hc'
          exact congrArg Content.step heq
      | argument a =>
        rw [content?_argument.2 hc, Option.map_some, Option.map_eq_some_iff] at hargs
        obtain ⟨b, hb, heq⟩ := hargs
        rw [content?_argument.1 hb] at hc'
        cases hc'
        exact congrArg Content.argument heq
      | _ => cases hb

theorem parameter? (hs : g.Sound) (h : Handle) :
    (g'.parameter? h).map Parameter.stripped = (g.parameter? h).map Parameter.stripped := by
  rw [← parameter?_stripped, ← parameter?_stripped, Graph.parameter?, Graph.parameter?,
    content?_stripped, content?_stripped, hr.content? hs]

/-- Once they are linked, the two graphs are stripped to the same. -/
theorem stripped {l l' : Graph} (hs : g.Sound) (hl : g.Relinked l) (hsl : l.Sound) (hll : l.Linked)
    (hl' : g'.Relinked l') (hsl' : l'.Sound) (hll' : l'.Linked) : l'.stripped = l.stripped := by
  have hcontent : ∀ k, (l'.content? k).map Content.stripped = (l.content? k).map Content.stripped :=
    fun k => by rw [hl'.content, hl.content, hr.content? hs]
  have hkids : l'.kids = l.kids := by
    have e : ∀ {x y : Graph}, x.Relinked y → y.kids = x.kids := fun h => funext fun k => by
      rw [Graph.kids, Graph.kids, h.content]
    rw [e hl', e hl, hr.kids]
  refine ext_node? ?_ fun k => ?_
  · exact hl'.root.trans (hr.root.trans hl.root.symm)
  · rw [node?_eq_map, node?_eq_map, content?_stripped, content?_stripped, parent?_stripped,
      parent?_stripped, hcontent, hsl.parent?_congr hll hsl' hll' hkids]

end Retains

/-! ## Types -/

/-- The types that a run gives depend on what is left when the graph before is stripped. -/
theorem Retains.types_eq (hr : g.Retains g') (hs : g.Sound) (ht : g.Types m) (ht' : g'.Types m') :
    m'.parameter? = m.parameter? := by
  obtain ⟨l, e, hl, hsl, hll, he, hm⟩ := ht
  obtain ⟨l', e', hl', hsl', hll', he', hm'⟩ := ht'
  have hsame : (.ok e' : Except Fault Evidence) = .ok e := by
    rw [← he, ← he', ← evidence_stripped l, ← evidence_stripped l',
      hr.stripped hs hl hsl hll hl' hsl' hll']
  cases hsame
  funext h
  have hp := hr.parameter? hs h
  rw [hm, hm']
  cases hq : g.parameter? h with
  | none =>
    rw [hq, Option.map_none, Option.map_eq_none_iff] at hp
    rw [hp]
  | some q =>
    rw [hq, Option.map_some, Option.map_eq_some_iff] at hp
    obtain ⟨q', hq', heq⟩ := hp
    rw [hq', Option.map_some, Option.map_some]
    have htype : e.typeOf h q' = e.typeOf h q := by
      rw [← e.typeOf_stripped, heq, e.typeOf_stripped]
    have hstrip : ∀ q : Parameter, { q with type := e.typeOf h q } =
        { q.stripped with type := e.typeOf h q } := fun _ => rfl
    rw [hstrip q', hstrip q, heq, htype]

theorem Enriched.types (he : g.Enriched m g') : g.Types g' := by
  obtain ⟨l, e, hl, hsl, hll, hev, hm⟩ := he.typed
  exact ⟨l, e, hl, hsl, hll, hev, fun h => by rw [he.parameter, hm]⟩

/-! ## Runs -/

/-- `g'` follows `g`, and steps are what they were but for their keywords and sentences. -/
structure Rests (g g' : Graph) : Prop extends Follows g g' where
  steps : ∀ h, Option.Rel StepState.Renoted (g.step? h) (g'.step? h)

/-- All calls are steady. -/
def AllSteady (g : Graph) : Prop := ∀ h x, g.state? h = some x →
  x.Steady g.formals (g.target? x.call.actionWord)

/-- The defaults of the parameters of action words find their parameters. -/
def AllDefaultsFirst (g : Graph) : Prop := ∀ name t, g.target? name = some t →
  DefaultsFirst ((g.formals t).map (·.2.written))

theorem Rests.retains (hr : g.Rests g') : g.Retains g' := by
  refine ⟨hr.toFollows, fun h => ?_⟩
  have hrel := hr.steps h
  cases hσ : g.step? h <;> cases hτ : g'.step? h <;> rw [hσ, hτ] at hrel <;> cases hrel
  rename_i hστ
  exact congrArg some hστ.stripped

theorem Rests.state? (hr : g.Rests g') (hx : g.state? h = some x) :
    ∃ effective sentence, g'.state? h = some (x.annotated effective sentence) := by
  have hrel := hr.steps h
  rw [step?_call hx] at hrel
  cases hτ : g'.step? h with
  | none => rw [hτ] at hrel; cases hrel
  | some τ =>
    rw [hτ] at hrel
    cases hrel with
    | some hστ =>
      cases hστ
      exact ⟨_, _, state?_of_step? hτ⟩

/-- Nothing of an argument changes with the keyword and the sentence of its call. -/
theorem Rests.argument? {a : Argument} (hs : g.Sound) (hr : g.Rests g') (ha : g.argument? h = some a) :
    g'.argument? h = some a := by
  obtain ⟨k, x, hx, hm⟩ := hs.exists_caller ha
  obtain ⟨effective, sentence, hy⟩ := hr.state? hx
  exact argument?_of_state? hy hm

theorem Follows.allDefaultsFirst (hf : g.Follows g') (hd : g.AllDefaultsFirst) :
    g'.AllDefaultsFirst := by
  intro name t ht
  rw [hf.target?] at ht
  have hformals := congrArg (List.map Prod.snd) (formals_congr (h := t) hf.fixed)
  rw [List.map_map, List.map_map] at hformals
  have hwritten : (g'.formals t).map (·.2.written) = (g.formals t).map (·.2.written) := hformals
  rw [hwritten]
  exact hd name t ht

/-- **After a run all calls are steady.** -/
theorem Enriched.allSteady (he : g.Enriched m g') (hd : g.AllDefaultsFirst) : g'.AllSteady := by
  intro h z hz
  obtain ⟨last, σ, -, hstep⟩ := he.exists_step (isStep_of_state? hz) (step?_call hz)
  rw [he.formals, he.after.target?]
  exact hstep.steady he.before.sound (he.before.allDefaultsFirst hd)

/-- What a run makes of steps none of which is a sentence of an action word. -/
theorem Enriched.step_cases (hs : g.Sound) (he : g.Enriched m g') (hq : g.Quiet) (h : Handle) :
    (g.step? h = none ∧ g'.step? h = none) ∨
    (∃ s effective, g.step? h = some (.plain s) ∧
      g'.step? h = some (.plain { s with effective })) ∨
    ∃ x y effective sentence, g.step? h = some (.call x) ∧
      CallState.Completed m.formals (x.bindTo m.formals (m.target? x.call.actionWord)) y ∧
      g'.step? h = some (.call (y.annotated effective sentence)) := by
  by_cases hh : g.IsStep h
  · obtain ⟨k, d, hd, hm⟩ := hs.exists_body hh
    obtain ⟨last, σ, τ, hσ, hτ, hstep⟩ := he.exists_enriches hd hm
    cases hstep with
    | other hk => exact .inr (.inl ⟨_, _, hσ, hτ⟩)
    | sentence hk hm => exact .inr (.inl ⟨_, _, hσ, hτ⟩)
    | call hy => exact .inr (.inr ⟨_, _, _, _, hσ, hy, hτ⟩)
    | placed hk hm hy =>
      have hnone := hq h _ (plain?_of_step? hσ) hk
      rw [firstMatch?_eq_none, ← map_name_words_congr he.before.root he.before.fixed,
        ← firstMatch?_eq_none] at hnone
      rw [hnone] at hm
      cases hm
  · have hh' : ¬ g'.IsStep h := fun hstep => by
      obtain ⟨k, d, hd, hm⟩ := he.after.sound.exists_body hstep
      rw [he.follows.definition?] at hd
      exact hh ((hs.definition_fits hd).2 h hm)
    exact .inl ⟨step?_eq_none hh, step?_eq_none hh'⟩

/-- **A run on a graph that has been enriched** leaves all steps alone. -/
theorem Enriched.rests (hs : g.Sound) (he : g.Enriched m g') (hq : g.Quiet) (hx : g.AllSteady) :
    g.Rests g' := by
  refine ⟨he.follows, fun h => ?_⟩
  rcases he.step_cases hs hq h with ⟨hσ, hτ⟩ | ⟨s, effective, hσ, hτ⟩ |
    ⟨x, y, effective, sentence, hσ, hy, hτ⟩ <;> rw [hσ, hτ]
  · exact .none
  · exact .some (.plain s effective)
  · have hsteady : x.Steady m.formals (m.target? x.call.actionWord) := by
      rw [he.before.target?]
      exact (hx h x (state?_of_step? hσ)).congr fun t => formals_congr he.before.fixed
    rw [hsteady.bind] at hy
    rw [hsteady.eq_of_completed hy]
    exact .some (.call x effective sentence)

/-- A run that completes no call retains all steps. -/
theorem Enriched.retains (hs : g.Sound) (he : g.Enriched m g') (hq : g.Quiet)
    (hd : ∀ name t, g.target? name = some t →
      ∀ p ∈ writtenFormals (g.formals t), p.2.default = none) : g.Retains g' := by
  refine ⟨he.follows, fun h => ?_⟩
  rcases he.step_cases hs hq h with ⟨hσ, hτ⟩ | ⟨s, effective, hσ, hτ⟩ |
    ⟨x, y, effective, sentence, hσ, hy, hτ⟩ <;> rw [hσ, hτ]
  · rfl
  · have hstrip : y.stripped = x.stripped := by
      refine (hy.stripped fun t ht => ?_).trans CallState.stripped_bindTo
      have htarget := (CallState.ready_bindTo x).target_eq ht
      have hformals : writtenFormals (m.formals t) = writtenFormals (g.formals t) :=
        formals_congr he.before.fixed
      rw [he.before.target?] at htarget
      rw [hformals]
      exact hd _ t htarget
    exact congrArg (some ∘ StepState.call) hstrip

/-- What is left of a graph after runs when another one leaves it alone. -/
structure AtRest (g : Graph) : Prop where
  sound : g.Sound
  linked : g.Linked
  quiet : g.Quiet
  steady : g.AllSteady
  defaults : g.AllDefaultsFirst

theorem Enriched.atRest (he : g.Enriched m g') (hd : g.AllDefaultsFirst) : g'.AtRest :=
  ⟨he.after.sound, he.linked, he.quiet, he.allSteady hd, he.follows.allDefaultsFirst hd⟩

/-- The types are those that a further run would give. -/
def Informed (g : Graph) : Prop := ∃ g₀ : Graph, g₀.Sound ∧ g₀.Retains g ∧ g₀.Types g

theorem Enriched.informed (hs : g.Sound) (he : g.Enriched m g') (hr : g.Retains g') : g'.Informed :=
  ⟨g, hs, hr, he.types⟩

theorem AtRest.rests (ha : g.AtRest) (he : g.Enriched m g') : g.Rests g' :=
  he.rests ha.sound ha.quiet ha.steady

/-- **Types stay in a run on a graph whose calls have given all the evidence that they give.** -/
theorem Informed.parameter? (hi : g.Informed) (he : g.Enriched m g') :
    g'.parameter? = g.parameter? := by
  obtain ⟨g₀, hs, hr, ht⟩ := hi
  exact hr.types_eq hs ht he.types

/-! ## What readers see -/

/-- No node is new, and calls and their arguments are what they were, but for keywords and sentences. -/
structure CallsStay (g g' : Graph) : Prop where
  size : g'.size = g.size
  calls : g'.calls = g.calls
  call : ∀ h c, g.call h = .ok c → ∃ effective sentence, g'.call h = .ok { c with effective, sentence }
  argument : ∀ h a, g.argument h = .ok a → g'.argument h = .ok a

/-- Parameters have the types that they had. -/
def TypesStay (g g' : Graph) : Prop := ∀ h p, g.parameter h = .ok p → g'.parameter h = .ok p

theorem AtRest.callsStay (ha : g.AtRest) (he : g.Enriched m g') : g.CallsStay g' where
  size := (ha.rests he).retains.size ha.sound
  calls := by
    have hself : ∀ x : Graph, x.Relinked x := fun _ => ⟨rfl, rfl, rfl⟩
    rw [← calls_stripped, (ha.rests he).retains.stripped ha.sound (hself g) ha.sound ha.linked
      (hself g') he.after.sound he.linked, calls_stripped]
  call := by
    intro h c hc
    obtain ⟨effective, sentence, hy⟩ := (ha.rests he).state? (state?_call (content?_of_call hc))
    exact ⟨_, _, call_ok (state?_eq_some.1 hy).1⟩
  argument := fun h a harg =>
    argument_ok ((ha.rests he).argument? ha.sound (argument?_of_argument harg))

theorem Informed.typesStay (hi : g.Informed) (he : g.Enriched m g') : g.TypesStay g' := fun h p hp =>
  parameter_ok (by rw [hi.parameter? he, parameter?_of_parameter hp])

end Graph

/-! ## Documents -/

/-- The key and the value of a plain step. -/
def Content.said? (c : Content) : Option (String × Value) := c.plain?.map fun s => (s.key, s.value)

def WrittenStep.said? : WrittenStep → Option (String × Value)
  | .plain key value => some (key, value)
  | .call _ _ _ => none

theorem readsSteps_said : ReadsSteps Content.said? WrittenStep.said? where
  step := by
    intro place s
    cases s with
    | plain key value => rfl
    | call word keyword args =>
      have hargs : (args.map WrittenArgument.content).filterMap Content.said? = [] := by
        simp [WrittenArgument.content, Content.said?, Content.plain?]
      rw [WrittenStep.contents, List.filterMap_cons, hargs]
      rfl
  other := by
    rintro (_ | _ | _ | _ | _ | _ | _ | _) hcall hstep <;> first | rfl | exact absurd rfl hstep

namespace Design

variable {d : Design}

/-- No step is a sentence of an action word, and no parameter of an action word has a default. -/
structure Direct (d : Design) : Prop where
  quiet : ∀ key value, .plain key value ∈ d.steps → sentenceKeywords.contains key = true →
    ∀ name ∈ d.declared, Sentence.captures? name (Sentence.withoutKeyword value.display key) = none
  bare : ∀ w ∈ d.actionWords, ∀ p ∈ w.parameters, p.default = none

theorem Direct.quiet_graph (hd : d.Direct) : d.graph.Quiet := by
  intro h s hs hk
  have hm : (s.key, s.value) ∈ d.contents.filterMap Content.said? :=
    List.mem_filterMap.2 ⟨_, d.mem_contents (Graph.plain?_eq_some.1 hs), rfl⟩
  rw [filterMap_contents readsSteps_said] at hm
  obtain ⟨step, hstep, hsaid⟩ := List.mem_filterMap.1 hm
  cases step with
  | call => cases hsaid
  | plain key value =>
    cases hsaid
    rw [firstMatch?_eq_none, names_words]
    exact hd.quiet _ _ hstep hk

theorem allDefaultsFirst_graph (hd : ∀ w ∈ d.actionWords, DefaultsFirst w.parameters) :
    d.graph.AllDefaultsFirst := by
  intro name t ht
  obtain ⟨a, ha, hformals⟩ := exists_of_target? ht
  rw [hformals]
  exact hd a (List.mem_of_find?_eq_some ha)

/-- A document without sentences and defaults shows all evidence from the start. -/
theorem Direct.retains {m g' : Graph} (hd : d.Direct) (he : d.graph.Enriched m g') :
    d.graph.Retains g' := by
  refine he.retains d.graph_sound hd.quiet_graph fun name t ht => ?_
  obtain ⟨a, ha, hformals⟩ := exists_of_target? ht
  rw [writtenFormals, List.forall_mem_map]
  intro p hp
  refine hd.bare a (List.mem_of_find?_eq_some ha) p.2.written ?_
  rw [← hformals]
  exact List.mem_map_of_mem hp

end Design

/-- **A further run changes nothing**, if no parameter with a default has the name of one before it: no
node is new, and calls and arguments stay. Types stay from the second run on, and from the first one on
if the document has neither sentences that are calls nor defaults. -/
theorem reruns_rest {text : String} {strict : Bool} {d : Design} {g : Graph}
    (ht : Design.ofText text = .ok d) (hg : Design.readGraph text strict = .ok g)
    (hd : ∀ w ∈ d.actionWords, DefaultsFirst w.parameters) (r : Report) {n : Nat} (hn : 1 ≤ n) :
    Ensures (enrichTimes n) ⟨g, r⟩ fun _ s => Ensures enrich s fun _ t =>
      s.graph.CallsStay t.graph ∧ (2 ≤ n ∨ d.Direct → s.graph.TypesStay t.graph) := by
  obtain ⟨d', ht', rfl⟩ := Design.exists_of_readGraph hg
  cases ht.symm.trans ht'
  obtain ⟨n, rfl⟩ := Nat.exists_eq_add_of_le' hn
  rw [enrichTimes, Work.ensures_bind]
  refine (Graph.ensures_enrich d.graph_sound).mono ?_
  rintro - ⟨g₁, r₁⟩ ⟨m, he⟩
  have hrest := he.atRest (Design.allDefaultsFirst_graph hd)
  have hsuffices : Ensures (enrichTimes n) ⟨g₁, r₁⟩ fun _ s =>
      s.graph.AtRest ∧ (2 ≤ n + 1 ∨ d.Direct → s.graph.Informed) := by
    cases n with
    | zero =>
      refine Work.ensures_pure.2 ⟨hrest, fun h => ?_⟩
      exact he.informed d.graph_sound ((h.resolve_left (by omega)).retains he)
    | succ n =>
      -- from the second run on the graph before has shown the same evidence
      rw [enrichTimes, Work.ensures_bind]
      refine (Graph.ensures_enrich hrest.sound).mono ?_
      rintro - ⟨g₂, r₂⟩ ⟨m₂, he₂⟩
      refine (Graph.ensures_enrichTimes (fun g => g.AtRest ∧ g.Informed) he₂.after.sound
        ⟨he₂.atRest hrest.defaults, he₂.informed hrest.sound (hrest.rests he₂).retains⟩
        (fun g g' m _ h he => ⟨he.atRest h.1.defaults,
          he.informed h.1.sound (h.1.rests he).retains⟩) n).mono ?_
      exact fun _ s h => ⟨h.2.1, fun _ => h.2.2⟩
  refine hsuffices.mono ?_
  rintro - ⟨g', r'⟩ ⟨hrest', hinformed⟩
  refine (Graph.ensures_enrich hrest'.sound).mono ?_
  rintro - ⟨g'', r''⟩ ⟨m', he'⟩
  exact ⟨hrest'.callsStay he', fun h => (hinformed h).typesStay he'⟩

theorem reruns_of_sample :
    (Design.ofText Design.sampleText = .ok Design.sample ∧
      Design.readGraph Design.sampleText true = .ok Design.sample.graph ∧
      (∀ w ∈ Design.sample.actionWords, DefaultsFirst w.parameters) ∧ 1 ≤ 2) ∧
    Ensures (enrichTimes 2) ⟨Design.sample.graph, {}⟩ fun _ s => Ensures enrich s fun _ t =>
      s.graph.CallsStay t.graph ∧ (2 ≤ 2 ∨ Design.sample.Direct → s.graph.TypesStay t.graph) :=
  ⟨⟨Design.ofText_sample, Design.readGraph_sample, by decide, by decide⟩,
    reruns_rest Design.ofText_sample Design.readGraph_sample (by decide) {} (by decide)⟩

namespace Design

/-- A document in which the default of a parameter comes before the argument of a call, once it has
become an argument itself. -/
abbrev shiftingText : String := "<project><name>p</name>
  <scenarios><scenario><name>s</name><steps>
    <call><actionword>t</actionword></call>
    <call><actionword>t</actionword><arguments>
      <argument><name>x</name><value><stringliteral>abc</stringliteral></value></argument>
    </arguments></call>
  </steps></scenario></scenarios>
  <actionwords><actionword><name>t</name><parameters>
    <parameter><name>x</name><default><numericliteral>1</numericliteral></default></parameter>
  </parameters></actionword></actionwords>
  </project>"

/-- The design that it describes. -/
def shifting : Design where
  name := "p"
  description := ""
  scenarios := [{
    name := "s", uid := none, description := "", tags := [], parameters := [], rows := []
    steps := [.call "t" none [], .call "t" none [⟨some "x", .string "abc"⟩]] }]
  actionWords := [{
    name := "t", uid := none, description := "", tags := [], steps := []
    parameters := [{ name := "x", type := none, default := some (.numeric "1") }] }]

set_option maxRecDepth 4000 in
theorem ofText_shifting : ofText shiftingText = .ok shifting :=
  ofText_eq_ok (by decide +kernel)

/-- A document in which the second of two parameters of one name has a default. -/
abbrev twinText : String := "<project><name>p</name>
  <scenarios><scenario><name>s</name><steps>
    <call><actionword>t</actionword></call>
  </steps></scenario></scenarios>
  <actionwords><actionword><name>t</name><parameters>
    <parameter><name>x</name></parameter>
    <parameter><name>x</name><default><numericliteral>1</numericliteral></default></parameter>
  </parameters></actionword></actionwords>
  </project>"

/-- The design that it describes. -/
def twin : Design where
  name := "p"
  description := ""
  scenarios := [{
    name := "s", uid := none, description := "", tags := [], parameters := [], rows := []
    steps := [.call "t" none []] }]
  actionWords := [{
    name := "t", uid := none, description := "", tags := [], steps := []
    parameters := [{ name := "x", type := none, default := none },
      { name := "x", type := none, default := some (.numeric "1") }] }]

set_option maxRecDepth 4000 in
theorem ofText_twin : ofText twinText = .ok twin :=
  ofText_eq_ok (by decide +kernel)

end Design

/-- The work of two runs, with the workspace in between. -/
def enrichTwice : Work Workspace := do
  let _ ← enrich
  let s ← get
  let _ ← enrich
  return s

/-- Whether the type of a parameter differs between two graphs. -/
def Graph.typeDiffers (g g' : Graph) (h : Handle) : Bool :=
  match g.parameter h, g'.parameter h with
  | .ok p, .ok q => p.type != q.type
  | _, _ => false

theorem Graph.not_typesStay {g g' : Graph} {h : Handle} (hd : g.typeDiffers g' h = true) :
    ¬ g.TypesStay g' := by
  intro hstay
  unfold typeDiffers at hd
  split at hd
  · rename_i p q hp hq
    rw [hstay h p hp] at hq
    cases hq
    simp at hd
  · cases hd

/-- **A second run may change types and add nodes** where defaults compete with arguments, or with
parameters of their names. -/
theorem second_run_may_change :
    (Design.readGraph Design.shiftingText true = .ok Design.shifting.graph ∧
      Ensures (enrichTimes 1) ⟨Design.shifting.graph, {}⟩ fun _ s => Ensures enrich s fun _ t =>
        ¬ s.graph.TypesStay t.graph) ∧
    Design.readGraph Design.twinText true = .ok Design.twin.graph ∧
      Ensures (enrichTimes 1) ⟨Design.twin.graph, {}⟩ fun _ s => Ensures enrich s fun _ t =>
        t.graph.size ≠ s.graph.size := by
  have htypes : Ensures enrichTwice ⟨Design.shifting.graph, {}⟩ fun s t =>
      s.graph.typeDiffers t.graph 6 = true := Work.ensures_of_check (by decide +kernel)
  have hsize : Ensures enrichTwice ⟨Design.twin.graph, {}⟩ fun s t =>
      (t.graph.size != s.graph.size) = true := Work.ensures_of_check (by decide +kernel)
  simp only [enrichTwice, Work.ensures_bind, Work.ensures_get, Work.ensures_pure] at htypes hsize
  simp only [enrichTimes, Work.ensures_bind, Work.ensures_pure]
  refine ⟨⟨?_, htypes.mono fun _ s h => h.mono fun _ t ht => Graph.not_typesStay ht⟩, ?_,
    hsize.mono fun _ s h => h.mono fun _ t ht => by simpa using ht⟩
  · exact Design.readGraph_eq_ok.2 ⟨_, Design.ofText_shifting, fun _ => by decide, rfl⟩
  · exact Design.readGraph_eq_ok.2 ⟨_, Design.ofText_twin, fun _ => by decide, rfl⟩

end Actionbook
