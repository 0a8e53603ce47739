import Actionbook.Proofs.Binding

/-!
# The progress of passes

`Graph.Follows g g'` holds between the graphs before and after every pass: what is written about
scenarios, action words and parameters stays, and the graph after the pass is sound. The two passes over
all calls go further (`Graph.Rebuilt`): nothing changes but the calls, each by a relation between what
it was and what it is.

* `ensures_forM_calls`: the loop over all calls, of which some have been gone through (`Graph.Visited`).
* `ensures_bindCalls`, `ensures_completeCalls`: what the two passes make of every call.
-/

namespace Actionbook

open Work (Ensures)

namespace Graph

/-- What every pass keeps. -/
structure Follows (g g' : Graph) : Prop where
  root : g'.root = g.root
  fixed : g'.fixed = g.fixed
  sound : g'.Sound
  linked : g.Linked → g'.Linked

/-- Only calls have changed, each as `P` says. -/
structure Rebuilt (P : CallState → CallState → Prop) (g g' : Graph) : Prop extends Follows g g' where
  formals : g'.formals = g.formals
  parameter : g'.parameter? = g.parameter?
  plain : g'.plain? = g.plain?
  state : ∀ h, Option.Rel P (g.state? h) (g'.state? h)

variable {g g' g'' : Graph} {h : Handle} {r : Report} {x y : CallState}

namespace Follows

theorem refl (hs : g.Sound) : g.Follows g := ⟨rfl, rfl, hs, id⟩

theorem trans (hf : g.Follows g') (hf' : g'.Follows g'') : g.Follows g'' :=
  ⟨hf'.root.trans hf.root, hf'.fixed.trans hf.fixed, hf'.sound, hf'.linked ∘ hf.linked⟩

theorem of_alike (hs : g.Sound) (ha : g.Alike g') : g.Follows g' :=
  ⟨ha.root, ha.fixed, ha.sound hs, ha.linked⟩

theorem of_becomes (hs : g.Sound) (hb : g.Becomes h y g') : g.Follows g' :=
  ⟨hb.reworked.root, hb.reworked.fixed hs, hb.sound, hb.reworked.linked⟩

variable (hf : g.Follows g')
include hf

theorem target? : g'.target? = g.target? := target?_congr hf.root hf.fixed

theorem definition? (h : Handle) : g'.definition? h = g.definition? h := definition?_congr hf.fixed

theorem steps : g'.steps = g.steps := steps_congr hf.root hf.fixed

end Follows

/-- Every call has come from a call. -/
theorem Rebuilt.exists_of_state? {P : CallState → CallState → Prop} (hb : g.Rebuilt P g')
    (hy : g'.state? h = some y) : ∃ x, g.state? h = some x ∧ P x y := by
  have hrel := hb.state h
  rw [hy] at hrel
  generalize g.state? h = o at hrel ⊢
  cases hrel with
  | some hxy => exact ⟨_, rfl, hxy⟩

/-- A call that is reworked into a call leaves all plain steps as they are. -/
theorem Becomes.plain? (hs : g.Sound) (hx : g.state? h = some x) (hb : g.Becomes h y g') :
    g'.plain? = g.plain? := by
  funext k
  by_cases e : k = h
  · rw [e, plain?_of_state? hx, plain?_of_state? hb.state]
  · exact hb.reworked.plain?_of_ne hs e

/-- The warnings that are due for calls, if `due` is what is due for one of them. -/
def overCalls (g : Graph) (due : Handle → CallState → List Warning) : List Warning :=
  g.steps.flatMap fun h => ((g.state? h).map (due h)).getD []

/-- What is due for calls may be collected from a list of all of them. -/
theorem Sound.perm_overCalls {due : Handle → CallState → List Warning} (hs : g.Sound)
    {l : List Handle} (hn : l.Nodup) (hl : ∀ h, h ∈ l ↔ ∃ x, g.state? h = some x) :
    (l.flatMap fun h => ((g.state? h).map (due h)).getD []).Perm (g.overCalls due) := by
  refine perm_flatMap_of_support hn hs.nodup_steps fun h hdue => ?_
  have hx : ∃ x, g.state? h = some x := by
    cases hx : g.state? h with
    | none => simp [hx] at hdue
    | some x => exact ⟨x, rfl⟩
  exact iff_of_true ((hl h).2 hx) (hs.mem_steps.2 (isStep_of_state? hx.choose_spec))

/-- The calls `done` have changed as `P` says, and nothing else has. -/
structure Visited (P : CallState → CallState → Prop) (g : Graph) (done : List Handle) (g' : Graph) : Prop
    extends Follows g g' where
  formals : g'.formals = g.formals
  parameter : g'.parameter? = g.parameter?
  plain : g'.plain? = g.plain?
  state : ∀ h ∈ done, Option.Rel P (g.state? h) (g'.state? h)
  left : ∀ h ∉ done, g'.state? h = g.state? h

namespace Visited

variable {P : CallState → CallState → Prop} {done : List Handle} (hv : Visited P g done g')
include hv

theorem visit (hnot : h ∉ done) (hx : g.state? h = some x) (hP : P x y) (hb : g'.Becomes h y g'') :
    Visited P g (done ++ [h]) g'' := by
  have hx' := (hv.left h hnot).trans hx
  have hframe : ∀ k ≠ h, g''.state? k = g'.state? k := fun k hne =>
    hb.reworked.state?_of_ne hv.sound hne
  exact {
    toFollows := hv.toFollows.trans (.of_becomes hv.sound hb)
    formals := (hb.reworked.formals hv.sound).trans hv.formals
    parameter := (funext (hb.reworked.parameter? hv.sound)).trans hv.parameter
    plain := (hb.plain? hv.sound hx').trans hv.plain
    state := fun k hk => by
      by_cases e : k = h
      · subst e
        rw [hx, hb.state]
        exact .some hP
      · rw [hframe k e]
        exact hv.state k ((List.mem_append.1 hk).resolve_right (by simpa using e))
    left := fun k hk => by
      rw [List.mem_append, not_or, List.mem_singleton] at hk
      rw [hframe k hk.2]
      exact hv.left k hk.1 }

theorem rebuilt (hdone : ∀ h x, g.state? h = some x → h ∈ done) : g.Rebuilt P g' where
  toFollows := hv.toFollows
  formals := hv.formals
  parameter := hv.parameter
  plain := hv.plain
  state := fun h => by
    by_cases hh : h ∈ done
    · exact hv.state h hh
    · have hnone : g.state? h = none :=
        Option.eq_none_iff_forall_ne_some.2 fun x hx => hh (hdone h x hx)
      rw [hv.left h hh, hnone]
      exact .none

end Visited

/-- **Going through all calls**, with an invariant of those that have been gone through. -/
theorem ensures_forM_calls {f : Handle → Work Unit} {P : CallState → CallState → Prop}
    (inv : List Handle → Workspace → Prop) (hs : g.Sound) {l : List Handle} (hl : g.calls = .ok l)
    (start : inv [] ⟨g, r⟩)
    (step : ∀ done h x s, h ∉ done → g.state? h = some x → Visited P g done s.graph → inv done s →
      Ensures (f h) s fun _ t => ∃ y, P x y ∧ s.graph.Becomes h y t.graph ∧ inv (done ++ [h]) t) :
    Ensures (l.forM f) ⟨g, r⟩ fun _ s => g.Rebuilt P s.graph ∧ inv l s := by
  obtain ⟨_, hcalls, hn, hm⟩ := hs.calls_ok
  cases hl.symm.trans hcalls
  have hstart : Visited P g [] g := ⟨.refl hs, rfl, rfl, rfl, nofun, fun _ _ => rfl⟩
  refine (Work.ensures_forM (fun done s => Visited P g done s.graph ∧ inv done s) ⟨hstart, start⟩
    ?step).mono ?finish
  case step =>
    rintro done h rest s rfl ⟨hv, hinv⟩
    have hnot : h ∉ done := fun hmem =>
      (List.nodup_append.1 hn).2.2 h hmem h List.mem_cons_self rfl
    obtain ⟨c, hc⟩ := (hm h).1 (List.mem_append_right _ List.mem_cons_self)
    have hx := state?_call hc
    refine (step done h _ s hnot hx hv hinv).mono ?_
    rintro _ t ⟨y, hP, hb, hinv'⟩
    exact ⟨hv.visit hnot hx hP hb, hinv'⟩
  case finish =>
    rintro _ s ⟨hv, hinv⟩
    exact ⟨hv.rebuilt fun h x hx => (hm h).2 ⟨_, (state?_eq_some.1 hx).1⟩, hinv⟩

/-- **A pass over all calls** that does to each of them what `P` says, and reports what is due for what
it has made of them. -/
theorem ensures_forCalls {f : Handle → Work Unit} {P : CallState → CallState → Prop}
    {due : Handle → CallState → List Warning} (hs : g.Sound)
    (step : ∀ g' r h x, g.Follows g' → g'.formals = g.formals → g'.state? h = some x →
      Ensures (f h) ⟨g', r⟩ fun _ s =>
        ∃ y, P x y ∧ g'.Becomes h y s.graph ∧ r.Gains (due h y) s.report) :
    Ensures (do (← Work.read Graph.calls).forM f) ⟨g, r⟩ fun _ s =>
      g.Rebuilt P s.graph ∧ r.Gains (s.graph.overCalls due) s.report := by
  obtain ⟨l, hl, hn, hm⟩ := hs.calls_ok
  let dueFor (g' : Graph) (h : Handle) : List Warning := ((g'.state? h).map (due h)).getD []
  simp only [Work.ensures_bind, Work.ensures_read]
  refine ⟨l, hl, (ensures_forM_calls (P := P)
    (fun done s => r.Gains (done.flatMap (dueFor s.graph)) s.report) hs hl (.refl r) ?step).mono ?finish⟩
  case step =>
    rintro done h x ⟨g', r'⟩ hnot hx hv hgain
    refine (step g' r' h x hv.toFollows hv.formals ((hv.left h hnot).trans hx)).mono ?_
    rintro _ ⟨g'', r''⟩ ⟨y, hP, hb, hgain'⟩
    refine ⟨y, hP, hb, (hgain.trans hgain').perm (.of_eq ?_)⟩
    have hstay : ∀ k ∈ done, dueFor g'' k = dueFor g' k := fun k hk => by
      simp only [dueFor, hb.reworked.state?_of_ne hv.sound fun e => hnot (e ▸ hk)]
    have hown : dueFor g'' h = due h y := by
      simp only [dueFor, hb.state, Option.map_some, Option.getD_some]
    rw [List.flatMap_append, List.flatMap_singleton, List.flatMap_congr hstay, hown]
  case finish =>
    rintro _ s ⟨hr, hgain⟩
    refine ⟨hr, hgain.perm (hr.sound.perm_overCalls hn fun h => (hm h).trans ⟨?_, ?_⟩)⟩
    · rintro ⟨c, hc⟩
      have hrel := hr.state h
      rw [state?_call hc] at hrel
      cases hy : s.graph.state? h with
      | none => rw [hy] at hrel; cases hrel
      | some y => exact ⟨y, rfl⟩
    · rintro ⟨y, hy⟩
      obtain ⟨x, hx, -⟩ := hr.exists_of_state? hy
      exact ⟨_, (state?_eq_some.1 hx).1⟩

/-- **Binding all calls.** -/
theorem ensures_bindCalls (hs : g.Sound) : Ensures bindCalls ⟨g, r⟩ fun _ s =>
    g.Rebuilt (fun x y => y = x.bindTo g.formals (g.target? x.call.actionWord)) s.graph ∧
      r.Gains (s.graph.overCalls CallState.unresolved) s.report := by
  obtain ⟨index, hi, hlookup⟩ := hs.actionWordIndex_ok
  unfold bindCalls
  rw [Work.ensures_bind, Work.ensures_read]
  refine ⟨index, hi, ensures_forCalls hs fun g' r h x hf hform hx => ?_⟩
  refine (ensures_bindCall hf.sound hx fun t ht => ?_).mono fun _ s hb => ?_
  · rw [hlookup, ← hf.target?] at ht
    exact kind?_of_target? ht
  · rw [hlookup, hform] at hb
    exact ⟨_, rfl, hb⟩

/-- **Completing all calls.** -/
theorem ensures_completeCalls (hs : g.Sound) : Ensures completeCalls ⟨g, r⟩ fun _ s =>
    g.Rebuilt (CallState.Completed g.formals) s.graph ∧
      r.Gains (s.graph.overCalls (CallState.missing g.formals)) s.report := by
  unfold completeCalls
  refine ensures_forCalls hs fun g' r h x hf hform hx => ?_
  rw [← hform]
  exact ensures_completeCall hf.sound hx

end Graph

end Actionbook
