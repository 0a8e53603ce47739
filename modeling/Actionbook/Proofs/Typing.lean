import Actionbook.Proofs.Evidence
import Actionbook.Proofs.Progress

/-!
# Typing a sound graph

Gathering the evidence for types reads calls, their parents and parameters only, all of which a sound
graph shows; so it gives a result on every sound graph, linked or not (`Sound.gatherEvidence_ok`). The
pass then writes types and nothing else, and reports the parameters that get none (`ensures_addTypes`).
-/

namespace Actionbook

open Work (Ensures)

namespace Graph

variable {g g' : Graph} {h : Handle} {r : Report}

namespace Sound

variable (hs : g.Sound)
include hs

/-- A parent link leads to a node. -/
theorem parentOf_ok (hh : h ∈ g.handles) : ∃ o, g.parentOf h = .ok o ∧
    o.map (·.1) = g.parent? h ∧ ∀ p n, o = some (p, n) → g.content? p = some n.content := by
  obtain ⟨c, hc⟩ := content?_of_mem hh
  simp only [parentOf, node_ok hc, bind, Except.bind]
  cases hp : g.parent? h with
  | none => exact ⟨none, rfl, rfl, fun p n e => by cases e⟩
  | some p =>
    obtain ⟨c', hc'⟩ := content?_of_mem (mem_handles_of_mem_kids (hs.honest h p hp))
    simp only [node_ok hc']
    refine ⟨_, rfl, rfl, fun q n e => ?_⟩
    cases e
    exact hc'

theorem variableType_ok (hh : h ∈ g.handles) (name : String) (e : Evidence) :
    ∃ t, variableType g h name e = .ok t := by
  obtain ⟨o, ho, -, hcont⟩ := hs.parentOf_ok hh
  simp only [variableType, ho, bind, Except.bind]
  rcases o with _ | ⟨p, n⟩
  · exact ⟨none, rfl⟩
  · cases hd : n.content.definition? with
    | none => exact ⟨none, by simp only [hd]; rfl⟩
    | some d =>
      have hdef : g.definition? p = some d := by
        rw [definition?, hcont p n rfl]
        exact hd
      simp only [hd, hs.parametersAt_ok hdef]
      split <;> exact ⟨_, rfl⟩

theorem argumentType_ok (hh : h ∈ g.handles) (value : Value) (e : Evidence) :
    ∃ t, argumentType g h value e = .ok t := by
  unfold argumentType
  split
  · exact hs.variableType_ok hh _ e
  · exact ⟨_, rfl⟩

theorem callEvidence_ok {index : List (String × Handle)}
    (hi : ∀ name, index.lookup name = g.target? name) {c : Call}
    (hc : g.content? h = some (.call c)) (e : Evidence) :
    ∃ e', callEvidence g index e h = .ok e' := by
  simp only [callEvidence, call_ok hc, bind, Except.bind]
  cases ht : index.lookup c.actionWord with
  | none => exact ⟨e, rfl⟩
  | some t =>
    rw [hi] at ht
    obtain ⟨w, -, -, -, hd⟩ := exists_of_target? ht
    simp only [hs.parametersOf_ok hd, hs.argumentsOf_ok hc]
    refine exists_foldlM (fun e a _ => ?_) e
    split
    · exact ⟨e, rfl⟩
    · obtain ⟨type, ht⟩ := hs.argumentType_ok (mem_handles_of_content? hc) a.1.2.value e
      simp only [ht]
      exact ⟨_, rfl⟩

theorem callsEvidence_ok (e : Evidence) : ∃ e', callsEvidence g e = .ok e' := by
  obtain ⟨index, hindex, hi⟩ := hs.actionWordIndex_ok
  obtain ⟨l, hl, -, hm⟩ := hs.calls_ok
  simp only [callsEvidence, hindex, hl, bind, Except.bind]
  refine exists_foldlM (fun e h hh => ?_) e
  obtain ⟨c, hc⟩ := (hm h).1 hh
  exact hs.callEvidence_ok hi hc e

theorem settle_ok (fuel : Nat) (e : Evidence) : ∃ e', settle g fuel e = .ok e' := by
  induction fuel generalizing e with
  | zero => exact ⟨e, rfl⟩
  | succ fuel ih =>
    obtain ⟨next, hn⟩ := hs.callsEvidence_ok e
    simp only [settle, hn, bind, Except.bind]
    split
    · exact ⟨e, rfl⟩
    · exact ih next

theorem tableEvidence_ok : ∃ e, tableEvidence g = .ok e := by
  simp only [tableEvidence, hs.scenarios_ok, bind, Except.bind]
  refine exists_foldlM (fun e s hm => ?_) []
  have hd := definition?_of_scenario? (mem_gather.1 hm).2
  simp only [hs.parametersAt_ok hd]
  exact ⟨_, rfl⟩

theorem gatherEvidence_ok (parameters : List (Handle × Parameter)) :
    ∃ e, gatherEvidence g parameters = .ok e := by
  obtain ⟨table, htable⟩ := hs.tableEvidence_ok
  obtain ⟨known, hknown⟩ := hs.settle_ok (g.size + 1) table
  simp only [gatherEvidence, htable, hknown, bind, Except.bind]
  split
  · exact ⟨known, rfl⟩
  · exact hs.settle_ok _ _

end Sound

/-! ## What is noted down -/

/-- The name of the node above a parameter, as warnings give it. -/
def ownerName (g : Graph) (h : Handle) : Data :=
  match ((g.parent? h).bind g.content?).bind Content.name? with
  | some name => .ofText? name
  | none => .text "?"

/-- The warning for a parameter without a type. -/
def untyped (g : Graph) (h : Handle) : List Warning :=
  match g.parameter? h with
  | some p =>
    if p.type.isNone then [⟨.untypedParameter p.name (g.ownerName h), some h⟩] else []
  | none => []

theorem exists_parameter_of_untyped (hdue : g.untyped h ≠ []) : ∃ p, g.parameter? h = some p := by
  cases hp : g.parameter? h with
  | none => simp [untyped, hp] at hdue
  | some p => exact ⟨p, rfl⟩

/-- Every parameter has the type that the evidence shows, and nothing else has changed. -/
structure Typed (g : Graph) (e : Evidence) (g' : Graph) : Prop extends Alike g g' where
  parameter : ∀ h, g'.parameter? h = (g.parameter? h).map fun p => { p with type := e.typeOf h p }

theorem Alike.ownerName (ha : g.Alike g') : g'.ownerName = g.ownerName := by
  have hname : ∀ x : Graph, ∀ k, (x.content? k).bind Content.name? =
      ((x.content? k).map Content.bare).bind Content.name? := by
    intro x k
    cases x.content? k with
    | none => rfl
    | some c => cases c <;> rfl
  funext k
  rw [Graph.ownerName, Graph.ownerName, ha.parent]
  cases g.parent? k with
  | none => rfl
  | some p => simp only [Option.bind_some, hname g', hname g, ha.bare]

/-- Whatever is read of the owner of a node is what is seen of its parent. -/
theorem Sound.exists_owner (hs : g.Sound) (hh : h ∈ g.handles) : ∃ o, g.parentOf h = .ok o ∧
    ∀ {α : Type} (view : Content → Option α),
      o.bind (fun p => view p.2.content) = ((g.parent? h).bind g.content?).bind view := by
  obtain ⟨o, ho, hp, hcont⟩ := hs.parentOf_ok hh
  refine ⟨o, ho, fun view => ?_⟩
  rw [← hp]
  cases o with
  | none => rfl
  | some o => simp only [Option.bind_some, Option.map_some, hcont o.1 o.2 rfl]

/-- Writing the type of a parameter does not show at other parameters. -/
theorem parameter?_setContent {p : Parameter} (hh : h ∈ g.handles) (k : Handle) :
    (g.setContent h (.parameter p)).parameter? k = if k = h then some p else g.parameter? k := by
  unfold parameter?
  rw [content?_setContent hh]
  split <;> rfl

/-- In the middle of typing: the parameters `done` have got their types. -/
structure Typing (g : Graph) (e : Evidence) (done : List Handle) (g' : Graph) : Prop
    extends Alike g g' where
  parameter : ∀ h, g'.parameter? h =
    if h ∈ done then (g.parameter? h).map fun p => { p with type := e.typeOf h p }
    else g.parameter? h

theorem Typing.step {e : Evidence} {done : List Handle} {p : Parameter}
    (ht : g.Typing e done g') (hp : g.parameter? h = some p) (hnot : h ∉ done) :
    g.Typing e (done ++ [h]) (g'.setContent h (.parameter { p with type := e.typeOf h p })) := by
  have hp' : g'.parameter? h = some p := by rw [ht.parameter, if_neg hnot, hp]
  have hc := content?_parameter.1 hp'
  refine ⟨ht.toAlike.trans (alike_setContent hc rfl), fun k => ?_⟩
  rw [parameter?_setContent (mem_handles_of_content? hc), ht.parameter]
  by_cases hk : k = h
  · subst hk
    simp [hp]
  · simp [hk]

theorem Typing.typed {e : Evidence} {done : List Handle} (ht : g.Typing e done g')
    (hdone : ∀ h p, g.parameter? h = some p → h ∈ done) : g.Typed e g' := by
  refine ⟨ht.toAlike, fun h => ?_⟩
  rw [ht.parameter]
  split
  · rfl
  · rename_i hnot
    cases hp : g.parameter? h with
    | none => rfl
    | some p => exact absurd (hdone h p hp) hnot

/-- What is reported of the parameters that have got their types stays. -/
theorem Typing.untyped_append {e : Evidence} {done : List Handle} {p : Parameter}
    (ht : g.Typing e done g') (hp : g.parameter? h = some p) (hnot : h ∉ done) :
    (done ++ [h]).flatMap (g'.setContent h (.parameter { p with type := e.typeOf h p })).untyped =
      done.flatMap g'.untyped ++ if (e.typeOf h p).isNone then [⟨.untypedParameter p.name
        ((g'.setContent h (.parameter { p with type := e.typeOf h p })).ownerName h), some h⟩]
      else [] := by
  have ht' := ht.step hp hnot
  have hh : h ∈ g'.handles := by
    refine mem_handles_of_content? (c := .parameter p) (content?_parameter.1 ?_)
    rw [ht.parameter, if_neg hnot, hp]
  have hframe : ∀ k ∈ done, (g'.setContent h
      (.parameter { p with type := e.typeOf h p })).untyped k = g'.untyped k := fun k hk => by
    have hne : k ≠ h := fun e => hnot (e ▸ hk)
    rw [untyped, untyped, parameter?_setContent hh, if_neg hne, ht'.toAlike.ownerName,
      ht.toAlike.ownerName]
  have hnew : (g'.setContent h (.parameter { p with type := e.typeOf h p })).parameter? h =
      some { p with type := e.typeOf h p } := by rw [parameter?_setContent hh, if_pos rfl]
  rw [List.flatMap_append, List.flatMap_congr hframe, List.flatMap_singleton, untyped, hnew]

/-- **Typing a sound graph** ends without a fault; it reports the parameters without a type. -/
theorem ensures_addTypes (hs : g.Sound) : Ensures addTypes ⟨g, r⟩ fun _ s =>
    (∃ e, g.evidence = .ok e ∧ g.Typed e s.graph) ∧
      r.Gains (s.graph.handles.flatMap s.graph.untyped) s.report := by
  obtain ⟨l, hl, hn, hm⟩ := hs.parameters_ok
  have hshown : ∀ h ∈ l, (g.parameter? h).isSome := fun h hh =>
    Option.isSome_iff_exists.2 ((hm h).1 hh)
  have hall : g.parametersAt l = .ok (gather g.parameter? l) :=
    getAll_ok (fun _ _ => parameter_ok) hshown
  have hfst : (gather g.parameter? l).map (·.1) = l := map_fst_gather hshown
  obtain ⟨e, he⟩ := hs.gatherEvidence_ok (gather g.parameter? l)
  unfold addTypes
  simp only [Work.ensures_bind, Work.ensures_read]
  refine ⟨_, by simp only [hl, bind, Except.bind]; exact hall, e, he, ?_⟩
  refine (Work.ensures_forM (fun done s => g.Typing e (done.map (·.1)) s.graph ∧
    r.Gains ((done.map (·.1)).flatMap s.graph.untyped) s.report) ?start ?step).mono ?finish
  case start => exact ⟨⟨.refl g, fun h => by simp⟩, .refl r⟩
  case step =>
    rintro done ⟨h, p⟩ rest ⟨g', r'⟩ hsplit ⟨ht, hgain⟩
    have hp : g.parameter? h = some p := by
      have hmem : (h, p) ∈ gather g.parameter? l := by
        rw [hsplit]
        exact List.mem_append_right _ List.mem_cons_self
      exact (mem_gather.1 hmem).2
    have hnot : h ∉ done.map (·.1) := by
      rw [← hfst, hsplit, List.map_append, List.map_cons] at hn
      exact fun hd => (List.nodup_append.1 hn).2.2 h hd h List.mem_cons_self rfl
    have ht' := ht.step hp hnot
    have hp' : g'.parameter? h = some p := by rw [ht.parameter, if_neg hnot, hp]
    have hdue := ht.untyped_append hp hnot
    simp only [List.map_append, List.map_singleton, Work.ensures_bind, Work.ensures_change,
      updateParameter_eq hp']
    split
    · rename_i hnone
      have hh := mem_handles_of_content? (content?_parameter.1 hp')
      obtain ⟨o, ho, hname⟩ := (ht'.toAlike.sound hs).exists_owner (h := h) (by
        rwa [handles_setContent])
      simp only [Work.ensures_bind, Work.ensures_read, Work.ensures_warn]
      refine ⟨o, ho, ht', ?_⟩
      rw [hdue, if_pos hnone, ownerName, hname Content.name?]
      exact hgain.trans (.warn r' _)
    · rename_i hsome
      refine Work.ensures_pure.2 ⟨ht', ?_⟩
      rw [hdue, if_neg hsome, List.append_nil]
      exact hgain
  case finish =>
    rintro _ s ⟨ht, hgain⟩
    rw [hfst] at ht hgain
    have htyped := ht.typed fun h p hp => (hm h).2 ⟨p, hp⟩
    have hevidence : g.evidence = .ok e := by
      simp only [evidence, hl, hall, bind, Except.bind]
      exact he
    refine ⟨⟨e, hevidence, htyped⟩,
      hgain.perm (perm_flatMap_of_support hn s.graph.nodup_handles fun h hdue => ?_)⟩
    obtain ⟨p, hp⟩ := exists_parameter_of_untyped hdue
    refine iff_of_true ((hm h).2 ?_) (mem_handles_of_content? (content?_parameter.1 hp))
    rw [htyped.parameter] at hp
    obtain ⟨q, hq, -⟩ := Option.map_eq_some_iff.1 hp
    exact ⟨q, hq⟩

end Graph

end Actionbook
