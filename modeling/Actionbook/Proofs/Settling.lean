import Actionbook.Proofs.Runs

/-!
# Calls after enrichment

`CallState.Settled` says what a call is whose action word is known, `CallState.Unknown` what one is
whose action word is not. After a run every call is the one or the other, whatever the graph was before
(`Enriched.finished`); after the first run every argument that stands for a default stands where no
argument was written (`Enriched.filled`).

* `calls_after_enrichment`: every call of a graph that is read and enriched.
-/

namespace Actionbook

open Work (Ensures)

/-! ## Arguments in the order of their parameters -/

section
variable {parameters : List Handle} {args : List (Handle × Argument)} {e : Handle × Argument}
  {p : Handle}

theorem Bound.parameter_isNone (hb : Bound parameters args) (he : e ∈ args) :
    e.2.parameter.isNone = e.2.unresolved := by
  rcases hb.flagged e he with ⟨hu, q, -, hq⟩ | ⟨hu, hq⟩ <;> simp [hu, hq]

/-- The arguments that are bound are those found for the parameters. -/
theorem perm_front (hn : parameters.Nodup) (hb : Bound parameters args)
    (hargs : (args.map (·.1)).Nodup) :
    (parameters.filterMap (argumentFor? args)).Perm (args.filter (!·.2.unresolved)) := by
  refine (List.perm_ext_iff_of_nodup ?left (List.Nodup.filter _ (.of_map _ hargs))).2 fun e => ?_
  case left =>
    refine List.Nodup.filterMap (fun p q e hp hq => ?_) hn
    have := (argumentFor?_some hp).2.symm.trans (argumentFor?_some hq).2
    exact Option.some.inj this
  rw [List.mem_filterMap, List.mem_filter]
  constructor
  · rintro ⟨p, -, hp⟩
    obtain ⟨he, hep⟩ := argumentFor?_some hp
    exact ⟨he, by simp [← hb.parameter_isNone he, hep]⟩
  · rintro ⟨he, hu⟩
    rcases hb.flagged e he with ⟨-, p, hp, hep⟩ | ⟨hu', -⟩
    · exact ⟨p, hp, hb.argumentFor? he hep⟩
    · simp [hu'] at hu

theorem pairwise_front (hn : parameters.Nodup) (args : List (Handle × Argument)) :
    (parameters.filterMap (argumentFor? args)).Pairwise fun e e' =>
      placeOf parameters e < placeOf parameters e' := by
  have hidx : parameters.Pairwise fun p q => parameters.idxOf p < parameters.idxOf q := by
    rw [List.pairwise_iff_getElem]
    intro i j hi hj hij
    rw [hn.idxOf_getElem i hi, hn.idxOf_getElem j hj]
    exact hij
  refine hidx.filterMap _ fun p q hpq e he e' he' => ?_
  rw [placeOf, placeOf, (argumentFor?_some he).2, (argumentFor?_some he').2]
  exact hpq

theorem Bound.nodup_parameters (hb : Bound parameters args) :
    (args.filterMap (·.2.parameter)).Nodup := by
  refine List.Pairwise.filterMap _ (fun e e' hne p hp q hq => ?_) hb.once
  rintro rfl
  exact hne p hp hq

/-- No other argument is bound to the parameter of an argument. -/
theorem Bound.filter_eq (hb : Bound parameters args) (he : e ∈ args)
    (hp : e.2.parameter = some p) : args.filter (fun d => d.2.parameter == some p) = [e] := by
  obtain ⟨before, after, rfl⟩ := List.append_of_mem he
  obtain ⟨-, honce, hbefore⟩ := List.pairwise_append.1 hb.once
  have h1 : before.filter (fun d => d.2.parameter == some p) = [] := by
    refine List.filter_eq_nil_iff.2 fun d hd => ?_
    simpa using fun hd' => hbefore d hd e List.mem_cons_self p hd' hp
  have h2 : after.filter (fun d => d.2.parameter == some p) = [] := by
    refine List.filter_eq_nil_iff.2 fun d hd => ?_
    simpa using (List.pairwise_cons.1 honce).1 d hd p hp
  simp [h1, h2, hp]

end

/-! ## What a call is in the end -/

namespace CallState

variable {formals : Handle → List (Handle × Parameter)} {target : Option Handle} {x y : CallState}

/-- A call of the action word `t` with the parameters `formals`. -/
structure Settled (t : Handle) (formals : List (Handle × Parameter)) (x : CallState) : Prop where
  resolved : x.call.resolved = some true
  target : x.call.target = some t
  /-- Every argument is bound to one of the parameters or flagged, and no two to the same one. -/
  bound : Bound (formals.map (·.1)) x.arguments
  defaults : ∀ p ∈ formals, p.2.default.isSome →
    ∃ e, x.arguments.filter (fun d => d.2.parameter == some p.1) = [e]
  permuted : x.call.ordered.Perm x.call.arguments
  /-- The bound ones in the order of the parameters, then those that are flagged. -/
  ordered : ∃ front, x.call.ordered = (front ++ x.arguments.filter (·.2.unresolved)).map (·.1) ∧
    front.Perm (x.arguments.filter (!·.2.unresolved)) ∧
    front.Pairwise fun e e' => placeOf (formals.map (·.1)) e < placeOf (formals.map (·.1)) e'

/-- A call of something that is no action word. -/
structure Unknown (x : CallState) : Prop where
  resolved : x.call.resolved = some false
  target : x.call.target = none
  unbound : ∀ e ∈ x.arguments, e.2.parameter = none ∧ e.2.unresolved = false
  ordered : x.call.ordered = x.call.arguments

/-- A call after enrichment, if its action word is `target`. -/
def Finished (formals : Handle → List (Handle × Parameter)) (target : Option Handle)
    (x : CallState) : Prop :=
  match target with
  | some t => x.Settled t (formals t)
  | none => x.Unknown

/-- A call that is bound and may be completed. -/
def Ready (formals : Handle → List (Handle × Parameter)) (target : Option Handle)
    (x : CallState) : Prop :=
  match target with
  | some t => x.call.resolved = some true ∧ x.call.target = some t ∧
      Bound ((formals t).map (·.1)) x.arguments
  | none => x.Unknown

theorem ready_bindTo (x : CallState) : (x.bindTo formals target).Ready formals target := by
  cases target with
  | some t => exact ⟨rfl, rfl, assign_bound 0 [] x.arguments⟩
  | none =>
    refine ⟨rfl, rfl, fun e he => ?_, rfl⟩
    obtain ⟨d, -, rfl⟩ := List.mem_map.1 he
    exact ⟨rfl, rfl⟩

theorem Ready.target_eq {t : Handle} (hx : x.Ready formals target) (ht : x.call.target = some t) :
    target = some t := by
  cases target with
  | some t' => exact hx.2.1.symm.trans ht
  | none =>
    have hx : x.Unknown := hx
    rw [hx.target] at ht
    cases ht

theorem Ready.retyped (hx : x.Ready formals target) (g : Graph) :
    (x.retyped g).Ready formals target := by
  cases target with
  | some t => exact ⟨hx.1, hx.2.1, hx.2.2.map g.parameter_retyped g.unresolved_retyped⟩
  | none =>
    refine ⟨hx.resolved, hx.target, fun e he => ?_, hx.ordered⟩
    obtain ⟨d, hd, rfl⟩ := List.mem_map.1 he
    rw [g.parameter_retyped, g.unresolved_retyped]
    exact hx.unbound d hd

theorem Completed.finished (hc : x.Completed formals y) (hx : x.Ready formals target)
    (hn : ∀ t, target = some t → ((formals t).map (·.1)).Nodup)
    (hfull : y.arguments.map (·.1) = y.call.arguments) (hargs : y.call.arguments.Nodup) :
    y.Finished formals target := by
  cases target with
  | none =>
    have hx : x.Unknown := hx
    obtain ⟨-, rfl⟩ | ⟨t, new, hr, -⟩ := hc.cases
    · exact hx
    · rw [hx.resolved] at hr
      cases hr
  | some t =>
    obtain ⟨hr, ht, hb⟩ := hx
    obtain ⟨hnone, rfl⟩ | ⟨t', new, -, ht', hnew, rfl⟩ := hc.cases
    · rw [hnone hr] at ht
      cases ht
    · rw [ht] at ht'
      cases ht'
      have hbound := hb.complete (hn t rfl) hnew
      have hnodup : ((x.arguments ++ new).map (·.1)).Nodup := hfull ▸ hargs
      have hfront := perm_front (hn t rfl) hbound hnodup
      have hback : (x.arguments ++ new).filter (·.2.parameter.isNone) =
          (x.arguments ++ new).filter (·.2.unresolved) :=
        List.filter_congr fun e he => hbound.parameter_isNone he
      refine ⟨hr, ht, hbound, fun p hp hd => ?_, ?_, ⟨_, ?_, hfront, pairwise_front (hn t rfl) _⟩⟩
      · obtain ⟨e, he, hep⟩ := exists_argument_of_default hnew hp hd
        exact ⟨e, hbound.filter_eq he hep⟩
      · rw [← hfull]
        -- the bound arguments in front and the flagged ones behind are all there are
        refine List.Perm.map _ ?_
        rw [aligned, hback]
        exact ((hfront.append_right _).trans List.perm_append_comm).trans
          (List.filter_append_perm _ _)
      · simp only [extend, aligned, hback]

theorem Finished.annotated {effective : Option String} {sentence : String}
    (hy : y.Finished formals target) : (y.annotated effective sentence).Finished formals target := by
  cases target with
  | some t => exact ⟨hy.resolved, hy.target, hy.bound, hy.defaults, hy.permuted, hy.ordered⟩
  | none => exact ⟨hy.resolved, hy.target, hy.unbound, hy.ordered⟩

/-! ## The arguments that stand for defaults -/

/-- Every argument that stands for a default is the one of a parameter for which none was written. -/
def Filled (formals : List (Handle × Parameter)) (args : List (Handle × Argument)) : Prop :=
  ∀ e ∈ args, e.2.synthesized = true → ∃ p ∈ formals, e.2.parameter = some p.1 ∧
    e.2.name = some p.2.name ∧ p.2.default = some e.2.value ∧
    ∀ e' ∈ args, e'.2.synthesized = false → e'.2.parameter ≠ some p.1

/-- No argument stands for a default. -/
def Explicit (x : CallState) : Prop := ∀ e ∈ x.arguments, e.2.synthesized = false

theorem Explicit.filled (hx : x.Explicit) (formals : List (Handle × Parameter)) :
    Filled formals x.arguments := fun e he hs => by
  rw [hx e he] at hs
  cases hs

theorem Explicit.bindTo (hx : x.Explicit) (formals : Handle → List (Handle × Parameter))
    (target : Option Handle) : (x.bindTo formals target).Explicit := by
  intro e he
  have hm : (e.1, e.2.cleared) ∈ x.arguments.map fun e => (e.1, e.2.cleared) := by
    rw [← x.map_cleared_bindTo formals target]
    exact List.mem_map_of_mem he
  obtain ⟨d, hd, hde⟩ := List.mem_map.1 hm
  rw [← hx d hd]
  exact (congrArg (fun c : Handle × Argument => c.2.synthesized) hde).symm

theorem Explicit.retyped (hx : x.Explicit) (g : Graph) : (x.retyped g).Explicit := by
  intro e he
  obtain ⟨d, hd, rfl⟩ := List.mem_map.1 he
  rw [g.synthesized_retyped]
  exact hx d hd

theorem Completed.filled (hc : x.Completed formals y) (hx : x.Explicit)
    (hr : x.Ready formals target) :
    Filled ((target.map formals).getD []) y.arguments := by
  obtain ⟨-, rfl⟩ | ⟨t, new, hres, ht, hnew, rfl⟩ := hc.cases
  · exact hx.filled _
  have htarget := hr.target_eq ht
  subst htarget
  intro e he hs
  rcases List.mem_append.1 he with he | he
  · rw [hx e he] at hs
    cases hs
  · obtain ⟨p, hp, hfree, value, hv, heq⟩ := exists_default_of_mem hnew he
    refine ⟨p, hp, by rw [heq]; rfl, by rw [heq]; rfl, by rw [heq]; exact hv,
      fun d hd hds hdp => ?_⟩
    rcases List.mem_append.1 hd with hd | hd
    · exact hfree (List.mem_filterMap.2 ⟨d, hd, hdp⟩)
    · obtain ⟨q, -, -, value', -, heq'⟩ := exists_default_of_mem hnew hd
      rw [heq'] at hds
      cases hds

end CallState

/-! ## Runs -/

namespace Graph

variable {g g' m : Graph} {h : Handle} {last : Option String} {σ : StepState}
  {x y z : CallState}

theorem explicit_start {captured : List (String × String)} {args : List (Handle × Argument)}
    (hcaptured : args.map (·.2) = captured.map capturedArgument) (name key : String) :
    (CallState.start name key args).Explicit := by
  intro e he
  have hm : e.2 ∈ captured.map capturedArgument := hcaptured ▸ List.mem_map_of_mem he
  obtain ⟨c, -, hce⟩ := List.mem_map.1 hm
  rw [← hce]
  rfl

/-- What binding makes of a call; the call of a sentence is given types as well. -/
inductive Binds (g : Graph) (x : CallState) : CallState → Prop
  | plain : Binds g x (x.bindTo g.formals (g.target? x.call.actionWord))
  | retyped : Binds g x ((x.bindTo g.formals (g.target? x.call.actionWord)).retyped g)

theorem Binds.ready (hb : g.Binds x y) : y.Ready g.formals (g.target? x.call.actionWord) := by
  cases hb with
  | plain => exact CallState.ready_bindTo x
  | retyped => exact (CallState.ready_bindTo x).retyped g

theorem Binds.explicit (hb : g.Binds x y) (hx : x.Explicit) : y.Explicit := by
  cases hb with
  | plain => exact hx.bindTo _ _
  | retyped => exact (hx.bindTo _ _).retyped g

/-- Every call after a run has been bound, completed and annotated. It was there before, or its
arguments have been captured from a sentence. -/
theorem Enriches.exists_completed (he : m.Enriches last σ (.call z)) :
    ∃ x x' y effective sentence,
      (σ = .call x ∨ x.Explicit ∧ x.arguments.map (·.1) = x.call.arguments) ∧
      x.call.actionWord = z.call.actionWord ∧ m.Binds x x' ∧ CallState.Completed m.formals x' y ∧
      z = y.annotated effective sentence := by
  cases he with
  | placed hk hm hy =>
    rename_i s word texts y sentence
    have hw : y.call.actionWord = word.2.name := hy.actionWord
    obtain ⟨args, hcaptured, hc⟩ := hy
    exact ⟨_, _, y, _, sentence, .inr ⟨explicit_start hcaptured word.2.name s.key, rfl⟩, hw.symm,
      .retyped, hc, rfl⟩
  | call hc =>
    rename_i x y sentence
    have hw : y.call.actionWord = x.call.actionWord :=
      hc.actionWord.trans (CallState.actionWord_bindTo _ _ _)
    exact ⟨x, _, y, _, sentence, .inl rfl, hw.symm, .plain, hc, rfl⟩

theorem Enriches.finished (hs : m.Sound) (he : m.Enriches last σ (.call z))
    (hfull : z.arguments.map (·.1) = z.call.arguments) (hargs : z.call.arguments.Nodup) :
    z.Finished m.formals (m.target? z.call.actionWord) := by
  obtain ⟨x, x', y, effective, sentence, -, hw, hbinds, hc, rfl⟩ := he.exists_completed
  have hready := hbinds.ready
  rw [hw] at hready
  exact (hc.finished hready (fun t => hs.nodup_target) hfull hargs).annotated

theorem Enriches.filled (he : m.Enriches last σ (.call z))
    (hx : ∀ x, σ = .call x → x.Explicit) :
    CallState.Filled (((m.target? z.call.actionWord).map m.formals).getD []) z.arguments := by
  obtain ⟨x, x', y, effective, sentence, hfrom, hw, hbinds, hc, rfl⟩ := he.exists_completed
  have hready := hbinds.ready
  rw [hw] at hready
  exact hc.filled (hbinds.explicit (hfrom.elim (hx x) And.left)) hready

/-- **Every call after a run** on whatever graph. -/
theorem Enriched.finished (he : g.Enriched m g') (hz : g'.state? h = some z) :
    z.Finished g'.formals (g'.target? z.call.actionWord) := by
  obtain ⟨last, σ, -, hstep⟩ := he.exists_step (isStep_of_state? hz) (step?_call hz)
  have hs' := he.after.sound
  rw [he.formals, he.after.target?]
  refine hstep.finished he.before.sound (hs'.map_fst_of_state? hz) ?_
  rw [← hs'.map_fst_of_state? hz]
  exact hs'.nodup_of_state? hz

theorem Enriched.filled (he : g.Enriched m g') (hg : ∀ k x, g.state? k = some x → x.Explicit)
    (hz : g'.state? h = some z) :
    CallState.Filled (((g'.target? z.call.actionWord).map g'.formals).getD []) z.arguments := by
  obtain ⟨last, σ, hσ, hstep⟩ := he.exists_step (isStep_of_state? hz) (step?_call hz)
  rw [he.formals, he.after.target?]
  refine hstep.filled fun x hx => ?_
  subst hx
  exact hg h x (state?_of_step? hσ)

/-- What readers see of the calls of a graph; `first` if it has been enriched only once. -/
def CallsFinished (g : Graph) (first : Prop) : Prop :=
  ∃ visits words, g.walk = .ok visits ∧ g.actionWords = .ok words ∧
    ∀ h ∈ visits, ∀ c, g.call h = .ok c → ∃ args, g.argumentsOf c = .ok args ∧
      c.resolved = some (words.any (·.2.name == c.actionWord)) ∧
      match words.find? (·.2.name == c.actionWord) with
      | some (t, w) => ∃ formals, g.parametersAt w.parameters = .ok formals ∧
          CallState.Settled t formals ⟨c, args⟩ ∧ (first → CallState.Filled formals args)
      | none => CallState.Unknown ⟨c, args⟩ ∧ (first → CallState.Explicit ⟨c, args⟩)

/-- What is read of a node is seen of its content. -/
theorem exists_of_get {α : Type} {expected : NodeKind} {view : Content → Option α} {a : α}
    (ha : g.get h expected view = .ok a) : ∃ c, g.content? h = some c ∧ view c = some a := by
  unfold get at ha
  cases hn : g.node h with
  | error e => simp [hn, bind, Except.bind] at ha
  | ok n =>
    refine ⟨n.content, content?_of_node hn, ?_⟩
    simp only [hn, bind, Except.bind] at ha
    split at ha
    · rename_i hv
      cases ha
      exact hv
    · cases ha

theorem content?_of_call {c : Call} (hc : g.call h = .ok c) : g.content? h = some (.call c) := by
  obtain ⟨d, hd, hv⟩ := exists_of_get hc
  cases d <;> cases hv
  exact hd

theorem argument?_of_argument {a : Argument} (ha : g.argument h = .ok a) : g.argument? h = some a := by
  obtain ⟨c, hc, hv⟩ := exists_of_get ha
  exact Option.bind_eq_some_iff.2 ⟨c, hc, hv⟩

theorem parameter?_of_parameter {p : Parameter} (hp : g.parameter h = .ok p) :
    g.parameter? h = some p := by
  obtain ⟨c, hc, hv⟩ := exists_of_get hp
  exact Option.bind_eq_some_iff.2 ⟨c, hc, hv⟩

/-- What is known of the calls of a sound graph is what readers see. -/
theorem Sound.callsFinished {first : Prop} (hs : g.Sound)
    (hfin : ∀ h z, g.state? h = some z → z.Finished g.formals (g.target? z.call.actionWord))
    (hfill : first → ∀ h z, g.state? h = some z →
      CallState.Filled (((g.target? z.call.actionWord).map g.formals).getD []) z.arguments) :
    g.CallsFinished first := by
  obtain ⟨visits, hw, -⟩ := hs.walk_ok
  refine ⟨visits, g.words, hw, hs.actionWords_ok, fun h _ c hc => ?_⟩
  have hc' := content?_of_call hc
  have hz := state?_call hc'
  have h1 := hfin h _ hz
  have h2 := fun hf => hfill hf h _ hz
  have hany : g.words.any (·.2.name == c.actionWord) = (g.target? c.actionWord).isSome := by
    rw [Bool.eq_iff_iff, target?, Option.isSome_map, List.find?_isSome, List.any_eq_true]
  refine ⟨g.arguments c, hs.argumentsOf_ok hc', ?_, ?_⟩
  · rw [hany]
    cases ht : g.target? c.actionWord with
    | some t =>
      rw [ht] at h1
      exact h1.resolved
    | none =>
      rw [ht] at h1
      exact h1.resolved
  · cases hf : g.words.find? (·.2.name == c.actionWord) with
    | some w =>
      obtain ⟨t, w⟩ := w
      have ht : g.target? c.actionWord = some t := by rw [target?, hf]; rfl
      have hd := definition?_of_actionWord? (mem_words (List.mem_of_find?_eq_some hf))
      rw [ht] at h1 h2
      exact ⟨g.formals t, hs.parametersAt_ok hd, h1, h2⟩
    | none =>
      have ht : g.target? c.actionWord = none := by rw [target?, hf]; rfl
      rw [ht] at h1 h2
      refine ⟨h1, fun hfirst e he => ?_⟩
      cases hsyn : e.2.synthesized with
      | false => rfl
      | true =>
        obtain ⟨p, hp, -⟩ := h2 hfirst e he hsyn
        cases hp

end Graph

/-- The calls of a graph that is read have no arguments but those that were written. -/
theorem Design.explicit_graph (d : Design) {h : Handle} {x : CallState}
    (hx : d.graph.state? h = some x) : x.Explicit := fun _ he =>
  d.raw (Graph.content?_argument.1 (Graph.argument?_of_state? hx he))

/-- **The calls of a graph that is read and enriched**, once or several times. -/
theorem calls_after_enrichment {text : String} {strict : Bool} {g : Graph}
    (hg : Design.readGraph text strict = .ok g) (r : Report) {n : Nat} (hn : 1 ≤ n) :
    Ensures (enrichTimes n) ⟨g, r⟩ fun _ s => s.graph.CallsFinished (n = 1) := by
  obtain ⟨d, -, rfl⟩ := Design.exists_of_readGraph hg
  obtain ⟨n, rfl⟩ := Nat.exists_eq_add_of_le' hn
  rw [enrichTimes, Work.ensures_bind]
  refine (Graph.ensures_enrich d.graph_sound).mono ?_
  rintro _ ⟨g₁, r₁⟩ ⟨m, he⟩
  have hfilled := fun h z => he.filled (h := h) (z := z) (fun k x => d.explicit_graph)
  cases n with
  | zero =>
    exact Work.ensures_pure.2 (he.after.sound.callsFinished (fun h z => he.finished)
      fun _ => hfilled)
  | succ n =>
    refine (Graph.ensures_enrichTimes (fun g => ∀ h z, g.state? h = some z →
      z.Finished g.formals (g.target? z.call.actionWord)) he.after.sound (fun h z => he.finished)
      (fun g g' m _ _ he h z => he.finished) (n + 1)).mono ?_
    rintro _ ⟨g', r'⟩ ⟨hf, hfin⟩
    -- nothing is claimed of defaults after further runs
    refine hf.sound.callsFinished hfin fun hone => ?_
    omega

theorem calls_of_sample : Design.readGraph Design.sampleText true = .ok Design.sample.graph ∧ 1 ≤ 1 ∧
    Ensures (enrichTimes 1) ⟨Design.sample.graph, {}⟩ fun _ s => s.graph.CallsFinished (1 = 1) :=
  ⟨Design.readGraph_sample, by decide,
    calls_after_enrichment Design.readGraph_sample {} (by decide)⟩

end Actionbook
