import Actionbook.Proofs.Runs

/-!
# The warnings of a run are an account of the graph

`Graph.warningsAt` tells from what readers see of a node which warnings are due for it: for a call that
names no action word, for each parameter of its action word without an argument, for an argument that
is bound to nothing, for a parameter without a type, and for a sentence that has stayed a plain step.
The five passes report at different times, and partly on what later passes change; still the warnings of
a run are those of the nodes in the end, no more and no less.

* `warnings_account_for_graph`: every run on a graph that is read.
-/

namespace Actionbook

open Work (Ensures)

namespace Graph

/-- The warnings that are due for a node. -/
def warningsAt (g : Graph) (h : Handle) : Except Fault (List Warning) := do
  match (← g.node h).content with
  | .call c =>
    match c.resolved, c.target with
    | some false, _ => return [⟨.unresolvedCall c.actionWord, some h⟩]
    | some true, some target =>
      let parameters ← g.parametersOf target
      let arguments ← g.argumentsOf c
      return (parameters.filter fun p => !arguments.any (·.2.parameter == some p.1)).map fun p =>
        ⟨.missingArgument c.actionWord p.2.name, some h⟩
    | _, _ => return []
  | .argument a =>
    if a.unresolved then
      let c := ((← g.parentOf h).bind (·.2.content.call?)).getD {}
      return [⟨.unresolvedArgument (a.label (c.arguments.idxOf h)) c.actionWord, some h⟩]
    else return []
  | .parameter p =>
    if p.type.isNone then
      let owner := (← g.parentOf h).bind (·.2.content.name?)
      return [⟨.untypedParameter p.name ((owner.map Data.ofText?).getD (.text "?")), some h⟩]
    else return []
  | .step s =>
    if sentenceKeywords.contains s.key then return [⟨.unmatchedSentence s.value.display, some h⟩]
    else return []
  | _ => return []

variable {g g' : Graph} {h k : Handle} {r : Report} {x : CallState}

/-! ## The warnings of a single node -/

/-- The warnings for a step itself, without those for the arguments of a call. -/
def stepDue (g : Graph) (h : Handle) : List Warning :=
  match g.step? h with
  | some (.plain s) => (StepState.plain s).due g.formals h
  | some (.call x) =>
    (if x.call.resolved = some false then [⟨.unresolvedCall x.call.actionWord, some h⟩] else []) ++
      x.missing g.formals h
  | none => []

/-- The warning for an argument that is bound to nothing. -/
def argumentDue (g : Graph) (h : Handle) : List Warning :=
  match g.argument? h with
  | some a =>
    let c := (((g.parent? h).bind g.content?).bind Content.call?).getD {}
    if a.unresolved then
      [⟨.unresolvedArgument (a.label (c.arguments.idxOf h)) c.actionWord, some h⟩]
    else []
  | none => []

/-- All warnings for a node. -/
def ownDue (g : Graph) (h : Handle) : List Warning :=
  g.untyped h ++ (g.stepDue h ++ g.argumentDue h)

theorem ownDue_eq {c : Content} (hc : g.content? h = some c) : g.ownDue h =
    (match c with
      | .parameter _ => g.untyped h
      | .argument _ => g.argumentDue h
      | .call _ => g.stepDue h
      | .step _ => g.stepDue h
      | _ => []) := by
  cases c <;> simp [ownDue, untyped, stepDue, argumentDue, step?, plain?, state?, argument?, parameter?,
    hc, Content.parameter?, Content.argument?, Content.plain?, Content.call?]

theorem Sound.warningsAt_ok (hs : g.Sound) (hh : h ∈ g.handles) :
    g.warningsAt h = .ok (g.ownDue h) := by
  obtain ⟨c, hc⟩ := content?_of_mem hh
  obtain ⟨o, ho, howner⟩ := hs.exists_owner hh
  rw [ownDue_eq hc]
  simp only [warningsAt, node_ok hc, bind, Except.bind]
  cases c with
  | blank => exact (hs.fits h _ hc).elim
  | project p => rfl
  | scenario s => rfl
  | actionWord w => rfl
  | parameter p =>
    simp only [untyped, content?_parameter.2 hc, ho, howner, ownerName]
    split
    · cases ((g.parent? h).bind g.content?).bind Content.name? <;> rfl
    · rfl
  | argument a =>
    simp only [argumentDue, content?_argument.2 hc, ho, howner]
    split <;> rfl
  | step s =>
    simp only [stepDue, step?_plain (plain?_eq_some.2 hc), StepState.due]
    split <;> rfl
  | call c =>
    have hx := state?_call hc
    simp only [stepDue, step?_call hx, CallState.missing]
    split
    · rename_i hr
      simp [hr, pure, Except.pure]
    · rename_i t hr ht
      obtain ⟨w, -, hd⟩ := exists_definition (hs.bound h c hc t ht).1
      have hnone : ∀ p : Handle × Parameter, ((g.arguments c).any (·.2.parameter == some p.1)) =
          ((g.arguments c).filterMap (·.2.parameter)).contains p.1 := fun p => by
        rw [Bool.eq_iff_iff]
        simp
      simp [hr, ht, hs.parametersOf_ok hd, hs.argumentsOf_ok hc, hnone, missingArguments, pure,
        Except.pure]
    · rename_i hno hno'
      rw [if_neg hno]
      split
      · rename_i t hr ht
        exact absurd ht (hno' t hr)
      · rfl

/-! ## The warnings of all nodes -/

/-- Every argument stands in a call. -/
theorem Sound.exists_call (hs : g.Sound) (hh : g.kind? h = some .argument) :
    ∃ k c, g.content? k = some (.call c) ∧ h ∈ c.arguments := by
  obtain ⟨r, p, hr, hp, hl⟩ := hs.rooted
  have hne : h ≠ r := by
    rintro rfl
    rw [kind_eq hp] at hh
    cases hh
  obtain ⟨q, hq, hm⟩ := hl.exists_parent (mem_handles_of_kind? hh) hne
  obtain ⟨c, hc⟩ := content?_of_mem hq
  have hfit := hs.fits q c hc
  have body : ∀ d : Definition, d.Fits g → h ∉ d.parameters ++ d.steps := by
    intro d hd hm
    rcases List.mem_append.1 hm with hm | hm
    · have := hd.1 h hm
      rw [hh] at this
      cases this
    · rcases hd.2 h hm with hk | hk <;> rw [hh] at hk <;> cases hk
  cases c with
  | call c => exact ⟨q, c, hc, kids_eq hc rfl ▸ hm⟩
  | blank => exact hfit.elim
  | project p =>
    rw [kids_eq hc rfl] at hm
    rcases List.mem_append.1 hm with hm | hm
    · have := hfit.1 h hm
      rw [hh] at this
      cases this
    · have := hfit.2 h hm
      rw [hh] at this
      cases this
  | scenario s =>
    rw [kids_eq hc rfl] at hm
    exact absurd hm (body _ hfit)
  | actionWord w =>
    rw [kids_eq hc rfl] at hm
    exact absurd hm (body _ hfit)
  | parameter p => rw [kids_eq hc rfl] at hm; cases hm
  | argument a => rw [kids_eq hc rfl] at hm; cases hm
  | step s => rw [kids_eq hc rfl] at hm; cases hm

/-- The arguments of a call are linked to it. -/
theorem Sound.argumentDue_eq (hs : g.Sound) (hl : g.Linked) (hx : g.state? h = some x) :
    (g.kids h).flatMap g.argumentDue = unresolvedArguments x.call.actionWord 0 x.arguments := by
  obtain ⟨hc, -⟩ := state?_eq_some.1 hx
  obtain ⟨r, p, hr, -, hlist⟩ := hs.rooted
  have hfull := hs.map_fst_of_state? hx
  have hkids := kids_of_state? hx
  have hzip : x.arguments.map (·.1) = (x.arguments.zipIdx 0).map fun e => e.1.1 := by
    conv_lhs => rw [← List.zipIdx_map_fst 0 x.arguments, List.map_map]
    rfl
  rw [hkids, ← hfull, hzip, List.flatMap_map, unresolvedArguments]
  refine List.flatMap_congr ?_
  rintro ⟨e, i⟩ he
  have hget := List.mk_mem_zipIdx_iff_getElem?.1 he
  have hmem := List.mem_of_getElem? hget
  have hkid : e.1 ∈ g.kids h := hkids ▸ hfull ▸ List.mem_map_of_mem hmem
  obtain ⟨q, hq⟩ := hl e.1 (hlist.kid_mem hkid) fun e' => by
    rw [hr, Option.some.injEq] at e'
    exact hlist.root_not_mem (e' ▸ hkid)
  obtain rfl : q = h := hlist.eq_of_mem (hs.honest e.1 q hq) hkid
  have hplace : x.call.arguments.idxOf e.1 = i := by
    have hi : x.call.arguments[i]? = some e.1 := by
      rw [← hfull, List.getElem?_map, hget]
      rfl
    obtain ⟨hlt, hei⟩ := List.getElem?_eq_some_iff.1 hi
    rw [← hei]
    exact (hs.nodup_arguments hc).idxOf_getElem i hlt
  simp only [argumentDue, argument?_of_state? hx hmem, hq, hc, Option.bind_some,
    Content.call?, Option.getD_some, hplace]

/-- The warnings of all nodes are what is due for parameters and steps. -/
theorem Sound.perm_due (hs : g.Sound) (hl : g.Linked) : (g.handles.flatMap g.ownDue).Perm g.due := by
  obtain ⟨r, p, hr, -, hlist⟩ := hs.rooted
  have hsteps : (g.handles.flatMap g.stepDue).Perm (g.steps.flatMap g.stepDue) := by
    refine perm_flatMap_of_support g.nodup_handles hs.nodup_steps fun h hdue => ?_
    have hstep : g.IsStep h := by
      cases hσ : g.step? h with
      | none => simp [stepDue, hσ] at hdue
      | some σ => exact isStep_of_step? hσ
    exact iff_of_true hstep.mem_handles (hs.mem_steps.2 hstep)
  have hargs : (g.handles.flatMap g.argumentDue).Perm
      ((g.steps.flatMap g.kids).flatMap g.argumentDue) := by
    refine perm_flatMap_of_support g.nodup_handles (hlist.nodup_flatMap hs.nodup_steps)
      fun h hdue => ?_
    have hkind : g.kind? h = some .argument := by
      rw [← isSome_argument?]
      cases ha : g.argument? h with
      | none => simp [argumentDue, ha] at hdue
      | some a => rfl
    obtain ⟨k, c, hc, hm⟩ := hs.exists_call hkind
    refine iff_of_true (mem_handles_of_kind? hkind) (List.mem_flatMap.2 ⟨k, ?_, ?_⟩)
    · exact hs.mem_steps.2 (isStep_iff.2 (.inr ⟨c, hc⟩))
    · rwa [kids_eq hc rfl]
  have hdue : ∀ h ∈ g.steps, (g.stepDue h ++ (g.kids h).flatMap g.argumentDue).Perm
      (((g.step? h).map (StepState.due g.formals h)).getD []) := by
    intro h hh
    obtain ⟨σ, hσ⟩ := exists_step (hs.mem_steps.1 hh)
    cases σ with
    | plain s =>
      rw [kids_of_plain? (plain?_of_step? hσ)]
      simp only [stepDue, hσ, List.flatMap_nil, List.append_nil, Option.map_some, Option.getD_some]
      exact .refl _
    | call x =>
      rw [hs.argumentDue_eq hl (state?_of_step? hσ)]
      simp only [stepDue, hσ, Option.map_some, Option.getD_some, StepState.due, CallState.unresolved,
        List.append_assoc]
      exact List.perm_append_comm.append_left _
  have hown : (g.handles.flatMap g.ownDue).Perm (g.handles.flatMap g.untyped ++
      (g.handles.flatMap g.stepDue ++ g.handles.flatMap g.argumentDue)) :=
    ((((List.flatMap_append_perm g.handles g.stepDue g.argumentDue).append_left _).trans
      (List.flatMap_append_perm g.handles g.untyped _))).symm
  refine hown.trans (.append_left _ ((hsteps.append hargs).trans ?_))
  rw [List.flatMap_assoc]
  exact (List.flatMap_append_perm _ _ _).trans (List.Perm.flatMap_left _ hdue)

/-- The warnings are those that are due for the nodes, each of which is visited once. -/
def Accounts (g : Graph) (warnings : List Warning) : Prop :=
  ∃ visits due, g.walk = .ok visits ∧ visits.Perm g.handles ∧
    visits.mapM g.warningsAt = .ok due ∧ warnings.Perm due.flatten

theorem Sound.accounts {warnings : List Warning} (hs : g.Sound) (hl : g.Linked)
    (hw : warnings.Perm g.due) : g.Accounts warnings := by
  obtain ⟨visits, hwalk, hv⟩ := hs.walk_ok
  refine ⟨visits, visits.map g.ownDue, hwalk, hv,
    mapM_ok fun h hh => hs.warningsAt_ok (hv.mem_iff.1 hh), ?_⟩
  rw [← List.flatMap_def]
  exact hw.trans ((hv.flatMap_right g.ownDue).trans (hs.perm_due hl)).symm

end Graph

/-- **The warnings of every run** on a graph that is read, after any number of runs before it, are those
that are due for the nodes of the graph at its end. -/
theorem warnings_account_for_graph {text : String} {strict : Bool} {g : Graph}
    (hg : Design.readGraph text strict = .ok g) (r : Report) (n : Nat) :
    Ensures (do enrichTimes n; enrich) ⟨g, r⟩ fun warnings s => s.graph.Accounts warnings := by
  rw [Work.ensures_bind]
  refine (Graph.ensures_enrichTimes (fun _ => True) (Design.sound_of_readGraph hg) trivial
    (fun _ _ _ _ _ _ => trivial) n).mono ?_
  rintro _ ⟨g', r'⟩ ⟨hf, -⟩
  refine (Graph.ensures_enrich_due hf.sound).mono ?_
  rintro warnings s ⟨⟨m, he⟩, hw⟩
  exact he.after.sound.accounts he.linked hw

theorem warnings_account_for_sample :
    Design.readGraph Design.sampleText true = .ok Design.sample.graph ∧
    Ensures (do enrichTimes 1; enrich) ⟨Design.sample.graph, {}⟩ fun warnings s =>
      s.graph.Accounts warnings :=
  ⟨Design.readGraph_sample, warnings_account_for_graph Design.readGraph_sample {} 1⟩

end Actionbook
