import Actionbook.Proofs.Progress

/-!
# Calls in the places of sentences

A sentence that follows the pattern of an action word gives way to a call: the captured texts become
arguments, which are bound, retyped by the types of their parameters and completed by defaults.
`Graph.Placed` is this chain as a relation between the sentence and the call; `ensures_placeCall` shows
that the pass follows it on every sound graph, without a fault, and that the new arguments and the call
belong to the tree.
-/

namespace Actionbook

open Work (Ensures)

variable {g g' : Graph} {h k : Handle} {r : Report} {x y : CallState}

namespace Graph

/-! ## New arguments -/

theorem ensures_addAll {α : Type} (content : α → Content) (l : List α) :
    Ensures (l.mapM fun a => Work.add (content a)) ⟨g, r⟩ fun handles s =>
      handles = handlesFrom g.size l.length ∧
        s = ⟨g.append (l.map fun a => ⟨content a, none⟩), r⟩ := by
  induction l generalizing g with
  | nil => exact Work.ensures_pure.2 ⟨rfl, congrArg (Workspace.mk · r) append_nil.symm⟩
  | cons a l ih =>
    simp only [List.mapM_cons, Work.ensures_bind, Work.ensures_add, Work.ensures_pure]
    have hadd : (g.add (content a)).1 = g.append [⟨content a, none⟩] := by simp [add, append]
    rw [hadd]
    refine ih.mono ?_
    rintro handles _ ⟨rfl, rfl⟩
    refine ⟨by rw [List.length_cons, handlesFrom_succ, size_append]; rfl, ?_⟩
    rw [append_append]
    rfl

/-- Adopting nodes that are there links all of them. -/
theorem adopt_ok {p : Handle} {l : List Handle} (hh : ∀ k ∈ l, k ∈ g.handles) :
    ∃ g', adopt p l g = (g', .ok ()) ∧ g'.root = g.root ∧ ∀ k, g'.node? k =
      if k ∈ l then (g.node? k).map fun n => { n with parent := some p } else g.node? k := by
  induction l generalizing g with
  | nil => exact ⟨g, rfl, rfl, fun k => by simp⟩
  | cons c l ih =>
    obtain ⟨n, hn⟩ := Option.isSome_iff_exists.1 (isSome_node?.2 (hh c List.mem_cons_self))
    obtain ⟨g', hg', hroot, hnode⟩ := ih (g := g.setParent c (some p)) fun k hk => by
      rw [handles_setParent]
      exact hh k (List.mem_cons_of_mem _ hk)
    refine ⟨g', by simp only [adopt, hn]; exact hg', hroot.trans root_setParent, fun k => ?_⟩
    rw [hnode, node?_setParent]
    by_cases e : k = c
    · subst e
      cases g.node? k <;> simp
    · simp [e]

/-- A call with new arguments in the place of a node. -/
theorem replace_new {c : Call} {new : List Argument} (hh : h ∈ g.handles)
    (hc : c.arguments = handlesFrom g.size new.length) :
    (g.append (new.map fun a => ⟨.argument a, none⟩)).replace h (.call c) =
      (g.put h [] new c, .ok ()) := by
  obtain ⟨n, hn⟩ := Option.isSome_iff_exists.1 (isSome_node?.2 hh)
  have hthere : ∀ k ∈ c.arguments,
      k ∈ ((g.append (new.map fun a => ⟨.argument a, none⟩)).setContent h (.call c)).handles := by
    intro k hk
    rw [handles_setContent, handles_append, List.length_map, ← hc]
    exact List.mem_append_right _ hk
  obtain ⟨g', hg', hroot, hnode⟩ := adopt_ok (p := h) hthere
  have hreplace : (g.append (new.map fun a => ⟨.argument a, none⟩)).replace h (.call c) =
      (g', .ok ()) := by
    simp only [replace, node?_append_left hh, hn, Content.children?]
    exact hg'
  rw [hreplace]
  congr 1
  apply ext_node?
  · simp [hroot]
  · intro k
    rw [hnode, hc]
    rcases handle_cases g (new.map fun a => ⟨.argument a, none⟩) k with hk | ⟨i, n, hi, rfl⟩ | hk
    · rw [if_neg (not_mem_handlesFrom hk), node?_setContent, node?_append_left hk, put,
        node?_setContent, setArguments_nil, node?_append_left hk]
    · rw [List.getElem?_map, Option.map_eq_some_iff] at hi
      obtain ⟨a, ha, rfl⟩ := hi
      have hlt := (List.getElem?_eq_some_iff.1 ha).1
      have hne : ((g.size + i : Nat) : Int) ≠ h := fun e => new_not_mem g i (e ▸ hh)
      rw [if_pos (mem_handlesFrom.2 ⟨i, hlt, rfl⟩), node?_setContent, if_neg hne, node?_append_right,
        node?_put_new hh, List.getElem?_map, ha]
      rfl
    · have hout : k ∉ g.handles ++ handlesFrom g.size new.length := by
        rw [← List.length_map (f := fun a : Argument => (⟨.argument a, none⟩ : Node)),
          ← handles_append, ← isSome_node?, hk]
        exact Bool.false_ne_true
      have hleft : k ∉ ((g.append (new.map fun a => ⟨.argument a, none⟩)).setContent h
          (.call c)).handles := by
        rw [handles_setContent, handles_append, List.length_map]
        exact hout
      rw [node?_eq_none hleft, node?_eq_none (by rw [handles_put]; exact hout)]
      split <;> rfl

/-! ## Retyping -/

/-- A captured argument as a literal of its parameter's type. -/
def retyped (g : Graph) (a : Argument) : Argument :=
  match a.parameter.bind g.parameter? with
  | none => a
  | some p => { a with value := .ofCaptured a.value.text p.type }

theorem parameter_retyped (g : Graph) (a : Argument) : (g.retyped a).parameter = a.parameter := by
  unfold retyped
  split <;> rfl

theorem unresolved_retyped (g : Graph) (a : Argument) : (g.retyped a).unresolved = a.unresolved := by
  unfold retyped
  split <;> rfl

theorem name_retyped (g : Graph) (a : Argument) : (g.retyped a).name = a.name := by
  unfold retyped
  split <;> rfl

theorem synthesized_retyped (g : Graph) (a : Argument) :
    (g.retyped a).synthesized = a.synthesized := by
  unfold retyped
  split <;> rfl

theorem parameter?_setContent_argument {a b : Argument} (ha : g.argument? h = some a) :
    (g.setContent h (.argument b)).parameter? = g.parameter? := by
  funext k
  unfold parameter?
  rw [content?_setContent (mem_handles_of_content? (content?_argument.1 ha))]
  split
  · rename_i e
    rw [e, content?_argument.1 ha]
    rfl
  · rfl

/-- Retyping arguments one after the other; the types are those of `g₀`. -/
theorem ensures_retype {g₀ : Graph} {args : List (Handle × Argument)} (hn : (args.map (·.1)).Nodup)
    (ha : ∀ e ∈ args, g.argument? e.1 = some e.2) (hg : g.parameter? = g₀.parameter?)
    (hp : ∀ e ∈ args, ∀ p, e.2.parameter = some p → (g.parameter? p).isSome) :
    Ensures (args.forM retypeArgument) ⟨g, r⟩ fun _ s =>
      s = ⟨g.setArguments (args.map fun e => (e.1, g₀.retyped e.2)), r⟩ := by
  induction args generalizing g with
  | nil => exact Work.ensures_pure.2 rfl
  | cons e args ih =>
    obtain ⟨hnot, hn⟩ := List.nodup_cons.1 hn
    have he := ha e List.mem_cons_self
    have hrest : Ensures (args.forM retypeArgument)
        ⟨g.setContent e.1 (.argument (g₀.retyped e.2)), r⟩ fun _ s =>
        s = ⟨(g.setContent e.1 (.argument (g₀.retyped e.2))).setArguments
          (args.map fun e => (e.1, g₀.retyped e.2)), r⟩ := by
      have hpar := parameter?_setContent_argument (b := g₀.retyped e.2) he
      refine ih hn (fun d hd => ?_) (hpar.trans hg) fun d hd p hdp => ?_
      · rw [argument?_setContent_of_mem hnot hd, ha d (List.mem_cons_of_mem _ hd)]
      · rw [hpar]
        exact hp d (List.mem_cons_of_mem _ hd) p hdp
    rw [List.forM_eq_forM, List.forM_cons, Work.ensures_bind, List.map_cons, setArguments_cons]
    rw [List.forM_eq_forM] at hrest
    unfold retypeArgument
    cases hep : e.2.parameter with
    | none =>
      have hsame : g₀.retyped e.2 = e.2 := by simp [retyped, hep]
      rw [hsame, setContent_self (content?_argument.1 he)] at hrest ⊢
      exact Work.ensures_pure.2 hrest
    | some p =>
      obtain ⟨q, hq⟩ := Option.isSome_iff_exists.1 (hp e List.mem_cons_self p hep)
      have hsame : g₀.retyped e.2 = { e.2 with value := .ofCaptured e.2.value.text q.type } := by
        simp [retyped, hep, ← hg, hq]
      simp only [Work.ensures_bind, Work.ensures_read, Work.ensures_change]
      refine ⟨q, parameter_ok hq, ?_⟩
      rw [updateArgument_eq he, ← hsame]
      exact hrest

end Graph

/-! ## Placing a call -/

/-- The argument for a captured text. -/
def capturedArgument (c : String × String) : Argument := { name := some c.1, value := .string c.2 }

namespace CallState

/-- A call that stands for a sentence, before it is bound. -/
def start (name key : String) (args : List (Handle × Argument)) : CallState where
  call := { actionWord := name, arguments := args.map (·.1), keyword := some key }
  arguments := args

/-- A call whose arguments are retyped. -/
def retyped (g : Graph) (x : CallState) : CallState :=
  { x with arguments := x.arguments.map fun e => (e.1, g.retyped e.2) }

theorem retyped_congr (hp : g'.parameter? = g.parameter?) : x.retyped g' = x.retyped g := by
  unfold retyped Graph.retyped
  rw [hp]

/-- Retyping keeps the names of arguments, and whether they are bound. -/
theorem unresolved_retyped (g : Graph) (x : CallState) (h : Handle) :
    (x.retyped g).unresolved h = x.unresolved h := by
  have hmap : ((x.arguments.map fun e => (e.1, g.retyped e.2)).zipIdx 0) =
      (x.arguments.zipIdx 0).map fun e => ((e.1.1, g.retyped e.1.2), e.2) := List.zipIdx_map
  simp only [unresolved, retyped, unresolvedArguments, hmap, List.flatMap_map, Argument.label,
    g.name_retyped, g.unresolved_retyped]
  rfl

/-- Bound arguments are bound to parameters of the target. -/
theorem mem_of_bindTo {formals : Handle → List (Handle × Parameter)} {target : Option Handle}
    {e : Handle × Argument} {p : Handle} (he : e ∈ (x.bindTo formals target).arguments)
    (hp : e.2.parameter = some p) : ∃ t, target = some t ∧ p ∈ (formals t).map (·.1) := by
  cases target with
  | none =>
    obtain ⟨d, -, rfl⟩ := List.mem_map.1 he
    cases hp
  | some t => exact ⟨t, rfl, (assign_bound 0 [] x.arguments).mem_of_parameter he hp⟩

end CallState

/-- The call `y` stands for a sentence in which the placeholders of `word` have captured `texts`. -/
def Graph.Placed (g : Graph) (word : Handle × ActionWord) (key : String) (texts : List String)
    (y : CallState) : Prop :=
  ∃ args, args.map (·.2) =
      (capturedArguments ((g.formals word.1).map (·.2.name)) word.2.name texts).map capturedArgument ∧
    CallState.Completed g.formals
      (((CallState.start word.2.name key args).bindTo g.formals (g.target? word.2.name)).retyped g) y

namespace Graph

theorem Placed.actionWord {word : Handle × ActionWord} {key : String} {texts : List String}
    (hp : g.Placed word key texts y) : y.call.actionWord = word.2.name := by
  obtain ⟨args, -, hc⟩ := hp
  exact hc.actionWord.trans (CallState.actionWord_bindTo _ _ _)

theorem Placed.keyword {word : Handle × ActionWord} {key : String} {texts : List String}
    (hp : g.Placed word key texts y) : y.call.keyword = some key := by
  obtain ⟨args, -, hc⟩ := hp
  exact hc.keyword.trans (CallState.keyword_bindTo _ _ _)

/-- The call of a sentence is resolved. -/
theorem Placed.resolved {word : Handle × ActionWord} {key : String} {texts : List String}
    (hp : g.Placed word key texts y) (hword : g.target? word.2.name = some word.1) :
    y.call.resolved = some true ∧ y.call.target = some word.1 := by
  obtain ⟨args, -, hc⟩ := hp
  rw [hc.resolved.1, hc.resolved.2, hword]
  exact ⟨rfl, rfl⟩

theorem nodes_captured {captured : List (String × String)} :
    (captured.map fun c => (⟨.argument (capturedArgument c), none⟩ : Node)) =
      (captured.map capturedArgument).map fun a => ⟨.argument a, none⟩ := by
  rw [List.map_map]
  rfl

/-- A call with new arguments in the place of a plain step. -/
theorem becomes_start {s : Step} {new : List Argument} {name key : String} (hs : g.Sound)
    (hplain : g.plain? h = some s) :
    g.Becomes h (.start name key (g.newArguments new)) (g.put h [] new
      { actionWord := name, arguments := handlesFrom g.size new.length, keyword := some key }) := by
  have hstep := isStep_of_plain? hplain
  have hkids := kids_of_plain? hplain
  have hold : ([] : List (Handle × Argument)).map (·.1) = g.kids h := hkids.symm
  have hc : handlesFrom g.size new.length = g.kids h ++ handlesFrom g.size new.length := by
    rw [hkids, List.nil_append]
  refine ⟨put_reworked hs hstep hold hc, put_sound hs hstep hold hc fun t ht => ?_, ?_⟩
  · cases ht
  · rw [state?_put hs hstep hold hc, CallState.start, map_fst_newArguments]
    rfl

theorem ensures_retypeCall (hs : g.Sound) (hx : g.state? h = some x)
    (hp : ∀ e ∈ x.arguments, ∀ p, e.2.parameter = some p → (g.parameter? p).isSome) :
    Ensures (do (← Work.read fun g => do g.argumentsOf (← g.call h)).forM retypeArgument) ⟨g, r⟩
      fun _ s => g.Becomes h (x.retyped g) s.graph ∧ s.report = r := by
  obtain ⟨hc, ha⟩ := state?_eq_some.1 hx
  have hfull := hs.map_fst_of_state? hx
  have hkids := kids_of_state? hx
  have hstep := isStep_of_state? hx
  simp only [Work.ensures_bind, Work.ensures_read]
  refine ⟨x.arguments, by simp only [call_ok hc, bind, Except.bind]; exact argumentsOf_of_state? hx hfull, ?_⟩
  refine (ensures_retype (hs.nodup_of_state? hx) (fun e he => argument?_of_state? hx he) rfl hp).mono ?_
  rintro _ _ rfl
  refine ⟨?_, rfl⟩
  have hold : (x.retyped g).arguments.map (·.1) = g.kids h := by
    rw [hkids, ← hfull]
    simp [CallState.retyped]
  have hput : g.setArguments (x.arguments.map fun e => (e.1, g.retyped e.2)) =
      g.put h (x.retyped g).arguments [] x.call := by
    rw [put_nil]
    refine (setContent_self ?_).symm
    have hnode : (g.setArguments (x.retyped g).arguments).node? h = g.node? h :=
      node?_setArguments_of_not_mem (old_facts hs hstep hold).2.2.2
    exact (content?_congr hnode).trans hc
  rw [hput]
  refine ⟨put_nil_reworked hs hstep hold hkids.symm, put_nil_sound hs hstep hold hkids.symm ?_,
    state?_put_nil hs hstep hold hkids.symm⟩
  intro t ht
  obtain ⟨hw, hb⟩ := hs.bound h x.call hc t ht
  refine ⟨hw, fun d hd => ?_⟩
  have := hb d hd
  rw [← ha] at this
  exact this.map (parameter_retyped g) (unresolved_retyped g)

/-- **A sentence gives way to a call.** -/
theorem ensures_placeCall {index : List (String × Handle)} {word : Handle × ActionWord}
    {key : String} {texts : List String} {s : Step} (hs : g.Sound) (hplain : g.plain? h = some s)
    (hword : g.definition? word.1 = some word.2.toDefinition)
    (hi : ∀ name, index.lookup name = g.target? name) :
    Ensures (placeCall index h key word texts) ⟨g, r⟩ fun _ s =>
      ∃ y, g.Placed word key texts y ∧ g.Becomes h y s.graph ∧
        r.Gains (y.unresolved h ++ y.missing g.formals h) s.report := by
  unfold placeCall
  simp only [Work.ensures_bind, Work.ensures_read]
  refine ⟨_, hs.parametersAt_ok hword, ?_⟩
  -- the captured texts become nodes, and the call adopts them
  refine Work.Ensures.mono (ensures_addAll (fun c => .argument (capturedArgument c)) _) ?_
  rintro handles _ ⟨rfl, rfl⟩
  rw [nodes_captured, ← List.length_map (f := capturedArgument)]
  generalize hnew : (capturedArguments ((g.formals word.1).map (·.2.name)) word.2.name texts).map
    capturedArgument = new
  rw [Work.ensures_replace (replace_new (mem_handles_of_content? (plain?_eq_some.1 hplain)) rfl)]
  have hb₁ : g.Becomes h (.start word.2.name key (g.newArguments new)) _ := becomes_start hs hplain
  generalize g.put h [] new _ = g₁ at hb₁ ⊢
  have hf₁ := Follows.of_becomes hs hb₁
  have hform₁ : g₁.formals = g.formals := hb₁.reworked.formals hs
  -- it is bound
  refine (ensures_bindCall hb₁.sound hb₁.state fun t ht => ?_).mono ?_
  · rw [hi, ← hf₁.target?] at ht
    exact kind?_of_target? ht
  rintro - ⟨g₂, r₂⟩ ⟨hb₂, hgain₂⟩
  have hname : (CallState.start word.2.name key (g.newArguments new)).call.actionWord =
    word.2.name := rfl
  rw [hform₁, hname, hi] at hb₂ hgain₂
  -- its arguments are retyped
  have hshown : ∀ e ∈ ((CallState.start word.2.name key (g.newArguments new)).bindTo g.formals
      (g.target? word.2.name)).arguments, ∀ p, e.2.parameter = some p → (g₂.parameter? p).isSome := by
    intro e he p hp
    obtain ⟨t, ht, hmem⟩ := CallState.mem_of_bindTo he hp
    obtain ⟨w, -, -, -, hd⟩ := exists_of_target? ht
    rw [hb₂.reworked.parameter? hb₁.sound, hb₁.reworked.parameter? hs]
    rw [hs.map_fst_formals hd] at hmem
    exact hs.isSome_parameter hd p hmem
  have hretype := ensures_retypeCall (r := r₂) hb₂.sound hb₂.state hshown
  simp only [Work.ensures_bind, Work.ensures_read] at hretype
  obtain ⟨args, hargs, hretype⟩ := hretype
  refine ⟨args, hargs, hretype.mono ?_⟩
  rintro - ⟨g₃, r₃⟩ ⟨hb₃, rfl⟩
  -- and it is completed
  refine (ensures_completeCall hb₃.sound hb₃.state).mono ?_
  rintro - ⟨g₄, r₄⟩ ⟨y, hy, hb₄, hgain₄⟩
  have hform : g₃.formals = g.formals := by
    rw [hb₃.reworked.formals hb₂.sound, hb₂.reworked.formals hb₁.sound, hform₁]
  have hpar : g₂.parameter? = g.parameter? := by
    funext p
    rw [hb₂.reworked.parameter? hb₁.sound, hb₁.reworked.parameter? hs]
  rw [hform] at hy hgain₄
  rw [CallState.retyped_congr hpar] at hy
  refine ⟨y, ⟨g.newArguments new, ?_, hy⟩, ((hb₁.trans hb₂).trans hb₃).trans hb₄, ?_⟩
  · rw [map_snd_newArguments, hnew]
  · rw [CallState.Completed.unresolved hy, CallState.unresolved_retyped]
    exact hgain₂.trans hgain₄

end Graph

end Actionbook
