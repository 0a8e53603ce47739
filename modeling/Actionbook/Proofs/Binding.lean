import Actionbook.Proofs.Calls
import Actionbook.Proofs.Reports

/-!
# The passes that bind and complete calls

What binding and completing do to a call is a function of the call with its arguments
(`CallState.bindTo`, `CallState.Completed`), and so is what they report: the arguments that are bound to
nothing (`CallState.unresolved`), and the parameters without argument (`CallState.missing`).
`ensures_bindCall` and `ensures_completeCall` show that the loops of the two passes compute it on every
sound graph, without a fault.
-/

namespace Actionbook

open Work (Ensures)

/-- The warnings for the arguments of a call that are bound to nothing; the first argument is at
`position`. -/
def unresolvedArguments (callee : String) (position : Nat) (args : List (Handle × Argument)) :
    List Warning :=
  (args.zipIdx position).flatMap fun (e, i) =>
    if e.2.unresolved then [⟨.unresolvedArgument (e.2.label i) callee, some e.1⟩] else []

section
variable {callee : String} {position : Nat} {e : Handle × Argument} {p : Handle}
  {args args' : List (Handle × Argument)}

theorem unresolvedArguments_eq_nil (ha : ∀ e ∈ args, e.2.unresolved = false) :
    unresolvedArguments callee position args = [] := by
  refine List.flatMap_eq_nil_iff.2 ?_
  rintro ⟨e, i⟩ he
  simp [ha e (List.fst_mem_of_mem_zipIdx he)]

theorem unresolvedArguments_append : unresolvedArguments callee position (args ++ args') =
    unresolvedArguments callee position args ++
      unresolvedArguments callee (position + args.length) args' := by
  simp only [unresolvedArguments, List.zipIdx_append, List.flatMap_append]

theorem unresolvedArguments_bound : unresolvedArguments callee position ((e.1, e.2.boundTo p) :: args) =
    unresolvedArguments callee (position + 1) args := rfl

theorem unresolvedArguments_unmatched :
    unresolvedArguments callee position ((e.1, e.2.unmatched) :: args) =
      [⟨.unresolvedArgument (e.2.label position) callee, some e.1⟩] ++
        unresolvedArguments callee (position + 1) args := rfl

end

/-- The warnings of the call with a handle for some of its parameters. -/
def missingArguments (h : Handle) (callee : String) (formals : List (Handle × Parameter)) :
    List Warning :=
  formals.map fun p => ⟨.missingArgument callee p.2.name, some h⟩

namespace CallState

/-- The warnings for a call that names no action word, and for arguments that are bound to nothing. -/
def unresolved (h : Handle) (x : CallState) : List Warning :=
  (if x.call.resolved = some false then [⟨.unresolvedCall x.call.actionWord, some h⟩] else []) ++
    unresolvedArguments x.call.actionWord 0 x.arguments

/-- The warnings for the parameters to which no argument is bound. -/
def missing (formals : Handle → List (Handle × Parameter)) (h : Handle) (x : CallState) :
    List Warning :=
  match x.call.resolved, x.call.target with
  | some true, some t => missingArguments h x.call.actionWord
      ((formals t).filter fun p => !(x.arguments.filterMap (·.2.parameter)).contains p.1)
  | _, _ => []

/-- A call whose arguments are bound to the parameters of a target, or to nothing. -/
def bindTo (formals : Handle → List (Handle × Parameter)) (target : Option Handle) (x : CallState) :
    CallState :=
  match target with
  | none => {
      call := { x.call with resolved := some false, target := none, ordered := x.call.arguments }
      arguments := x.arguments.map fun e => (e.1, e.2.cleared) }
  | some t =>
    let args := assign (formals t) 0 [] x.arguments
    { call := { x.call with
        resolved := some true
        target := some t
        ordered := (aligned ((formals t).map (·.1)) args).map (·.1) }
      arguments := args }

/-- A call with further arguments, put in the order of parameters. -/
def extend (formals : List (Handle × Parameter)) (new : List (Handle × Argument)) (x : CallState) :
    CallState where
  call := { x.call with
    arguments := x.call.arguments ++ new.map (·.1)
    ordered := (aligned (formals.map (·.1)) (x.arguments ++ new)).map (·.1) }
  arguments := x.arguments ++ new

/-- What completion makes of a call: it adds the defaults if the target is known. -/
def Completed (formals : Handle → List (Handle × Parameter)) (x y : CallState) : Prop :=
  match x.call.resolved, x.call.target with
  | some true, some t => ∃ new,
      new.map (·.2) = defaults (formals t) (x.arguments.filterMap (·.2.parameter)) ∧
        y = x.extend (formals t) new
  | _, _ => y = x

theorem arguments_bindTo (formals : Handle → List (Handle × Parameter)) (target : Option Handle)
    (x : CallState) : (x.bindTo formals target).call.arguments = x.call.arguments := by
  cases target <;> rfl

theorem actionWord_bindTo (formals : Handle → List (Handle × Parameter)) (target : Option Handle)
    (x : CallState) : (x.bindTo formals target).call.actionWord = x.call.actionWord := by
  cases target <;> rfl

theorem keyword_bindTo (formals : Handle → List (Handle × Parameter)) (target : Option Handle)
    (x : CallState) : (x.bindTo formals target).call.keyword = x.call.keyword := by
  cases target <;> rfl

/-- Completion either changes nothing, or the target is known and the defaults are added. -/
theorem Completed.cases {formals : Handle → List (Handle × Parameter)} {x y : CallState}
    (hc : Completed formals x y) :
    ((x.call.resolved = some true → x.call.target = none) ∧ y = x) ∨
      ∃ t new, x.call.resolved = some true ∧ x.call.target = some t ∧
        new.map (·.2) = defaults (formals t) (x.arguments.filterMap (·.2.parameter)) ∧
        y = x.extend (formals t) new := by
  unfold Completed at hc
  split at hc
  · rename_i t hr ht
    obtain ⟨new, hnew, hy⟩ := hc
    exact .inr ⟨t, new, hr, ht, hnew, hy⟩
  · rename_i hno
    refine .inl ⟨fun hr => ?_, hc⟩
    rw [Option.eq_none_iff_forall_ne_some]
    exact fun t ht => hno t hr ht

theorem Completed.actionWord {formals : Handle → List (Handle × Parameter)} {x y : CallState}
    (hc : Completed formals x y) : y.call.actionWord = x.call.actionWord := by
  obtain ⟨-, rfl⟩ | ⟨t, new, -, -, -, rfl⟩ := hc.cases <;> rfl

theorem Completed.keyword {formals : Handle → List (Handle × Parameter)} {x y : CallState}
    (hc : Completed formals x y) : y.call.keyword = x.call.keyword := by
  obtain ⟨-, rfl⟩ | ⟨t, new, -, -, -, rfl⟩ := hc.cases <;> rfl

theorem Completed.resolved {formals : Handle → List (Handle × Parameter)} {x y : CallState}
    (hc : Completed formals x y) :
    y.call.resolved = x.call.resolved ∧ y.call.target = x.call.target := by
  obtain ⟨-, rfl⟩ | ⟨t, new, -, -, -, rfl⟩ := hc.cases <;> exact ⟨rfl, rfl⟩

theorem missing_extend {formals : Handle → List (Handle × Parameter)} {x : CallState} {t h : Handle}
    {new : List (Handle × Argument)} (hn : ((formals t).map (·.1)).Nodup)
    (hr : x.call.resolved = some true) (ht : x.call.target = some t)
    (hnew : new.map (·.2) = Actionbook.defaults (formals t) (x.arguments.filterMap (·.2.parameter))) :
    (x.extend (formals t) new).missing formals h = missingArguments h x.call.actionWord
      (lacking (formals t) (x.arguments.filterMap (·.2.parameter))) := by
  have hlack := lacking_of_complete hn hnew
  simp only [missing, extend, hr, ht, hlack]

/-- The arguments that completion adds are bound. -/
theorem Completed.unresolved {formals : Handle → List (Handle × Parameter)} {x y : CallState}
    (hc : Completed formals x y) (h : Handle) : y.unresolved h = x.unresolved h := by
  obtain ⟨-, rfl⟩ | ⟨t, new, -, -, hnew, rfl⟩ := hc.cases
  · rfl
  · have hquiet : unresolvedArguments x.call.actionWord (0 + x.arguments.length) new = [] :=
      unresolvedArguments_eq_nil fun e he => by
        obtain ⟨p, -, -, value, -, heq⟩ := exists_default_of_mem hnew he
        rw [heq]
        rfl
    unfold CallState.unresolved
    simp only [extend, unresolvedArguments_append, hquiet, List.append_nil]
    rfl

/-- Binding changes nothing of the arguments but what they are bound to. -/
theorem map_cleared_bindTo (formals : Handle → List (Handle × Parameter)) (target : Option Handle)
    (x : CallState) : (x.bindTo formals target).arguments.map (fun e => (e.1, e.2.cleared)) =
      x.arguments.map fun e => (e.1, e.2.cleared) := by
  cases target with
  | none => simp [bindTo, Argument.cleared]
  | some t => exact map_cleared_assign 0 [] x.arguments

theorem map_fst_bindTo (formals : Handle → List (Handle × Parameter)) (target : Option Handle)
    (x : CallState) : (x.bindTo formals target).arguments.map (·.1) = x.arguments.map (·.1) := by
  have h := congrArg (List.map Prod.fst) (x.map_cleared_bindTo formals target)
  simpa only [List.map_map, Function.comp_def] using h

end CallState

namespace Graph

variable {g : Graph} {h : Handle} {r : Report} {x : CallState}

/-! ## Loops over arguments -/

/-- Writing an argument does not show at another one. -/
theorem argument?_setContent_of_mem {e d : Handle × Argument} {args : List (Handle × Argument)}
    {c : Content} (hnot : e.1 ∉ args.map (·.1)) (hd : d ∈ args) :
    (g.setContent e.1 c).argument? d.1 = g.argument? d.1 := by
  have hne : d.1 ≠ e.1 := by
    intro heq
    exact hnot (List.mem_map.2 ⟨d, hd, heq⟩)
  rw [argument?, content?_setContent_of_ne hne]
  rfl

theorem ensures_clear {args : List (Handle × Argument)} (hn : (args.map (·.1)).Nodup)
    (ha : ∀ e ∈ args, g.argument? e.1 = some e.2) :
    Ensures (args.forM fun (a, _) =>
      Work.change (·.updateArgument a fun a => { a with parameter := none, unresolved := false }))
      ⟨g, r⟩ fun _ s => s = ⟨g.setArguments (args.map fun e => (e.1, e.2.cleared)), r⟩ := by
  induction args generalizing g with
  | nil => exact Work.ensures_pure.2 rfl
  | cons e args ih =>
    obtain ⟨hnot, hn⟩ := List.nodup_cons.1 hn
    simp only [List.forM_eq_forM, List.forM_cons, Work.ensures_bind, Work.ensures_change]
    rw [updateArgument_eq (ha e List.mem_cons_self)]
    refine ih hn fun d hd => ?_
    rw [argument?_setContent_of_mem hnot hd, ha d (List.mem_cons_of_mem _ hd)]

theorem ensures_bindArguments {callee : String} {formals : List (Handle × Parameter)}
    {position : Nat} {taken : List Handle} {args : List (Handle × Argument)}
    (hn : (args.map (·.1)).Nodup) (ha : ∀ e ∈ args, g.argument? e.1 = some e.2.cleared) :
    Ensures (bindArguments callee formals position taken args) ⟨g, r⟩ fun _ s =>
      s.graph = g.setArguments (assign formals position taken args) ∧
      r.Gains (unresolvedArguments callee position (assign formals position taken args)) s.report := by
  induction args generalizing g position taken r with
  | nil => exact Work.ensures_pure.2 ⟨rfl, .refl r⟩
  | cons e args ih =>
    obtain ⟨hnot, hn⟩ := List.nodup_cons.1 hn
    have he := ha e List.mem_cons_self
    have hrest : ∀ c, ∀ d ∈ args, (g.setContent e.1 c).argument? d.1 = some d.2.cleared := by
      intro c d hd
      rw [argument?_setContent_of_mem hnot hd, ha d (List.mem_cons_of_mem _ hd)]
    unfold bindArguments
    cases hf : freeParameter formals taken e.2 position with
    | some p =>
      have hf' := hf
      unfold freeParameter at hf'
      simp only [hf', Work.ensures_bind, Work.ensures_change]
      rw [updateArgument_eq he, assign_some hf, setArguments_cons, unresolvedArguments_bound]
      exact ih hn (hrest _)
    | none =>
      have hf' := hf
      unfold freeParameter at hf'
      simp only [hf', Work.ensures_bind, Work.ensures_change, Work.ensures_warn]
      rw [updateArgument_eq he, assign_none hf, setArguments_cons, unresolvedArguments_unmatched]
      exact (ih hn (hrest _)).mono fun _ _ h => ⟨h.1, (Report.Gains.warn r _).trans h.2⟩

/-- Adding arguments for defaults one after the other. -/
theorem ensures_addDefaults {callee : String} {bound : List Handle}
    {formals : List (Handle × Parameter)} {c : Call} (hc : g.content? h = some (.call c)) :
    Ensures (addDefaults h callee bound formals) ⟨g, r⟩ fun _ s =>
      s.graph = g.put h [] (defaults formals bound) { c with
        arguments := c.arguments ++ handlesFrom g.size (defaults formals bound).length } ∧
      r.Gains (missingArguments h callee (lacking formals bound)) s.report := by
  induction formals generalizing g c r with
  | nil =>
    refine Work.ensures_pure.2 ⟨?_, .refl r⟩
    have hnil : defaults [] bound = [] := rfl
    rw [hnil, ← setContent_eq_put]
    simpa [handlesFrom] using (setContent_self hc).symm
  | cons p formals ih =>
    have hh := mem_handles_of_content? hc
    unfold addDefaults
    by_cases hb : p.1 ∈ bound
    · rw [defaults_skip (.inl hb), lacking_skip (.inl hb)]
      simpa [hb] using ih hc
    · cases hv : p.2.default with
      | none =>
        have hfree : (!bound.contains p.1) = true := by simpa using hb
        rw [defaults_skip (.inr hv), lacking_take hb hv]
        simp only [hfree, if_true, Work.ensures_bind, Work.ensures_warn]
        exact (ih hc).mono fun _ _ h => ⟨h.1, (Report.Gains.warn r _).trans h.2⟩
      | some value =>
        have hlit : ({ name := some p.2.name, value, parameter := some p.1, synthesized := true } :
            Argument) = defaultArgument p value := rfl
        have hadd : ((g.add (.argument (defaultArgument p value))).1.setParent g.size (some h)).updateCall
            h (fun c => { c with arguments := c.arguments ++ [(g.size : Handle)] }) =
            g.put h [] [defaultArgument p value]
              { c with arguments := c.arguments ++ [(g.size : Handle)] } := by
          rw [add_setParent, updateCall_eq (by rwa [content?_append_left hh])]
          rfl
        have hself : (g.put h [] [defaultArgument p value]
            { c with arguments := c.arguments ++ [(g.size : Handle)] }).content? h = some (.call _) :=
          content?_put_self hh
        have hrest := ih (r := r) hself
        rw [put_put hh] at hrest
        have hfree : (!bound.contains p.1) = true := by simpa using hb
        rw [defaults_take hb hv, lacking_skip (.inr (by simp [hv])), List.length_cons,
          handlesFrom_succ]
        simp only [hfree, if_true, hlit, Work.ensures_bind, Work.ensures_add, Work.ensures_change,
          hadd]
        simpa using hrest

theorem ensures_alignCall {formals : List (Handle × Parameter)} (hx : g.state? h = some x)
    (hfull : x.arguments.map (·.1) = x.call.arguments) (hargs : (x.arguments.map (·.1)).Nodup)
    (hn : (formals.map (·.1)).Nodup) (hb : Bound (formals.map (·.1)) x.arguments) :
    Ensures (alignCall h formals) ⟨g, r⟩ fun _ s => s = ⟨g.setContent h (.call { x.call with
      ordered := (aligned (formals.map (·.1)) x.arguments).map (·.1) }), r⟩ := by
  obtain ⟨hc, -⟩ := state?_eq_some.1 hx
  unfold alignCall
  simp only [Work.ensures_bind, Work.ensures_read, Work.ensures_change]
  refine ⟨_, ?_, congrArg (Workspace.mk · r) (updateCall_eq hc)⟩
  simp only [call_ok hc, argumentsOf_of_state? hx hfull, bind, Except.bind]
  exact alignedArguments_ok hn hb hargs

/-! ## Binding a call -/

/-- Binding the cleared arguments of a call and putting them in the order of the parameters. -/
theorem ensures_bindArguments_align (hs : g.Sound) (hx : g.state? h = some x) {c : Call} {t : Handle}
    {d : Definition} (hd : g.definition? t = some d) (hc : c.arguments = x.call.arguments)
    (callee : String) :
    Ensures (do
      bindArguments callee (g.formals t) 0 [] x.arguments
      alignCall h (g.formals t)) ⟨g.put h (x.arguments.map fun e => (e.1, e.2.cleared)) [] c, r⟩
      fun _ s => s.graph = g.put h (assign (g.formals t) 0 [] x.arguments) [] { c with
        ordered := (aligned ((g.formals t).map (·.1)) (assign (g.formals t) 0 [] x.arguments)).map
          (·.1) } ∧
        r.Gains (unresolvedArguments callee 0 (assign (g.formals t) 0 [] x.arguments)) s.report := by
  have hfull := hs.map_fst_of_state? hx
  have hargs := hs.nodup_of_state? hx
  have hstep := isStep_of_state? hx
  have hkids := kids_of_state? hx
  have hmap : (x.arguments.map fun e => (e.1, e.2.cleared)).map (·.1) = x.arguments.map (·.1) := by
    simp
  have hassign : (assign (g.formals t) 0 [] x.arguments).map (·.1) = x.arguments.map (·.1) :=
    map_fst_assign 0 [] x.arguments
  obtain ⟨-, hn, ho, hno⟩ := old_facts hs hstep (hmap.trans (hfull.trans hkids.symm))
  have hcleared : ∀ e ∈ x.arguments, (g.put h (x.arguments.map fun e => (e.1, e.2.cleared)) []
      c).argument? e.1 = some e.2.cleared := fun e he =>
    argument?_put_old hn ho hno (List.mem_map_of_mem (f := fun e => (e.1, e.2.cleared)) he)
  rw [Work.ensures_bind]
  refine (ensures_bindArguments hargs hcleared).mono ?_
  rintro _ ⟨g', r'⟩ ⟨hgraph, hgain⟩
  dsimp only at hgraph
  rw [put_setArguments (hassign ▸ hargs) (hmap.trans hassign.symm)
    (hassign ▸ hmap ▸ hno)] at hgraph
  subst hgraph
  have hstate := state?_put_nil hs hstep (hassign.trans (hfull.trans hkids.symm)) (hc.trans hkids.symm)
  refine (ensures_alignCall hstate (hassign.trans (hfull.trans hc.symm)) (hassign ▸ hargs)
    (hs.map_fst_formals hd ▸ hs.nodup_formals hd) (assign_bound 0 [] x.arguments)).mono ?_
  rintro _ _ rfl
  exact ⟨put_setContent, hgain⟩

theorem ensures_bindCall_put {index : List (String × Handle)} (hs : g.Sound)
    (hx : g.state? h = some x)
    (hi : ∀ t, index.lookup x.call.actionWord = some t → g.kind? t = some .actionWord) :
    Ensures (bindCall index h) ⟨g, r⟩ fun _ s =>
      s.graph = g.put h (x.bindTo g.formals (index.lookup x.call.actionWord)).arguments []
        (x.bindTo g.formals (index.lookup x.call.actionWord)).call ∧
      r.Gains ((x.bindTo g.formals (index.lookup x.call.actionWord)).unresolved h) s.report := by
  obtain ⟨hc, -⟩ := state?_eq_some.1 hx
  have hfull := hs.map_fst_of_state? hx
  have hstep := isStep_of_state? hx
  have hkids := kids_of_state? hx
  have hmap : (x.arguments.map fun e => (e.1, e.2.cleared)).map (·.1) = x.arguments.map (·.1) := by
    simp
  have hnot : h ∉ x.arguments.map (·.1) :=
    (old_facts hs hstep (hfull.trans hkids.symm)).2.2.2
  unfold bindCall
  simp only [Work.ensures_bind, Work.ensures_read]
  refine ⟨x.call, call_ok hc, x.arguments, argumentsOf_of_state? hx hfull, ?_⟩
  refine (ensures_clear (hs.nodup_of_state? hx) fun e he => argument?_of_state? hx he).mono ?_
  rintro _ _ rfl
  have hc₁ : (g.setArguments (x.arguments.map fun e => (e.1, e.2.cleared))).content? h =
      some (.call x.call) := by
    rw [content?_congr (node?_setArguments_of_not_mem (hmap ▸ hnot)), hc]
  cases ht : index.lookup x.call.actionWord with
  | none =>
    simp only [Work.ensures_bind, Work.ensures_change, Work.ensures_warn, updateCall_eq hc₁,
      CallState.bindTo, put_nil, true_and]
    have hquiet : unresolvedArguments x.call.actionWord 0
        (x.arguments.map fun e => (e.1, e.2.cleared)) = [] := unresolvedArguments_eq_nil fun e he => by
      obtain ⟨d, -, rfl⟩ := List.mem_map.1 he
      rfl
    simp only [CallState.unresolved, if_true, hquiet, List.append_nil]
    exact .warn r _
  | some t =>
    obtain ⟨w, -, hd⟩ := exists_definition (hi t ht)
    rw [Work.ensures_bind, Work.ensures_change, updateCall_eq hc₁, Work.ensures_bind,
      Work.ensures_read, ← put_nil]
    have hr : g.Reworked h (g.put h (x.arguments.map fun e => (e.1, e.2.cleared)) []
        { x.call with resolved := some true, target := some t }) :=
      put_nil_reworked hs hstep (hmap.trans (hfull.trans hkids.symm)) hkids.symm
    -- the parameters are read off the graph in which the arguments have been cleared
    refine ⟨g.formals t, ?_, ensures_bindArguments_align (c := { x.call with
      resolved := some true, target := some t }) hs hx hd rfl _⟩
    rw [← hr.formals hs]
    refine parametersOf_of_shown ((definition?_congr (hr.fixed hs)).trans hd) fun p hp => ?_
    rw [hr.parameter? hs]
    exact hs.isSome_parameter hd p hp

/-- **Binding a call writes the call with its arguments bound.** -/
theorem ensures_bindCall {index : List (String × Handle)} (hs : g.Sound) (hx : g.state? h = some x)
    (hi : ∀ t, index.lookup x.call.actionWord = some t → g.kind? t = some .actionWord) :
    Ensures (bindCall index h) ⟨g, r⟩ fun _ s =>
      g.Becomes h (x.bindTo g.formals (index.lookup x.call.actionWord)) s.graph ∧
      r.Gains ((x.bindTo g.formals (index.lookup x.call.actionWord)).unresolved h) s.report := by
  refine (ensures_bindCall_put hs hx hi).mono fun _ s ⟨hgraph, hgain⟩ => ⟨?_, hgain⟩
  rw [hgraph]
  have hstep := isStep_of_state? hx
  have hkids := kids_of_state? hx
  have hold : (x.bindTo g.formals (index.lookup x.call.actionWord)).arguments.map (·.1) =
      g.kids h := by
    rw [hkids, ← hs.map_fst_of_state? hx, CallState.map_fst_bindTo]
  have hc : (x.bindTo g.formals (index.lookup x.call.actionWord)).call.arguments = g.kids h := by
    rw [hkids, CallState.arguments_bindTo]
  refine ⟨put_nil_reworked hs hstep hold hc, put_nil_sound hs hstep hold hc fun t ht => ?_,
    state?_put_nil hs hstep hold hc⟩
  cases hl : index.lookup x.call.actionWord with
  | none => simp [CallState.bindTo, hl] at ht
  | some t' =>
    obtain rfl : t' = t := by simpa [CallState.bindTo, hl] using ht
    refine ⟨hi t' hl, fun d hd => ?_⟩
    rw [← hs.map_fst_formals hd]
    exact assign_bound 0 [] x.arguments

/-- New arguments behind those of a call, if none of them disturbs the bindings. -/
theorem becomes_put_new (hs : g.Sound) (hx : g.state? h = some x) {c : Call} {new : List Argument}
    {t : Handle} (hc : c.arguments = x.call.arguments ++ handlesFrom g.size new.length)
    (ht : c.target = some t) (hw : g.kind? t = some .actionWord)
    (hb : Bound ((g.formals t).map (·.1)) (x.arguments ++ g.newArguments new)) :
    g.Becomes h ⟨c, x.arguments ++ g.newArguments new⟩ (g.put h x.arguments new c) := by
  have hstep := isStep_of_state? hx
  have hkids := kids_of_state? hx
  have hold : x.arguments.map (·.1) = g.kids h := (hs.map_fst_of_state? hx).trans hkids.symm
  have hc' : c.arguments = g.kids h ++ handlesFrom g.size new.length := hkids ▸ hc
  refine ⟨put_reworked hs hstep hold hc', put_sound hs hstep hold hc' fun t' ht' => ?_,
    state?_put hs hstep hold hc'⟩
  rw [ht] at ht'
  cases ht'
  refine ⟨hw, fun d hd => ?_⟩
  rw [← hs.map_fst_formals hd]
  exact hb

/-- **Completing a call adds the defaults of its parameters.** -/
theorem ensures_completeCall (hs : g.Sound) (hx : g.state? h = some x) :
    Ensures (completeCall h) ⟨g, r⟩ fun _ s => ∃ y, x.Completed g.formals y ∧
      g.Becomes h y s.graph ∧ r.Gains (y.missing g.formals h) s.report := by
  obtain ⟨hc, ha⟩ := state?_eq_some.1 hx
  have hfull := hs.map_fst_of_state? hx
  unfold completeCall
  simp only [Work.ensures_bind, Work.ensures_read]
  refine ⟨x.call, call_ok hc, ?_⟩
  split
  · rename_i t hres ht
    obtain ⟨hw, hb⟩ := hs.bound h x.call hc t ht
    obtain ⟨w, hw', hd⟩ := exists_definition hw
    have hb := hb _ hd
    rw [← ha, ← hs.map_fst_formals hd] at hb
    have hn : ((g.formals t).map (·.1)).Nodup := hs.map_fst_formals hd ▸ hs.nodup_formals hd
    simp only [Work.ensures_bind, Work.ensures_read]
    refine ⟨g.formals t, ?_, x.arguments, argumentsOf_of_state? hx hfull, ?_⟩
    · simp only [actionWord_ok hw', bind, Except.bind]
      exact hs.parametersAt_ok hd
    · refine (ensures_addDefaults hc).mono ?_
      rintro _ ⟨g₁, r₁⟩ ⟨hgraph, hgain⟩
      dsimp only at hgraph
      generalize hnew : defaults (g.formals t) (x.arguments.filterMap (·.2.parameter)) = new at hgraph
      rw [← put_self fun e he => argument?_of_state? hx he] at hgraph
      subst hgraph
      have hsnd : (g.newArguments new).map (·.2) =
          defaults (g.formals t) (x.arguments.filterMap (·.2.parameter)) :=
        (map_snd_newArguments g new).trans hnew.symm
      have hall : (x.arguments ++ g.newArguments new).map (·.1) =
          x.call.arguments ++ handlesFrom g.size new.length := by
        rw [List.map_append, hfull, map_fst_newArguments]
      have hbound := hb.complete hn hsnd
      have hb₁ : g.Becomes h _ (g.put h x.arguments new { x.call with
          arguments := x.call.arguments ++ handlesFrom g.size new.length }) :=
        becomes_put_new hs hx rfl ht hw hbound
      refine (ensures_alignCall hb₁.state hall (hb₁.sound.nodup_of_state? hb₁.state) hn
        hbound).mono ?_
      rintro _ _ rfl
      refine ⟨x.extend (g.formals t) (g.newArguments new), ?_, ?_, ?_⟩
      · simp only [CallState.Completed, hres, ht]
        exact ⟨_, hsnd, rfl⟩
      · rw [put_setContent]
        unfold CallState.extend
        rw [map_fst_newArguments]
        exact becomes_put_new hs hx rfl ht hw hbound
      · rwa [CallState.missing_extend hn hres ht hsnd]
  · rename_i hno
    have hquiet : x.missing g.formals h = [] := by
      unfold CallState.missing
      split
      · rename_i t hres ht
        exact absurd ht (hno t hres)
      · rfl
    refine Work.ensures_pure.2 ⟨x, ?_, .refl hs hx, by rw [hquiet]; exact .refl r⟩
    unfold CallState.Completed
    split
    · rename_i t hres ht
      exact absurd ht (hno t hres)
    · rfl

end Graph

end Actionbook
