import Actionbook.Proofs.Canonical
import Actionbook.Proofs.Settling

/-!
# Runs leave what was written alone

The arguments of a call that were written come first, whatever runs append (`CallState.Layered`), and
after a run they are bound by their names and positions (`CallState.Laid`). So what a graph says of its
bodies after a run is what its steps say. A run also leaves no sentence that follows the pattern of an
action word (`Graph.Quiet`).

* `Enriched.told`, `Enriched.quiet`: what every run brings about.
-/

namespace Actionbook

namespace CallState

variable {formals : Handle → List (Handle × Parameter)} {target : Option Handle} {x y : CallState}
  {ps : List (Handle × Parameter)}

/-- The arguments that were written come first. -/
def Layered (x : CallState) : Prop :=
  ∃ written filled, x.arguments = written ++ filled ∧
    (∀ e ∈ written, e.2.synthesized = false) ∧ ∀ e ∈ filled, e.2.synthesized = true

theorem Explicit.layered (hx : x.Explicit) : x.Layered :=
  ⟨x.arguments, [], (List.append_nil _).symm, hx, nofun⟩

theorem Laid.layered (hx : x.Laid ps) : x.Layered := by
  obtain ⟨written, filled, hargs, hw, hf, -⟩ := hx.layers
  exact ⟨written, filled, hargs, hw, hf⟩

/-- What can be told from an argument without its binding stays when it is bound. -/
theorem forall_of_map_cleared {l l' : List (Handle × Argument)} {P : Handle × Argument → Prop}
    (h : l'.map (fun e => (e.1, e.2.cleared)) = l.map fun e => (e.1, e.2.cleared))
    (hP : ∀ e : Handle × Argument, P (e.1, e.2.cleared) ↔ P e) (hl : ∀ e ∈ l, P e) :
    ∀ e ∈ l', P e := by
  intro e he
  have hm : (e.1, e.2.cleared) ∈ l.map fun e => (e.1, e.2.cleared) := h ▸ List.mem_map_of_mem he
  obtain ⟨d, hd, hde⟩ := List.mem_map.1 hm
  rw [← hP e, ← hde, hP d]
  exact hl d hd

/-! ## Binding and completing lays calls out -/

/-- Without a target all arguments are unbound and in the order in which they are written. -/
theorem laid_cleared {args : List (Handle × Argument)} (hx : x.Layered)
    (hargs : args = x.arguments.map fun e => (e.1, e.2.cleared)) {c : Call}
    (hc : c.ordered = x.arguments.map (·.1)) : Laid [] ⟨c, args⟩ := by
  subst hargs
  obtain ⟨written, filled, hargs, hw, hf⟩ := hx
  have hnone : ∀ e ∈ x.arguments.map (fun e => (e.1, e.2.cleared)), e.2.parameter = none :=
    List.forall_mem_map.2 fun _ _ => rfl
  refine ⟨⟨written.map fun e => (e.1, e.2.cleared), filled.map fun e => (e.1, e.2.cleared), ?_,
    List.forall_mem_map.2 hw, List.forall_mem_map.2 hf, ?_⟩, fun e he p hp => ?_, ?_⟩
  · rw [hargs, List.map_append]
  · have hleft : (written.map fun e => (e.1, e.2.cleared)).map (·.2.parameter) =
        List.replicate written.length none :=
      List.eq_replicate_iff.2 ⟨by simp, List.forall_mem_map.2 (List.forall_mem_map.2 fun _ _ => rfl)⟩
    rw [hleft, eq_comm, List.eq_replicate_iff]
    exact ⟨by simp [length_slots], by simp⟩
  · rw [hnone e he] at hp
    cases hp
  · have hall : (x.arguments.map fun e => (e.1, e.2.cleared)).filter
        (fun e => e.2.parameter.isNone) = x.arguments.map fun e => (e.1, e.2.cleared) :=
      List.filter_eq_self.2 fun e he => by simp [hnone e he]
    show c.ordered = (aligned [] (x.arguments.map fun e => (e.1, e.2.cleared))).map (·.1)
    rw [aligned, List.filterMap_nil, List.nil_append, hall, List.map_map, hc]
    rfl

theorem laid_bindTo (hx : x.Layered) (hfull : x.arguments.map (·.1) = x.call.arguments)
    (hn : (((target.map formals).getD []).map (·.1)).Nodup) :
    (x.bindTo formals target).Laid ((target.map formals).getD []) := by
  cases target with
  | none => exact laid_cleared hx rfl hfull.symm
  | some t =>
    obtain ⟨written, filled, hargs, hw, hf⟩ := hx
    obtain ⟨taken, hsplit⟩ : ∃ taken, assign (formals t) 0 [] (written ++ filled) =
        assign (formals t) 0 [] written ++ assign (formals t) (0 + written.length) taken filled :=
      ⟨_, assign_append 0 [] written filled⟩
    have hcw : (assign (formals t) 0 [] written).map (fun e => (e.1, e.2.cleared)) = _ :=
      map_cleared_assign 0 [] written
    have hcf : (assign (formals t) (0 + written.length) taken filled).map
        (fun e => (e.1, e.2.cleared)) = _ := map_cleared_assign _ taken filled
    refine ⟨⟨assign (formals t) 0 [] written,
      assign (formals t) (0 + written.length) taken filled, ?_, ?_, ?_, ?_⟩, ?_, rfl⟩
    · show assign (formals t) 0 [] x.arguments = _
      rw [hargs, hsplit]
    · exact forall_of_map_cleared hcw (fun _ => Iff.rfl) hw
    · exact forall_of_map_cleared hcf (fun _ => Iff.rfl) hf
    -- what was written is bound first, so that nothing appended later has a say in it
    · have hnames : (assign (formals t) 0 [] written).map (·.2.name) = written.map (·.2.name) := by
        have h := congrArg (List.map fun e => e.2.name) hcw
        rw [List.map_map, List.map_map] at h
        exact h
      rw [hnames]
      exact map_parameter_assign hn (fun i p _ => by simp) 0 written
    · intro e he p hp
      exact (assign_bound 0 [] x.arguments).mem_of_parameter he hp

theorem Laid.retyped (hx : x.Laid ps) (g : Graph) : (x.retyped g).Laid ps := by
  obtain ⟨written, filled, hargs, hw, hf, hslots⟩ := hx.layers
  have hsyn : ∀ {l : List (Handle × Argument)} {b : Bool}, (∀ e ∈ l, e.2.synthesized = b) →
      ∀ e ∈ l.map (fun e => (e.1, g.retyped e.2)), e.2.synthesized = b := fun {l b} hl =>
    List.forall_mem_map.2 fun e he => (g.synthesized_retyped e.2).trans (hl e he)
  refine ⟨⟨_, _, ?_, hsyn hw, hsyn hf, ?_⟩, ?_, ?_⟩
  · rw [CallState.retyped, hargs, List.map_append]
  · simp only [List.map_map, Function.comp_def, g.parameter_retyped, g.name_retyped]
    exact hslots
  · refine List.forall_mem_map.2 fun e he p hp => hx.bound e he p ?_
    rwa [g.parameter_retyped] at hp
  · have hkey : (fun e : Handle × Argument => (g.retyped e.2).parameter) = fun e => e.2.parameter :=
      funext fun e => g.parameter_retyped e.2
    show x.call.ordered = (aligned _ (x.arguments.map fun e => (e.1, g.retyped e.2))).map (·.1)
    rw [aligned_eq_arranged, arranged_map, hkey, List.map_map]
    exact hx.ordered

theorem Laid.annotated {effective : Option String} {sentence : String} (hx : x.Laid ps) :
    (x.annotated effective sentence).Laid ps := ⟨hx.layers, hx.bound, hx.ordered⟩

theorem Completed.laid (hc : x.Completed formals y) (hx : x.Laid ((target.map formals).getD []))
    (hr : x.Ready formals target) : y.Laid ((target.map formals).getD []) := by
  obtain ⟨-, rfl⟩ | ⟨t, new, -, ht, hnew, rfl⟩ := hc.cases
  · exact hx
  have htarget := hr.target_eq ht
  subst htarget
  obtain ⟨written, filled, hargs, hw, hf, hslots⟩ := hx.layers
  refine ⟨⟨written, filled ++ new, ?_, hw, fun e he => ?_, hslots⟩, fun e he p hp => ?_, rfl⟩
  · show x.arguments ++ new = _
    rw [hargs, List.append_assoc]
  · rcases List.mem_append.1 he with he | he
    · exact hf e he
    · obtain ⟨p, -, -, value, -, heq⟩ := exists_default_of_mem hnew he
      rw [heq]
      rfl
  · rcases List.mem_append.1 he with he | he
    · exact hx.bound e he p hp
    · obtain ⟨q, hq, -, value, -, heq⟩ := exists_default_of_mem hnew he
      rw [heq] at hp
      cases hp
      exact List.mem_map_of_mem hq

/-! ## What a call says -/

/-- The arguments that were written, as they were written. -/
def writtenArguments (x : CallState) : List WrittenArgument :=
  (x.arguments.filter (!·.2.synthesized)).map StepState.writtenArgument

theorem writtenArguments_bindTo (x : CallState) (formals : Handle → List (Handle × Parameter))
    (target : Option Handle) : (x.bindTo formals target).writtenArguments = x.writtenArguments := by
  have e : ∀ l : List (Handle × Argument),
      (l.filter (!·.2.synthesized)).map StepState.writtenArgument =
        ((l.map fun e => (e.1, e.2.cleared)).filter (!·.2.synthesized)).map
          StepState.writtenArgument := by
    intro l
    rw [List.filter_map, List.map_map]
    rfl
  rw [writtenArguments, writtenArguments, e, map_cleared_bindTo, ← e]

/-- Completion leaves the arguments that were written alone. -/
theorem Completed.filter_arguments (hc : x.Completed formals y) :
    y.arguments.filter (!·.2.synthesized) = x.arguments.filter (!·.2.synthesized) := by
  obtain ⟨-, rfl⟩ | ⟨t, new, -, -, hnew, rfl⟩ := hc.cases
  · rfl
  · have hnil : new.filter (!·.2.synthesized) = [] := by
      refine List.filter_eq_nil_iff.2 fun e he => ?_
      obtain ⟨p, -, -, value, -, heq⟩ := exists_default_of_mem hnew he
      simp [heq, defaultArgument]
    show (x.arguments ++ new).filter _ = _
    rw [List.filter_append, hnil, List.append_nil]

theorem Completed.writtenArguments (hc : x.Completed formals y) :
    y.writtenArguments = x.writtenArguments := congrArg (List.map _) hc.filter_arguments

end CallState

/-! ## Runs -/

/-- Whether a sentence follows a pattern depends on the names of the action words. -/
theorem firstMatch?_eq_none {words : List (Handle × ActionWord)} {sentence : String} :
    firstMatch? words sentence = none ↔
      ∀ name ∈ words.map (·.2.name), Sentence.captures? name sentence = none := by
  rw [List.forall_mem_map]
  simp [firstMatch?, List.findSome?_eq_none_iff]

namespace Graph

variable {g g' m : Graph} {h : Handle} {last : Option String} {σ τ : StepState}
  {x y z : CallState}

theorem map_name_words_congr (hr : g'.root = g.root) (hf : g'.fixed = g.fixed) :
    g'.words.map (·.2.name) = g.words.map (·.2.name) := by
  have h := congrArg (List.map fun w => w.2.name) (words_congr hr hf)
  rw [List.map_map, List.map_map] at h
  exact h

/-- No plain step is a sentence that follows the pattern of an action word. -/
def Quiet (g : Graph) : Prop := ∀ h s, g.plain? h = some s →
  sentenceKeywords.contains s.key = true → firstMatch? g.words s.sentence = none

/-- The arguments of all calls that were written come first. -/
def AllLayered (g : Graph) : Prop := ∀ h x, g.state? h = some x → x.Layered

theorem Enriches.keyword? (he : m.Enriches last σ τ) : τ.keyword? = σ.keyword? := by
  cases he with
  | other hk => rfl
  | sentence hk hm => rfl
  | placed hk hm hy =>
    simp only [StepState.keyword?, CallState.annotated, hy.keyword]
  | call hy =>
    simp only [StepState.keyword?, CallState.annotated, hy.keyword, CallState.keyword_bindTo]

theorem Binds.laid (hs : g.Sound) (hb : g.Binds x y) (hx : x.Layered)
    (hfull : x.arguments.map (·.1) = x.call.arguments) :
    y.Laid (g.formalsOf x.call.actionWord) := by
  have hlaid := CallState.laid_bindTo hx hfull (hs.nodup_formalsOf x.call.actionWord)
  cases hb with
  | plain => exact hlaid
  | retyped => exact hlaid.retyped g

theorem Enriches.laid (hs : m.Sound) (he : m.Enriches last σ (.call z))
    (hx : ∀ x, σ = .call x → x.Layered ∧ x.arguments.map (·.1) = x.call.arguments) :
    z.Laid (m.formalsOf z.call.actionWord) := by
  obtain ⟨x, x', y, effective, sentence, hfrom, hw, hbinds, hc, rfl⟩ := he.exists_completed
  obtain ⟨hlayered, hfull⟩ := hfrom.elim (hx x) fun h => ⟨h.1.layered, h.2⟩
  have hlaid := hbinds.laid hs hlayered hfull
  have hready := hbinds.ready
  rw [hw] at hlaid hready
  exact (hc.laid hlaid hready).annotated

/-- **Every run lays calls out**, as long as the arguments that were written come first. -/
theorem Enriched.told (hs : g.Sound) (he : g.Enriched m g') (hl : g.AllLayered) : g'.Told where
  laid := by
    intro h z hz
    obtain ⟨last, σ, hσ, hstep⟩ := he.exists_step (isStep_of_state? hz) (step?_call hz)
    have hformals : g'.formalsOf z.call.actionWord = m.formalsOf z.call.actionWord := by
      rw [formalsOf, formalsOf, he.after.target?, he.formals]
    rw [hformals]
    refine hstep.laid he.before.sound fun x hx => ?_
    subst hx
    have hx := state?_of_step? hσ
    exact ⟨hl h x hx, hs.map_fst_of_state? hx⟩
  effective := by
    intro k d done h rest z hd hsplit hz
    rw [he.follows.definition?] at hd
    have hkeys : done.map g'.keyword? = done.map g.keyword? := by
      refine List.map_congr_left fun j hj => ?_
      obtain ⟨before, after, hbefore⟩ := List.append_of_mem hj
      obtain ⟨σ, τ, hσ, hτ, hstep⟩ := he.steps k d before j (after ++ h :: rest) hd (by
        rw [hsplit, hbefore, List.append_assoc, List.cons_append])
      rw [keyword?, keyword?, hσ, hτ]
      exact hstep.keyword?
    obtain ⟨σ, τ, hσ, hτ, hstep⟩ := he.steps k d done h rest hd hsplit
    rw [step?_call hz] at hτ
    cases hτ
    -- a call is annotated with the keyword of the step that it was, which it has kept
    rw [hkeys, StepState.effective, hstep.keyword?]
    cases hstep with
    | placed hk hm hy =>
      simp only [StepState.keyword?, Option.filter_some, hk, if_true]
      rfl
    | call hy => rfl

/-- **Every run leaves only sentences that no action word fits.** -/
theorem Enriched.quiet (he : g.Enriched m g') : g'.Quiet := by
  intro h s hs hk
  obtain ⟨last, σ, -, hstep⟩ := he.exists_step (isStep_of_plain? hs) (step?_plain hs)
  have hnames := map_name_words_congr he.after.root he.after.fixed
  cases hstep with
  | other hk' =>
    rw [hk] at hk'
    cases hk'
  | sentence _ hm =>
    rw [firstMatch?_eq_none, hnames, ← firstMatch?_eq_none]
    exact hm

theorem Told.allLayered (ht : g.Told) : g.AllLayered := fun h x hx => (ht.laid h x hx).layered

end Graph

/-- A run on a graph that has been read lays calls out. -/
theorem Design.told {d : Design} {m g : Graph} (he : d.graph.Enriched m g) : g.Told :=
  he.told d.graph_sound fun _ _ hx => (d.explicit_graph hx).layered

end Actionbook
