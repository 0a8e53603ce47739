import Actionbook.Proofs.Settling

/-!
# Calls that are bound already

Binding depends on names only, and so a call that has been bound and completed is bound to the same
parameters again, as long as the argument that stands for a default finds its parameter under its name:
no parameter before it may have the same one (`DefaultsFirst`). Such a call is `Steady`: a further run
leaves its arguments alone.

* `assign_completed`: arguments that are bound and completed stay when they are bound again.
* `Enriches.steady`: a run makes all calls steady.
-/

namespace Actionbook

/-- No parameter with a default has the name of a parameter before it. -/
def DefaultsFirst (l : List WrittenParameter) : Prop :=
  l.Pairwise fun p q => q.default.isSome → p.name ≠ q.name

instance (l : List WrittenParameter) : Decidable (DefaultsFirst l) :=
  inferInstanceAs (Decidable (l.Pairwise _))

/-- Parameters with their handles, as they were written. -/
def writtenFormals (formals : List (Handle × Parameter)) : List (Handle × WrittenParameter) :=
  formals.map fun p => (p.1, p.2.written)

/-- A change of an argument that does not show in what it is called or bound to. -/
structure Argument.Revalues (f : Argument → Argument) : Prop where
  name : ∀ a, (f a).name = a.name
  parameter : ∀ a, (f a).parameter = a.parameter
  unresolved : ∀ a, (f a).unresolved = a.unresolved

section
variable {formals formals' : List (Handle × Parameter)} {taken : List Handle} {position : Nat}
  {args new : List (Handle × Argument)} {f : Argument → Argument}

/-! ## Binding again -/

theorem Argument.eq_boundTo {a : Argument} {p : Handle} (hp : a.parameter = some p)
    (hu : a.unresolved = false) : a.boundTo p = a := by
  cases a
  cases hp
  cases hu
  rfl

theorem Argument.eq_unmatched {a : Argument} (hp : a.parameter = none) (hu : a.unresolved = true) :
    a.unmatched = a := by
  cases a
  cases hp
  cases hu
  rfl

theorem Argument.eq_cleared {a : Argument} (hp : a.parameter = none) (hu : a.unresolved = false) :
    a.cleared = a := by
  cases a
  cases hp
  cases hu
  rfl

theorem freeParameter_congr {a b : Argument} (h : a.name = b.name) :
    freeParameter formals taken a position = freeParameter formals taken b position := by
  rw [freeParameter, freeParameter, matchParameter, matchParameter, h]

/-- Arguments that have been bound are bound to the same parameters again, whatever their values. -/
theorem assign_map_assign (hf : Argument.Revalues f) :
    assign formals position taken ((assign formals position taken args).map fun e => (e.1, f e.2)) =
      (assign formals position taken args).map fun e => (e.1, f e.2) := by
  induction args generalizing position taken with
  | nil => rfl
  | cons e args ih =>
    cases hfree : freeParameter formals taken e.2 position with
    | some p =>
      have hagain : freeParameter formals taken (f (e.2.boundTo p.1)) position = some p := by
        rw [freeParameter_congr (hf.name _)]
        exact hfree
      have hstay : (f (e.2.boundTo p.1)).boundTo p.1 = f (e.2.boundTo p.1) :=
        Argument.eq_boundTo (hf.parameter _) (hf.unresolved _)
      rw [assign_some hfree, List.map_cons, assign_some hagain, ih, hstay]
    | none =>
      have hagain : freeParameter formals taken (f e.2.unmatched) position = none := by
        rw [freeParameter_congr (hf.name _)]
        exact hfree
      have hstay : (f e.2.unmatched).unmatched = f e.2.unmatched :=
        Argument.eq_unmatched (hf.parameter _) (hf.unresolved _)
      rw [assign_none hfree, List.map_cons, assign_none hagain, ih, hstay]

/-- A parameter with a default is the one that its name means. -/
theorem find?_of_defaultsFirst (hd : DefaultsFirst (formals.map (·.2.written)))
    {p : Handle × Parameter} (hp : p ∈ formals) (hdefault : p.2.default.isSome) :
    formals.find? (·.2.name == p.2.name) = some p := by
  obtain ⟨before, after, rfl⟩ := List.append_of_mem hp
  have hbefore : before.find? (·.2.name == p.2.name) = none := by
    refine List.find?_eq_none.2 fun q hq => ?_
    have hd' := List.pairwise_map.1 hd
    have hne := (List.pairwise_append.1 hd').2.2 q hq p List.mem_cons_self hdefault
    simpa [Parameter.written] using hne
  rw [List.find?_append, hbefore, Option.none_or, List.find?_cons]
  simp

/-- Arguments that stand for defaults are bound to the same parameters again. -/
theorem assign_defaults (hd : DefaultsFirst (formals.map (·.2.written)))
    (hnew : ∀ e ∈ new, ∃ p ∈ formals, p.1 ∉ taken ∧ ∃ value, p.2.default = some value ∧
      e.2 = defaultArgument p value)
    (honce : new.Pairwise fun e e' => ∀ p, e.2.parameter = some p → e'.2.parameter ≠ some p) :
    assign formals position taken new = new := by
  induction new generalizing position taken with
  | nil => rfl
  | cons e new ih =>
    obtain ⟨hother, honce⟩ := List.pairwise_cons.1 honce
    obtain ⟨p, hp, hfree, value, hvalue, he⟩ := hnew e List.mem_cons_self
    have hfirst := find?_of_defaultsFirst hd hp (Option.isSome_of_eq_some hvalue)
    have htake : freeParameter formals taken e.2 position = some p := by
      rw [he, freeParameter]
      show (formals.find? (·.2.name == p.2.name)).filter _ = some p
      rw [hfirst]
      simp [Option.filter, hfree]
    have hbound : e.2.boundTo p.1 = e.2 := by
      rw [he]
      rfl
    rw [assign_some htake, hbound, ih (fun d hdm => ?_) honce]
    obtain ⟨q, hq, hfree', value', hvalue', hd'⟩ := hnew d (List.mem_cons_of_mem _ hdm)
    refine ⟨q, hq, fun hm => ?_, value', hvalue', hd'⟩
    rcases List.mem_cons.1 hm with hqp | hm
    · exact hother d hdm p.1 (by rw [he]; rfl) (by rw [hd', ← hqp]; rfl)
    · exact hfree' hm

/-- **Arguments that are bound and completed** stay when they are bound again. -/
theorem assign_completed (hn : (formals.map (·.1)).Nodup)
    (hd : DefaultsFirst (formals.map (·.2.written))) (hf : Argument.Revalues f)
    (hnew : new.map (·.2) = defaults formals
      (((assign formals 0 [] args).map fun e => (e.1, f e.2)).filterMap (·.2.parameter))) :
    assign formals 0 [] ((assign formals 0 [] args).map (fun e => (e.1, f e.2)) ++ new) =
      (assign formals 0 [] args).map (fun e => (e.1, f e.2)) ++ new := by
  rw [assign_append, assign_map_assign hf]
  refine congrArg _ (assign_defaults hd (fun e he => ?_) ?_)
  · obtain ⟨p, hp, hfree, value, hvalue, heq⟩ := exists_default_of_mem hnew he
    exact ⟨p, hp, by simpa using hfree, value, hvalue, heq⟩
  · have honce := defaults_once hn
      (((assign formals 0 [] args).map fun e => (e.1, f e.2)).filterMap (·.2.parameter))
    rwa [← hnew, List.pairwise_map] at honce

/-! ## Other types -/

/-- What is bound to what depends on the names of parameters only. -/
theorem map_fst_freeParameter (a : Argument) :
    (freeParameter formals taken a position).map (·.1) =
      ((match a.name with
        | some name => (writtenFormals formals).find? (·.2.name == name)
        | none => (writtenFormals formals)[position]? :
          Option (Handle × WrittenParameter)).map (·.1)).filter fun p => !taken.contains p := by
  unfold freeParameter matchParameter writtenFormals
  cases a.name with
  | some name =>
    simp only [List.find?_map]
    show _ = Option.filter _ (Option.map _ (Option.map _ (formals.find? (·.2.name == name))))
    cases formals.find? (·.2.name == name) with
    | none => rfl
    | some p => by_cases h : p.1 ∈ taken <;> simp [Option.filter, h]
  | none =>
    simp only [List.getElem?_map]
    cases formals[position]? with
    | none => rfl
    | some p => by_cases h : p.1 ∈ taken <;> simp [Option.filter, h]

theorem assign_congr (h : writtenFormals formals = writtenFormals formals') :
    assign formals position taken args = assign formals' position taken args := by
  induction args generalizing position taken with
  | nil => rfl
  | cons e args ih =>
    have hfree : (freeParameter formals taken e.2 position).map (·.1) =
        (freeParameter formals' taken e.2 position).map (·.1) := by
      rw [map_fst_freeParameter, map_fst_freeParameter, h]
    cases hp : freeParameter formals taken e.2 position with
    | none =>
      rw [hp, Option.map_none, eq_comm, Option.map_eq_none_iff] at hfree
      rw [assign_none hp, assign_none hfree, ih]
    | some p =>
      rw [hp, Option.map_some, eq_comm, Option.map_eq_some_iff] at hfree
      obtain ⟨q, hq, hqp⟩ := hfree
      rw [assign_some hp, assign_some hq, hqp, ih]

theorem defaults_eq_nil {bound : List Handle} : defaults formals bound = [] ↔
    ∀ p ∈ writtenFormals formals, p.2.default.isSome → p.1 ∈ bound := by
  rw [List.eq_nil_iff_forall_not_mem, writtenFormals, List.forall_mem_map]
  constructor
  · intro h p hp hdefault
    obtain ⟨value, hvalue⟩ := Option.isSome_iff_exists.1 hdefault
    apply Classical.byContradiction
    exact fun hfree => h _ (mem_defaults.2 ⟨p, hp, hfree, value, hvalue, rfl⟩)
  · intro h a ha
    obtain ⟨p, hp, hfree, value, hvalue, -⟩ := mem_defaults.1 ha
    exact hfree (h p hp (Option.isSome_of_eq_some hvalue))

/-- Completed arguments lack no default. -/
theorem defaults_of_completed
    (hnew : new.map (·.2) = defaults formals (args.filterMap (·.2.parameter))) :
    defaults formals ((args ++ new).filterMap (·.2.parameter)) = [] := by
  refine defaults_eq_nil.2 (List.forall_mem_map.2 fun p hp hdefault => ?_)
  obtain ⟨e, he, hep⟩ := exists_argument_of_default hnew hp hdefault
  exact List.mem_filterMap.2 ⟨e, he, hep⟩

end

/-! ## Steady calls -/

namespace CallState

variable {formals formals' : Handle → List (Handle × Parameter)} {target : Option Handle}
  {x y : CallState} {f : Argument → Argument}

/-- Binding and completing leave the call as it is. -/
structure Steady (formals : Handle → List (Handle × Parameter)) (target : Option Handle)
    (x : CallState) : Prop where
  bind : x.bindTo formals target = x
  full : ∀ t, target = some t → defaults (formals t) (x.arguments.filterMap (·.2.parameter)) = []

theorem Steady.annotated {effective : Option String} {sentence : String}
    (hx : x.Steady formals target) : (x.annotated effective sentence).Steady formals target := by
  refine ⟨?_, hx.full⟩
  have hcomm : (x.annotated effective sentence).bindTo formals target =
      (x.bindTo formals target).annotated effective sentence := by cases target <;> rfl
  rw [hcomm, hx.bind]

theorem Steady.congr (hx : x.Steady formals target)
    (h : ∀ t, writtenFormals (formals' t) = writtenFormals (formals t)) :
    x.Steady formals' target := by
  have hfst : ∀ t, (formals' t).map (·.1) = (formals t).map (·.1) := fun t => by
    have hmap := congrArg (List.map Prod.fst) (h t)
    simp only [writtenFormals, List.map_map] at hmap
    exact hmap
  refine ⟨?_, fun t ht => ?_⟩
  · have hbind : x.bindTo formals' target = x.bindTo formals target := by
      cases target with
      | none => rfl
      | some t => simp only [bindTo, assign_congr (h t), hfst]
    rw [hbind, hx.bind]
  · rw [defaults_eq_nil, h, ← defaults_eq_nil]
    exact hx.full t ht

/-- A steady call is completed by nothing. -/
theorem Steady.eq_of_completed (hx : x.Steady formals target) (hc : Completed formals x y) :
    y = x := by
  obtain ⟨-, rfl⟩ | ⟨t, new, hr, ht, hnew, rfl⟩ := hc.cases
  · rfl
  cases target with
  | none =>
    have hcall := congrArg (fun y => y.call.target) hx.bind
    rw [ht] at hcall
    cases hcall
  | some t' =>
    obtain rfl : t' = t := by
      have hcall := congrArg (fun y => y.call.target) hx.bind
      rw [ht] at hcall
      exact Option.some.inj hcall
    rw [hx.full t' rfl, List.map_eq_nil_iff] at hnew
    subst hnew
    -- the order of a call that is bound is that of its parameters already
    have hargs : assign (formals t') 0 [] x.arguments = x.arguments :=
      congrArg CallState.arguments hx.bind
    have hordered : (aligned ((formals t').map (·.1)) (assign (formals t') 0 [] x.arguments)).map
        (·.1) = x.call.ordered := congrArg (fun y => y.call.ordered) hx.bind
    rw [hargs] at hordered
    simp only [extend, List.append_nil, List.map_nil, hordered]

/-- **A call that is bound and completed is steady**, whatever the values of its arguments have become
in between. -/
theorem Completed.steady (hc : Completed formals
      { x.bindTo formals target with
        arguments := (x.bindTo formals target).arguments.map fun e => (e.1, f e.2) } y)
    (hf : Argument.Revalues f) (hn : ∀ t, target = some t → ((formals t).map (·.1)).Nodup)
    (hd : ∀ t, target = some t → DefaultsFirst ((formals t).map (·.2.written))) :
    y.Steady formals target := by
  cases target with
  | none =>
    obtain ⟨-, rfl⟩ | ⟨t, new, hr, -⟩ := hc.cases
    · refine ⟨?_, nofun⟩
      have hclear : ∀ a : Argument, (f a.cleared).cleared = f a.cleared := fun a =>
        Argument.eq_cleared (hf.parameter _) (hf.unresolved _)
      simp only [bindTo, List.map_map, Function.comp_def, hclear]
    · cases hr
  | some t =>
    obtain ⟨hnone, -⟩ | ⟨t', new, -, ht, hnew, rfl⟩ := hc.cases
    · cases hnone rfl
    · cases ht
      have hargs := assign_completed (hn t rfl) (hd t rfl) hf hnew
      refine ⟨?_, fun t' ht' => ?_⟩
      · simp only [bindTo, extend] at hargs ⊢
        rw [hargs]
      · cases ht'
        exact defaults_of_completed hnew

end CallState

namespace Graph

variable {m : Graph} {last : Option String} {σ τ : StepState} {x x' z : CallState}

theorem revalues_retyped (g : Graph) : Argument.Revalues g.retyped :=
  ⟨g.name_retyped, g.parameter_retyped, g.unresolved_retyped⟩

/-- Binding may change the values of arguments, and no more. -/
theorem Binds.exists_revalues (hb : m.Binds x x') : ∃ f, Argument.Revalues f ∧
    x' = { x.bindTo m.formals (m.target? x.call.actionWord) with
      arguments := (x.bindTo m.formals (m.target? x.call.actionWord)).arguments.map
        fun e => (e.1, f e.2) } := by
  cases hb with
  | plain =>
    refine ⟨id, ⟨fun _ => rfl, fun _ => rfl, fun _ => rfl⟩, ?_⟩
    have hid : (x.bindTo m.formals (m.target? x.call.actionWord)).arguments.map
        (fun e => (e.1, id e.2)) = (x.bindTo m.formals (m.target? x.call.actionWord)).arguments :=
      List.map_id _
    rw [hid]
  | retyped => exact ⟨m.retyped, m.revalues_retyped, rfl⟩

/-- **Every run makes every call steady.** -/
theorem Enriches.steady (hs : m.Sound)
    (hd : ∀ name t, m.target? name = some t → DefaultsFirst ((m.formals t).map (·.2.written)))
    (he : m.Enriches last σ (.call z)) :
    z.Steady m.formals (m.target? z.call.actionWord) := by
  obtain ⟨x, x', y, effective, sentence, -, hw, hbinds, hc, rfl⟩ := he.exists_completed
  obtain ⟨f, hf, rfl⟩ := hbinds.exists_revalues
  rw [← hw]
  exact (hc.steady hf (fun t => hs.nodup_target) (hd _)).annotated

end Graph

end Actionbook
