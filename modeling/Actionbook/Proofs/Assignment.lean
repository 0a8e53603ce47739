import Actionbook.Binding
import Actionbook.Proofs.Sorting
import Mathlib.Data.List.Nodup
import Mathlib.Data.List.Perm.Basic

/-!
# Arguments and the parameters they are bound to

The binding of a call, as functions of its list of arguments alone: `assign` binds them to parameters
from left to right, `defaults` are the arguments that stand for defaults, `aligned` is their order.

* `Bound parameters args`: every argument is either bound to one of the parameters or marked as
  unresolved, and no parameter takes two of them. `assign_bound` and `Bound.complete`: it holds after
  binding and after completion.
* `alignedArguments_ok`: arguments that are bound once are put in the order `aligned`, which is read
  off the list of parameters without sorting.
-/

namespace Actionbook

/-! ## Binding -/

/-- An argument that is not bound. -/
def Argument.cleared (a : Argument) : Argument := { a with parameter := none, unresolved := false }

/-- An argument that is bound to a parameter. -/
def Argument.boundTo (a : Argument) (p : Handle) : Argument :=
  { a with parameter := some p, unresolved := false }

/-- An argument that matches nothing. -/
def Argument.unmatched (a : Argument) : Argument := { a with parameter := none, unresolved := true }

/-- The parameter that an argument takes, if it is still free. -/
def freeParameter (parameters : List (Handle × Parameter)) (taken : List Handle) (a : Argument)
    (position : Nat) : Option (Handle × Parameter) :=
  (matchParameter parameters a position).filter fun p => !taken.contains p.1

/-- Arguments bound from left to right; the first of them is at `position`, and the parameters `taken`
are taken. -/
def assign (parameters : List (Handle × Parameter)) :
    Nat → List Handle → List (Handle × Argument) → List (Handle × Argument)
  | _, _, [] => []
  | position, taken, (h, a) :: l =>
    match freeParameter parameters taken a position with
    | some (p, _) => (h, a.boundTo p) :: assign parameters (position + 1) (p :: taken) l
    | none => (h, a.unmatched) :: assign parameters (position + 1) taken l

/-- Every argument is either bound to one of the parameters or marked as unresolved, and no parameter
takes two of them. -/
structure Bound (parameters : List Handle) (args : List (Handle × Argument)) : Prop where
  flagged : ∀ e ∈ args, (e.2.unresolved = false ∧ ∃ p ∈ parameters, e.2.parameter = some p) ∨
    (e.2.unresolved = true ∧ e.2.parameter = none)
  once : args.Pairwise fun e e' => ∀ p, e.2.parameter = some p → e'.2.parameter ≠ some p

section
variable {parameters : List (Handle × Parameter)} {taken : List Handle} {position : Nat}
  {args : List (Handle × Argument)} {a : Argument} {p : Handle × Parameter}

theorem mem_of_matchParameter (hm : matchParameter parameters a position = some p) :
    p ∈ parameters := by
  unfold matchParameter at hm
  split at hm
  · exact List.mem_of_find?_eq_some hm
  · exact List.mem_of_getElem? hm

theorem freeParameter_some (hf : freeParameter parameters taken a position = some p) :
    p ∈ parameters ∧ p.1 ∉ taken := by
  obtain ⟨hm, hn⟩ := Option.filter_eq_some_iff.1 hf
  exact ⟨mem_of_matchParameter hm, by simpa using hn⟩

theorem assign_some {e : Handle × Argument}
    (hf : freeParameter parameters taken e.2 position = some p) :
    assign parameters position taken (e :: args) =
      (e.1, e.2.boundTo p.1) :: assign parameters (position + 1) (p.1 :: taken) args := by
  simp [assign, hf]

theorem assign_none {e : Handle × Argument} (hf : freeParameter parameters taken e.2 position = none) :
    assign parameters position taken (e :: args) =
      (e.1, e.2.unmatched) :: assign parameters (position + 1) taken args := by
  simp [assign, hf]

/-- Binding changes nothing of an argument but what it is bound to. -/
theorem map_cleared_assign (position : Nat) (taken : List Handle) (args : List (Handle × Argument)) :
    (assign parameters position taken args).map (fun e => (e.1, e.2.cleared)) =
      args.map fun e => (e.1, e.2.cleared) := by
  induction args generalizing position taken with
  | nil => rfl
  | cons e args ih =>
    unfold assign
    split <;> simp only [List.map_cons, ih] <;> rfl

theorem map_fst_assign (position : Nat) (taken : List Handle) (args : List (Handle × Argument)) :
    (assign parameters position taken args).map (·.1) = args.map (·.1) := by
  have h : (assign parameters position taken args).map (fun e => (e.1, e.2.cleared)) = _ :=
    map_cleared_assign position taken args
  simpa only [List.map_map, Function.comp_def] using congrArg (List.map Prod.fst) h

/-- What is bound is bound to a free parameter. -/
theorem not_mem_of_assign {e : Handle × Argument} {p : Handle}
    (he : e ∈ assign parameters position taken args) (hp : e.2.parameter = some p) : p ∉ taken := by
  induction args generalizing position taken with
  | nil => cases he
  | cons d args ih =>
    unfold assign at he
    split at he
    · rename_i q _ hf
      rcases List.mem_cons.1 he with rfl | he
      · cases hp
        exact (freeParameter_some hf).2
      · exact fun hm => ih he (List.mem_cons_of_mem _ hm)
    · rcases List.mem_cons.1 he with rfl | he
      · cases hp
      · exact ih he

theorem assign_bound (position : Nat) (taken : List Handle) (args : List (Handle × Argument)) :
    Bound (parameters.map (·.1)) (assign parameters position taken args) := by
  induction args generalizing position taken with
  | nil => exact ⟨fun e he => (List.not_mem_nil he).elim, .nil⟩
  | cons d args ih =>
    unfold assign
    split
    · rename_i p _ hf
      have hrest := ih (position + 1) (p :: taken)
      refine ⟨fun e he => ?_, List.pairwise_cons.2 ⟨fun e he q hq hq' => ?_, hrest.once⟩⟩
      · rcases List.mem_cons.1 he with rfl | he
        · exact .inl ⟨rfl, _, List.mem_map_of_mem (freeParameter_some hf).1, rfl⟩
        · exact hrest.flagged e he
      · cases hq
        exact not_mem_of_assign he hq' List.mem_cons_self
    · have hrest := ih (position + 1) taken
      refine ⟨fun e he => ?_, List.pairwise_cons.2 ⟨fun e _ q hq => ?_, hrest.once⟩⟩
      · rcases List.mem_cons.1 he with rfl | he
        · exact .inr ⟨rfl, rfl⟩
        · exact hrest.flagged e he
      · cases hq

theorem Bound.map {parameters : List Handle} {f : Argument → Argument}
    (hf : ∀ a, (f a).parameter = a.parameter)
    (hf' : ∀ a, (f a).unresolved = a.unresolved) (hb : Bound parameters args) :
    Bound parameters (args.map fun e => (e.1, f e.2)) := by
  refine ⟨fun e he => ?_, ?_⟩
  · obtain ⟨d, hd, rfl⟩ := List.mem_map.1 he
    simp only [hf, hf']
    exact hb.flagged d hd
  · rw [List.pairwise_map]
    simpa only [hf] using hb.once

/-- The first arguments are bound without regard to those that follow, for which fewer parameters are
left. -/
theorem assign_append (position : Nat) (taken : List Handle) (args args' : List (Handle × Argument)) :
    assign parameters position taken (args ++ args') =
      assign parameters position taken args ++
        assign parameters (position + args.length)
          (((assign parameters position taken args).filterMap (·.2.parameter)).reverse ++ taken)
          args' := by
  induction args generalizing position taken with
  | nil => rfl
  | cons d args ih =>
    have e : position + (d :: args).length = position + 1 + args.length := by
      rw [List.length_cons]
      omega
    rw [List.cons_append, e]
    cases hf : freeParameter parameters taken d.2 position with
    | some p =>
      rw [assign_some hf, assign_some hf, ih, List.cons_append]
      simp [Argument.boundTo]
    | none =>
      rw [assign_none hf, assign_none hf, ih, List.cons_append]
      simp [Argument.unmatched]

end

/-! ## Order -/

/-- The argument that is bound to a parameter. -/
def argumentFor? (args : List (Handle × Argument)) (p : Handle) : Option (Handle × Argument) :=
  args.find? fun e => e.2.parameter == some p

/-- The arguments in the order of their parameters, then those that have none. -/
def aligned (parameters : List Handle) (args : List (Handle × Argument)) :
    List (Handle × Argument) :=
  parameters.filterMap (argumentFor? args) ++ args.filter (·.2.parameter.isNone)

section
variable {parameters : List Handle} {args : List (Handle × Argument)} {e : Handle × Argument}
  {p : Handle}

theorem argumentFor?_some (he : argumentFor? args p = some e) :
    e ∈ args ∧ e.2.parameter = some p := by
  refine ⟨List.mem_of_find?_eq_some he, ?_⟩
  simpa using List.find?_some he

/-- An argument that is bound is the one that is found for its parameter. -/
theorem Bound.argumentFor? (hb : Bound parameters args) (he : e ∈ args) (hp : e.2.parameter = some p) :
    argumentFor? args p = some e := by
  have honce := hb.once
  clear hb
  induction args with
  | nil => cases he
  | cons d args ih =>
    obtain ⟨hd, honce⟩ := List.pairwise_cons.1 honce
    unfold Actionbook.argumentFor?
    rw [List.find?_cons]
    rcases List.mem_cons.1 he with rfl | he
    · simp [hp]
    · have : (d.2.parameter == some p) = false := by
        simpa using fun hdp => hd e he p hdp hp
      rw [this]
      exact ih he honce

theorem Bound.mem_of_parameter (hb : Bound parameters args) (he : e ∈ args)
    (hp : e.2.parameter = some p) : p ∈ parameters := by
  rcases hb.flagged e he with ⟨-, q, hq, hqp⟩ | ⟨-, hn⟩
  · rw [hp] at hqp
    cases hqp
    exact hq
  · rw [hp] at hn
    cases hn

/-- The place of a parameter in a list without repetition. -/
theorem lastPlace?_eq (hn : parameters.Nodup) {i : Nat} (hi : parameters[i]? = some p) :
    lastPlace? parameters p = some i := by
  unfold lastPlace?
  have hmem : (p, i) ∈ parameters.zipIdx := List.mk_mem_zipIdx_iff_getElem?.2 hi
  have hsome : (parameters.zipIdx.reverse.find? fun e => e.1 == p).isSome := by
    rw [List.find?_isSome]
    exact ⟨(p, i), List.mem_reverse.2 hmem, by simp⟩
  obtain ⟨⟨q, j⟩, hq⟩ := Option.isSome_iff_exists.1 hsome
  have hm := List.mem_reverse.1 (List.mem_of_find?_eq_some hq)
  have hqp : q = p := by simpa using List.find?_some hq
  subst hqp
  have hj := List.mk_mem_zipIdx_iff_getElem?.1 hm
  rw [hq, Option.map_some]
  have hlt : i < parameters.length := (List.getElem?_eq_some_iff.1 hi).1
  exact congrArg some ((List.getElem?_inj hlt hn).1 (hi.trans hj.symm)).symm

/-- The bound arguments with the places of their parameters, in the order of the parameters. -/
def places (args : List (Handle × Argument)) (parameters : List Handle) : List (Nat × Handle) :=
  parameters.zipIdx.filterMap fun (p, i) => (argumentFor? args p).map fun e => (i, e.1)

theorem mem_places {i : Nat} {h : Handle} : (i, h) ∈ places args parameters ↔
    ∃ p a, parameters[i]? = some p ∧ argumentFor? args p = some (h, a) := by
  simp only [places, List.mem_filterMap, Option.map_eq_some_iff, Prod.mk.injEq, Prod.exists]
  constructor
  · rintro ⟨p, j, hp, k, a, ha, rfl, rfl⟩
    exact ⟨p, a, List.mk_mem_zipIdx_iff_getElem?.1 hp, ha⟩
  · rintro ⟨p, a, hp, ha⟩
    exact ⟨p, i, List.mk_mem_zipIdx_iff_getElem?.2 hp, h, a, ha, rfl, rfl⟩

theorem places_sorted : (places args parameters).Pairwise fun a b => a.1 < b.1 := by
  have hidx : parameters.zipIdx.Pairwise fun a b => a.2 < b.2 := by
    rw [← List.pairwise_map (f := Prod.snd), List.zipIdx_map_snd]
    exact List.pairwise_lt_range'
  refine hidx.filterMap _ ?_
  rintro ⟨p, i⟩ ⟨q, j⟩ hij b hb b' hb'
  obtain ⟨e, -, rfl⟩ := Option.map_eq_some_iff.1 hb
  obtain ⟨e', -, rfl⟩ := Option.map_eq_some_iff.1 hb'
  exact hij

theorem map_snd_places :
    (places args parameters).map (·.2) = (parameters.filterMap (argumentFor? args)).map (·.1) := by
  have e : parameters.filterMap (argumentFor? args) =
      parameters.zipIdx.filterMap (argumentFor? args ∘ Prod.fst) := by
    rw [← List.filterMap_map, List.zipIdx_map_fst]
  rw [e, places, List.map_filterMap, List.map_filterMap]
  apply List.filterMap_congr
  rintro ⟨p, i⟩ -
  simp [Function.comp_def]

theorem mapM_ok {α β ε : Type} {f : α → Except ε β} {g : α → β} {l : List α}
    (hf : ∀ a ∈ l, f a = .ok (g a)) : l.mapM f = .ok (l.map g) := by
  induction l with
  | nil => rfl
  | cons a l ih =>
    rw [List.mapM_cons, hf a List.mem_cons_self, ih fun b hb => hf b (List.mem_cons_of_mem _ hb)]
    rfl

/-- The place of the parameter that an argument is bound to. -/
def placeOf (parameters : List Handle) (e : Handle × Argument) : Nat :=
  parameters.idxOf (e.2.parameter.getD 0)

theorem Bound.getElem?_placeOf (hb : Bound parameters args) (he : e ∈ args)
    (hp : e.2.parameter = some p) : parameters[placeOf parameters e]? = some p := by
  rw [placeOf, hp, Option.getD_some]
  exact List.getElem?_idxOf (hb.mem_of_parameter he hp)

/-- The bound arguments in the order in which they are written are those in the order of their
parameters. -/
theorem Bound.perm_places (hn : parameters.Nodup) (hb : Bound parameters args)
    (hargs : (args.map (·.1)).Nodup) :
    ((args.filter (·.2.parameter.isSome)).map fun e => (placeOf parameters e, e.1)).Perm
      (places args parameters) := by
  have hleft : ((args.filter (·.2.parameter.isSome)).map fun e => (placeOf parameters e, e.1)).Nodup := by
    apply List.Nodup.of_map Prod.snd
    rw [List.map_map]
    exact hargs.sublist (List.filter_sublist.map _)
  have hright : (places args parameters).Nodup :=
    places_sorted.imp fun hlt e => absurd (congrArg Prod.fst e) (Nat.ne_of_lt hlt)
  rw [List.perm_ext_iff_of_nodup hleft hright]
  rintro ⟨i, h⟩
  rw [mem_places]
  simp only [List.mem_map, List.mem_filter, Prod.mk.injEq]
  constructor
  · rintro ⟨e, ⟨he, hsome⟩, rfl, rfl⟩
    obtain ⟨p, hp⟩ := Option.isSome_iff_exists.1 hsome
    exact ⟨p, e.2, hb.getElem?_placeOf he hp, hb.argumentFor? he hp⟩
  · rintro ⟨p, a, hi, ha⟩
    obtain ⟨he, hp⟩ := argumentFor?_some ha
    refine ⟨(h, a), ⟨he, Option.isSome_of_eq_some hp⟩, ?_, rfl⟩
    have hi' := hb.getElem?_placeOf he hp
    exact (List.getElem?_inj (List.getElem?_eq_some_iff.1 hi').1 hn).1 (hi'.trans hi.symm)

/-- **Arguments that are bound once are aligned**: sorting them by the places of their parameters reads
them off the list of parameters. -/
theorem alignedArguments_ok {formals : List (Handle × Parameter)} (hn : (formals.map (·.1)).Nodup)
    (hb : Bound (formals.map (·.1)) args) (hargs : (args.map (·.1)).Nodup) :
    alignedArguments formals args = .ok ((aligned (formals.map (·.1)) args).map (·.1)) := by
  unfold alignedArguments
  generalize formals.map (·.1) = parameters at hn hb ⊢
  have hsort : sortBy (fun a b => a.1 ≤ b.1)
      ((args.filter (·.2.parameter.isSome)).map fun e => (placeOf parameters e, e.1)) =
      places args parameters := by
    have hplaces : (places args parameters).Pairwise fun a b => a.1 ≤ b.1 :=
      places_sorted.imp Nat.le_of_lt
    refine List.Perm.eq_of_pairwise ?_ ?_ hplaces
      ((sortBy_perm _ _).trans (hb.perm_places hn hargs))
    · rintro ⟨i, h⟩ ⟨j, k⟩ ha hb' hij hji
      have : i = j := Nat.le_antisymm hij hji
      subst this
      have ha' := ((sortBy_perm _ _).trans (hb.perm_places hn hargs)).subset ha
      obtain ⟨p, a, hp, hpa⟩ := mem_places.1 ha'
      obtain ⟨q, b, hq, hqb⟩ := mem_places.1 hb'
      rw [hp] at hq
      cases hq
      rw [hpa] at hqb
      cases hqb
      rfl
    · refine (sortBy_sorted ?_ ?_ _).imp fun h => by simpa using h
      · intro a b
        simp only [decide_eq_true_eq]
        omega
      · intro a b c
        simp only [decide_eq_true_eq]
        omega
  refine (congrArg (Except.bind · _)
    (mapM_ok (g := fun e => (placeOf parameters e, e.1)) fun e he => ?read)).trans ?order
  case read =>
    obtain ⟨he, hsome⟩ := List.mem_filter.1 he
    obtain ⟨p, hp⟩ := Option.isSome_iff_exists.1 hsome
    simp only [hp, Option.getD_some, lastPlace?_eq hn (hb.getElem?_placeOf he hp)]
  case order =>
    simp only [Except.bind, hsort, map_snd_places, aligned, List.map_append]
    rfl

end

/-! ## Completion -/

/-- The argument that stands for the default of a parameter. -/
def defaultArgument (p : Handle × Parameter) (value : Value) : Argument :=
  { name := some p.2.name, value, parameter := some p.1, synthesized := true }

/-- The arguments that stand for the defaults of parameters without an argument. -/
def defaults (formals : List (Handle × Parameter)) (bound : List Handle) : List Argument :=
  formals.filterMap fun p =>
    if bound.contains p.1 then none else p.2.default.map (defaultArgument p)

/-- The parameters that have neither an argument nor a default. -/
def lacking (formals : List (Handle × Parameter)) (bound : List Handle) : List (Handle × Parameter) :=
  formals.filter fun p => !bound.contains p.1 && p.2.default.isNone

section
variable {formals : List (Handle × Parameter)} {bound : List Handle} {x : Argument}
  {args new : List (Handle × Argument)}

theorem defaults_skip {p : Handle × Parameter} (h : p.1 ∈ bound ∨ p.2.default = none) :
    defaults (p :: formals) bound = defaults formals bound := by
  rcases h with h | h <;> simp [defaults, h]

theorem defaults_take {p : Handle × Parameter} {value : Value} (h : p.1 ∉ bound)
    (hv : p.2.default = some value) :
    defaults (p :: formals) bound = defaultArgument p value :: defaults formals bound := by
  simp [defaults, h, hv]

theorem lacking_skip {p : Handle × Parameter} (h : p.1 ∈ bound ∨ p.2.default.isSome) :
    lacking (p :: formals) bound = lacking formals bound := by
  rcases h with h | h
  · simp [lacking, h]
  · simp [lacking, Option.isSome_iff_ne_none.1 h]

theorem lacking_take {p : Handle × Parameter} (h : p.1 ∉ bound) (hv : p.2.default = none) :
    lacking (p :: formals) bound = p :: lacking formals bound := by
  simp [lacking, h, hv]

theorem mem_defaults : x ∈ defaults formals bound ↔
    ∃ p ∈ formals, p.1 ∉ bound ∧ ∃ value, p.2.default = some value ∧ x = defaultArgument p value := by
  simp only [defaults, List.mem_filterMap]
  refine exists_congr fun p => and_congr_right fun _ => ?_
  by_cases h : p.1 ∈ bound
  · simp [h]
  · simp [h, eq_comm]

theorem defaults_once (hn : (formals.map (·.1)).Nodup) (bound : List Handle) :
    (defaults formals bound).Pairwise fun x y => ∀ p, x.parameter = some p → y.parameter ≠ some p := by
  have hn' : formals.Pairwise fun p q => p.1 ≠ q.1 := List.pairwise_map.1 hn
  refine hn'.filterMap _ ?_
  intro p q hne x hx y hy r hr hr'
  split at hx
  · cases hx
  · split at hy
    · cases hy
    · obtain ⟨v, -, rfl⟩ := Option.map_eq_some_iff.1 hx
      obtain ⟨w, -, rfl⟩ := Option.map_eq_some_iff.1 hy
      simp only [defaultArgument, Option.some.injEq] at hr hr'
      exact hne (hr.trans hr'.symm)

/-- An argument that is appended stands for the default of a parameter without an argument. -/
theorem exists_default_of_mem (hnew : new.map (·.2) = defaults formals bound)
    {e : Handle × Argument} (he : e ∈ new) : ∃ p ∈ formals, p.1 ∉ bound ∧
      ∃ value, p.2.default = some value ∧ e.2 = defaultArgument p value :=
  mem_defaults.1 (hnew ▸ List.mem_map_of_mem he)

/-- Completion keeps every parameter to one argument. -/
theorem Bound.complete (hn : (formals.map (·.1)).Nodup) (hb : Bound (formals.map (·.1)) args)
    (hnew : new.map (·.2) = defaults formals (args.filterMap (·.2.parameter))) :
    Bound (formals.map (·.1)) (args ++ new) := by
  refine ⟨fun e he => ?_, List.pairwise_append.2 ⟨hb.once, ?_, fun e he e' he' p hp hp' => ?_⟩⟩
  · rcases List.mem_append.1 he with he | he
    · exact hb.flagged e he
    · obtain ⟨p, hp, -, value, -, heq⟩ := exists_default_of_mem hnew he
      rw [heq]
      exact .inl ⟨rfl, p.1, List.mem_map_of_mem hp, rfl⟩
  · have honce := defaults_once hn (args.filterMap (·.2.parameter))
    rwa [← hnew, List.pairwise_map] at honce
  · obtain ⟨q, -, hq, value, -, heq⟩ := exists_default_of_mem hnew he'
    rw [heq] at hp'
    simp only [defaultArgument, Option.some.injEq] at hp'
    subst hp'
    exact hq (List.mem_filterMap.2 ⟨e, he, hp⟩)

/-- The parameters without an argument after completion are those that had neither an argument nor a
default before. -/
theorem lacking_of_complete (hn : (formals.map (·.1)).Nodup)
    (hnew : new.map (·.2) = defaults formals (args.filterMap (·.2.parameter))) :
    formals.filter (fun p => !((args ++ new).filterMap (·.2.parameter)).contains p.1) =
      lacking formals (args.filterMap (·.2.parameter)) := by
  refine List.filter_congr fun p hp => ?_
  rw [Bool.eq_iff_iff]
  simp only [Bool.not_eq_true', Bool.and_eq_true, List.contains_eq_mem, decide_eq_false_iff_not,
    List.filterMap_append, List.mem_append, not_or, Option.isNone_iff_eq_none]
  refine and_congr_right fun hfree => ⟨fun hnot => ?_, fun hv hm => ?_⟩
  · rw [Option.eq_none_iff_forall_ne_some]
    intro value hv
    have hx : defaultArgument p value ∈ new.map (·.2) :=
      hnew ▸ mem_defaults.2 ⟨p, hp, hfree, value, hv, rfl⟩
    obtain ⟨e, he, heq⟩ := List.mem_map.1 hx
    exact hnot (List.mem_filterMap.2 ⟨e, he, by rw [heq]; rfl⟩)
  · obtain ⟨e, he, hep⟩ := List.mem_filterMap.1 hm
    obtain ⟨q, hq, -, value, hqv, heq⟩ := exists_default_of_mem hnew he
    rw [heq] at hep
    have hpq : q = p := List.inj_on_of_nodup_map hn hq hp (Option.some.inj hep)
    rw [← hpq, hqv] at hv
    cases hv

/-- After completion every parameter with a default has an argument. -/
theorem exists_argument_of_default
    (hnew : new.map (·.2) = defaults formals (args.filterMap (·.2.parameter)))
    {p : Handle × Parameter} (hp : p ∈ formals) (hd : p.2.default.isSome) :
    ∃ e ∈ args ++ new, e.2.parameter = some p.1 := by
  by_cases hin : p.1 ∈ args.filterMap (·.2.parameter)
  · obtain ⟨e, he, hep⟩ := List.mem_filterMap.1 hin
    exact ⟨e, List.mem_append_left _ he, hep⟩
  · obtain ⟨value, hv⟩ := Option.isSome_iff_exists.1 hd
    have hx : defaultArgument p value ∈ new.map (·.2) :=
      hnew ▸ mem_defaults.2 ⟨p, hp, hin, value, hv, rfl⟩
    obtain ⟨e, he, heq⟩ := List.mem_map.1 hx
    exact ⟨e, List.mem_append_right _ he, by rw [heq]; rfl⟩

end

end Actionbook
