import Actionbook.Proofs.Assignment

/-!
# Arguments by the names of parameters

Which argument belongs to which parameter depends on names only: `slots` computes the places of the
parameters from the names of parameters and arguments, and agrees with `assign` (`map_parameter_assign`).
`arranged` puts things in the order of their keys as `aligned` does with arguments; it does not mind how
the keys are called (`arranged_rename`) nor what stands behind them (`arranged_map`).
-/

namespace Actionbook

/-! ## Places of parameters -/

/-- The place of the parameter that an argument with a name, or at a position, belongs to. -/
def place? (names : List String) (name : Option String) (position : Nat) : Option Nat :=
  match name with
  | some n => names.findIdx? (· == n)
  | none => if position < names.length then some position else none

/-- The places of the parameters that arguments take, by their names; the first of them is at
`position`, and the places `taken` are taken. -/
def slots (names : List String) : Nat → List Nat → List (Option String) → List (Option Nat)
  | _, _, [] => []
  | position, taken, a :: l =>
    match (place? names a position).filter fun i => !taken.contains i with
    | some i => some i :: slots names (position + 1) (i :: taken) l
    | none => none :: slots names (position + 1) taken l

theorem length_slots (names : List String) (position : Nat) (taken : List Nat)
    (l : List (Option String)) : (slots names position taken l).length = l.length := by
  induction l generalizing position taken with
  | nil => rfl
  | cons a l ih =>
    unfold slots
    split <;> simp [ih]

theorem place?_lt {names : List String} {name : Option String} {position i : Nat}
    (hp : place? names name position = some i) : i < names.length := by
  unfold place? at hp
  split at hp
  · exact (List.findIdx?_eq_some_iff_getElem.1 hp).1
  · split at hp
    · cases hp
      assumption
    · cases hp

/-- A place that is taken is the place of a parameter. -/
theorem slots_lt {names : List String} {position : Nat} {taken : List Nat}
    {l : List (Option String)} {i : Nat} (hm : some i ∈ slots names position taken l) :
    i < names.length := by
  induction l generalizing position taken with
  | nil => cases hm
  | cons a l ih =>
    unfold slots at hm
    split at hm
    · rename_i j hj
      rcases List.mem_cons.1 hm with hm | hm
      · cases hm
        exact place?_lt (Option.filter_eq_some_iff.1 hj).1
      · exact ih hm
    · rcases List.mem_cons.1 hm with hm | hm
      · cases hm
      · exact ih hm

/-- A place that an argument takes is the one that its name gives, or a position. -/
theorem exists_place?_of_mem_slots {names : List String} {position : Nat} {taken : List Nat}
    {l : List (Option String)} {a : Option String} {i : Nat}
    (hm : (a, some i) ∈ l.zip (slots names position taken l)) :
    ∃ position, place? names a position = some i := by
  induction l generalizing position taken with
  | nil => cases hm
  | cons b l ih =>
    unfold slots at hm
    split at hm
    · rename_i j hj
      rcases List.mem_cons.1 hm with hm | hm
      · cases hm
        exact ⟨position, (Option.filter_eq_some_iff.1 hj).1⟩
      · exact ih hm
    · rcases List.mem_cons.1 hm with hm | hm
      · cases hm
      · exact ih hm

/-- No place is taken twice. -/
theorem nodup_slots (names : List String) (position : Nat) (taken : List Nat) (l : List (Option String)) :
    ((slots names position taken l).filterMap id).Nodup ∧
      ∀ i ∈ (slots names position taken l).filterMap id, i ∉ taken := by
  induction l generalizing position taken with
  | nil => exact ⟨List.nodup_nil, fun i hi => absurd hi List.not_mem_nil⟩
  | cons a l ih =>
    unfold slots
    split
    · rename_i i hi
      obtain ⟨hn, hfresh⟩ := ih (position + 1) (i :: taken)
      have hi : i ∉ taken := by simpa using (Option.filter_eq_some_iff.1 hi).2
      simp only [List.filterMap_cons, id, List.nodup_cons, List.forall_mem_cons]
      refine ⟨⟨fun hm => hfresh i hm List.mem_cons_self, hn⟩, hi, fun k hk hm => ?_⟩
      exact hfresh k hk (List.mem_cons_of_mem _ hm)
    · exact ih (position + 1) taken

section
variable {formals : List (Handle × Parameter)}

theorem find?_eq_bind {α : Type} (l : List α) (f : α → Bool) :
    l.find? f = (l.findIdx? f).bind (l[·]?) := by
  induction l with
  | nil => rfl
  | cons a l ih =>
    rw [List.find?_cons, List.findIdx?_cons, ih]
    cases h : f a with
    | true => rfl
    | false =>
      simp only [Bool.false_eq_true, if_false, Option.bind_map]
      rfl

theorem matchParameter_eq (a : Argument) (position : Nat) : matchParameter formals a position =
    (place? (formals.map (·.2.name)) a.name position).bind (formals[·]?) := by
  unfold matchParameter place?
  cases a.name with
  | some n =>
    show formals.find? _ = ((formals.map (·.2.name)).findIdx? (· == n)).bind _
    rw [find?_eq_bind, List.findIdx?_map]
    rfl
  | none =>
    show formals[position]? = _
    by_cases h : position < formals.length
    · simp [h]
    · simp [h]

/-- The parameter that an argument takes is the one at the place that it takes. -/
theorem freeParameter_eq {taken : List Handle} {places : List Nat}
    (ht : ∀ i p, formals[i]? = some p → (p.1 ∈ taken ↔ i ∈ places)) (a : Argument) (position : Nat) :
    freeParameter formals taken a position =
      ((place? (formals.map (·.2.name)) a.name position).filter fun i => !places.contains i).bind
        (formals[·]?) := by
  rw [freeParameter, matchParameter_eq]
  cases hi : place? (formals.map (·.2.name)) a.name position with
  | none => rfl
  | some i =>
    have hlt : i < formals.length := by simpa using place?_lt hi
    have hget : formals[i]? = some formals[i] := List.getElem?_eq_getElem hlt
    have := ht i _ hget
    by_cases hin : i ∈ places <;> simp [hget, Option.filter, this, hin]

/-- **Arguments are bound by names only**: their parameters are those at the places that names give. -/
theorem map_parameter_assign (hn : (formals.map (·.1)).Nodup) {taken : List Handle} {places : List Nat}
    (ht : ∀ i p, formals[i]? = some p → (p.1 ∈ taken ↔ i ∈ places)) (position : Nat)
    (args : List (Handle × Argument)) :
    (assign formals position taken args).map (·.2.parameter) =
      (slots (formals.map (·.2.name)) position places (args.map (·.2.name))).map fun s =>
        s.bind fun i => formals[i]?.map (·.1) := by
  induction args generalizing position taken places with
  | nil => rfl
  | cons e args ih =>
    have hfree := freeParameter_eq ht e.2 position
    rw [List.map_cons, slots]
    cases hi : (place? (formals.map (·.2.name)) e.2.name position).filter fun i =>
        !places.contains i with
    | none =>
      rw [hi] at hfree
      rw [assign_none hfree]
      simp only [List.map_cons, ih ht, Argument.unmatched, Option.bind_none]
    | some i =>
      have hlt : i < formals.length := by
        simpa using place?_lt (Option.filter_eq_some_iff.1 hi).1
      have hget : formals[i]? = some formals[i] := List.getElem?_eq_getElem hlt
      rw [hi, Option.bind_some, hget] at hfree
      -- one more parameter is taken, at one more place
      have ht' : ∀ j p, formals[j]? = some p →
          (p.1 ∈ formals[i].1 :: taken ↔ j ∈ i :: places) := by
        intro j p hj
        have heq : p.1 = formals[i].1 ↔ j = i := by
          constructor
          · intro he
            have h1 : (formals.map (·.1))[j]? = some p.1 := by simp [hj]
            have h2 : (formals.map (·.1))[i]? = some p.1 := by simp [hget, he]
            exact (List.getElem?_inj (List.getElem?_eq_some_iff.1 h1).1 hn).1 (h1.trans h2.symm)
          · rintro rfl
            rw [hget] at hj
            rw [Option.some.inj hj]
        rw [List.mem_cons, List.mem_cons, heq, ht j p hj]
      rw [assign_some hfree]
      simp only [List.map_cons, ih ht', Argument.boundTo, Option.bind_some, hget, Option.map_some]

end

/-! ## Things in the order of their keys -/

section
variable {α β κ : Type} [DecidableEq κ]

/-- Things with keys in the order of these, then those without a key. -/
def arranged (key : α → Option κ) (order : List κ) (l : List α) : List α :=
  order.filterMap (fun k => l.find? fun a => key a == some k) ++ l.filter fun a => (key a).isNone

theorem aligned_eq_arranged (parameters : List Handle) (args : List (Handle × Argument)) :
    aligned parameters args = arranged (fun e => e.2.parameter) parameters args := rfl

theorem mem_of_mem_arranged {key : α → Option κ} {order : List κ} {l : List α} {a : α}
    (ha : a ∈ arranged key order l) : a ∈ l := by
  rcases List.mem_append.1 ha with ha | ha
  · obtain ⟨k, -, hk⟩ := List.mem_filterMap.1 ha
    exact List.mem_of_find?_eq_some hk
  · exact (List.mem_filter.1 ha).1

/-- Nothing gets lost as long as the keys are in the order. -/
theorem eq_nil_of_arranged {key : α → Option κ} {order : List κ} {l : List α}
    (hin : ∀ a ∈ l, ∀ k, key a = some k → k ∈ order) (hnil : arranged key order l = []) : l = [] := by
  refine List.eq_nil_iff_forall_not_mem.2 fun a ha => ?_
  suffices ∃ b, b ∈ arranged key order l by
    obtain ⟨b, hb⟩ := this
    rw [hnil] at hb
    cases hb
  cases hk : key a with
  | none => exact ⟨a, List.mem_append_right _ (List.mem_filter.2 ⟨ha, by simp [hk]⟩)⟩
  | some k =>
    have hsome : (l.find? fun a => key a == some k).isSome :=
      List.find?_isSome.2 ⟨a, ha, by simp [hk]⟩
    obtain ⟨b, hb⟩ := Option.isSome_iff_exists.1 hsome
    exact ⟨b, List.mem_append_left _ (List.mem_filterMap.2 ⟨k, hin a ha k hk, hb⟩)⟩

/-- At most one thing has a key. -/
theorem toList_find?_key {key : α → Option κ} {l : List α} (hn : (l.filterMap key).Nodup) (k : κ) :
    (l.find? fun a => key a == some k).toList = l.filter fun a => key a == some k := by
  induction l with
  | nil => rfl
  | cons a l ih =>
    by_cases hk : key a = some k
    · rw [List.filterMap_cons, hk, List.nodup_cons] at hn
      have hnone : l.filter (fun b => key b == some k) = [] := by
        refine List.filter_eq_nil_iff.2 fun b hb hb' => hn.1 (List.mem_filterMap.2 ⟨b, hb, ?_⟩)
        simpa using hb'
      simp [hk, hnone]
    · have hn : (l.filterMap key).Nodup := by
        rw [List.filterMap_cons] at hn
        split at hn
        · exact hn
        · exact (List.nodup_cons.1 hn).2
      rw [List.find?_cons_of_neg (by simpa using hk), List.filter_cons_of_neg (by simpa using hk), ih hn]

/-- Things whose keys are in the order and told apart are all there. -/
theorem mem_arranged {key : α → Option κ} {order : List κ} {l : List α} {a : α}
    (hn : (l.filterMap key).Nodup) (hin : ∀ k, key a = some k → k ∈ order) (ha : a ∈ l) :
    a ∈ arranged key order l := by
  cases hk : key a with
  | none => exact List.mem_append_right _ (List.mem_filter.2 ⟨ha, by simp [hk]⟩)
  | some k =>
    have hfind : a ∈ (l.find? fun b => key b == some k).toList := by
      rw [toList_find?_key hn]
      exact List.mem_filter.2 ⟨ha, by simp [hk]⟩
    exact List.mem_append_left _ (List.mem_filterMap.2 ⟨k, hin k hk, Option.mem_toList.1 hfind⟩)

/-- Things with keys of their own are arranged key by key. -/
theorem arranged_eq_flatMap {key : α → Option κ} {l : List α} (hn : (l.filterMap key).Nodup)
    (hall : ∀ a ∈ l, (key a).isSome) (order : List κ) :
    arranged key order l = order.flatMap fun k => l.filter fun a => key a == some k := by
  have hrest : l.filter (fun a => (key a).isNone) = [] := by
    refine List.filter_eq_nil_iff.2 fun a ha => ?_
    simpa [Option.isSome_iff_ne_none] using hall a ha
  rw [arranged, hrest, List.append_nil, List.filterMap_eq_flatMap_toList]
  exact List.flatMap_congr fun k _ => toList_find?_key hn k

theorem arranged_map (key : α → Option κ) (order : List κ) (f : β → α) (l : List β) :
    arranged key order (l.map f) = (arranged (fun b => key (f b)) order l).map f := by
  simp only [arranged, List.find?_map, List.filter_map, List.map_append, List.map_filterMap,
    Function.comp_def]

/-- Other names for the keys make no difference. -/
theorem arranged_rename {κ' : Type} [DecidableEq κ'] {key : α → Option κ} {key' : α → Option κ'}
    {order : List κ} {l : List α} (name : κ → κ') (hkey : ∀ a ∈ l, key' a = (key a).map name)
    (hinj : ∀ a ∈ l, ∀ i, key a = some i → ∀ j ∈ order, name i = name j → i = j) :
    arranged key' (order.map name) l = arranged key order l := by
  unfold arranged
  rw [List.filterMap_map]
  congr 1
  · refine List.filterMap_congr fun j hj => ?_
    show l.find? _ = l.find? _
    rw [← List.head?_filter, ← List.head?_filter]
    refine congrArg List.head? (List.filter_congr fun a ha => ?_)
    rw [hkey a ha]
    cases hi : key a with
    | none => rfl
    | some i =>
      by_cases e : i = j
      · simp [e]
      · have : name i ≠ name j := fun h => e (hinj a ha i hi j hj h)
        simp [e, this]
  · refine List.filter_congr fun a ha => ?_
    rw [hkey a ha, Option.isNone_map]

/-- Things that are left out in the end make no difference if they come last. -/
theorem filter_arranged_append {key : α → Option κ} {order : List κ} {l l' : List α} {f : α → Bool}
    (hl : ∀ a ∈ l, f a = true) (hl' : ∀ a ∈ l', f a = false) :
    (arranged key order (l ++ l')).filter f = arranged key order l := by
  have h1 : ∀ k, ((l ++ l').find? fun a => key a == some k).filter f =
      l.find? fun a => key a == some k := by
    intro k
    rw [List.find?_append]
    cases ha : l.find? fun a => key a == some k with
    | some a => simp [Option.filter, hl a (List.mem_of_find?_eq_some ha)]
    | none =>
      rw [Option.none_or]
      cases hb : l'.find? fun a => key a == some k with
      | none => rfl
      | some b => simp [Option.filter, hl' b (List.mem_of_find?_eq_some hb)]
  have h2 : (l'.filter fun a => (key a).isNone).filter f = [] := by
    refine List.filter_eq_nil_iff.2 fun a ha => ?_
    simp [hl' a (List.mem_filter.1 ha).1]
  have h3 : (l.filter fun a => (key a).isNone).filter f = l.filter fun a => (key a).isNone :=
    List.filter_eq_self.2 fun a ha => hl a (List.mem_filter.1 ha).1
  unfold arranged
  rw [List.filter_append, List.filter_filterMap, List.filter_append, List.filter_append, h2, h3,
    List.append_nil]
  simp only [h1]

end

end Actionbook
