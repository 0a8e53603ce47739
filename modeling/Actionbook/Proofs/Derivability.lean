import Actionbook.Proofs.Signatures

/-!
# Where types come from

`Graph.Derivable` says which types there are to be found for a parameter, with no word on how they are
searched for: the declared type; what literals show, in data tables, defaults and calls
(`Graph.Literal`); and what is handed on from the parameter that a call refers to (`Graph.Passed`).

Evidence is gathered entry by entry, and an entry is added only for what the graph shows at that time
(`Graph.Learns`). All invariants come from that, by one induction each:

* `Learns.kept`: what is known stays known.
* `Learns.tidy`: every parameter has one entry at most, so that no evidence outgrows its graph.
* `Learns.grounded`: what is known is derivable. No entry can rest on itself, as each one rests on
  earlier ones.
-/

namespace Actionbook

/-! ## Types that are known -/

/-- The type that a parameter is declared with, if any. -/
def Parameter.declared? (p : Parameter) : Option String := p.declaredType.filter (!·.isEmpty)

namespace Evidence

variable {e e' : Evidence} {h : Handle} {p : Parameter} {t : String}

theorem typeOf_eq (e : Evidence) (h : Handle) (p : Parameter) :
    e.typeOf h p = p.declared?.or (e.lookup h) := by
  unfold typeOf Parameter.declared?
  cases p.declaredType with
  | none => rfl
  | some t =>
    by_cases ht : t.isEmpty
    · simp [ht, Option.filter]
    · simp [ht, Option.filter]

theorem typeOf_eq_some :
    e.typeOf h p = some t ↔ p.declared? = some t ∨ p.declared? = none ∧ e.lookup h = some t := by
  rw [typeOf_eq, Option.or_eq_some_iff]

theorem lookup_mono (he : e <+: e') (hl : e.lookup h = some t) : e'.lookup h = some t := by
  obtain ⟨l, rfl⟩ := he
  rw [List.lookup_append, hl, Option.some_or]

theorem typeOf_mono (he : e <+: e') (ht : e.typeOf h p = some t) : e'.typeOf h p = some t := by
  rw [typeOf_eq_some] at ht ⊢
  exact ht.imp_right fun ⟨hno, hl⟩ => ⟨hno, lookup_mono he hl⟩

/-- What has been recorded stays recorded. -/
theorem recorded_mono (he : e <+: e') (hl : (e.lookup h).isSome) : (e'.lookup h).isSome := by
  obtain ⟨t, ht⟩ := Option.isSome_iff_exists.1 hl
  rw [lookup_mono he ht]
  rfl

/-- Whatever shows a type is recorded, if nothing was before. -/
theorem recorded_record (e : Evidence) (h : Handle) (t : String) :
    ((e.record h (some t)).lookup h).isSome := by
  simp only [record]
  split
  · assumption
  · rw [List.lookup_append, List.lookup_cons_self]
    cases e.lookup h <;> rfl

end Evidence

namespace Graph

variable {g : Graph} {e e' : Evidence} {h k p p' : Handle} {t : String}

/-! ## What may be derived -/

/-- An argument of a call is for a parameter of the action word that is called. -/
def Receives (g : Graph) (p h : Handle) (a : Argument) : Prop :=
  ∃ c w i b q, g.content? h = some (.call c) ∧ g.target? c.actionWord = some w ∧
    (g.arguments c)[i]? = some (b, a) ∧ matchParameter (g.formals w) a i = some (p, q)

/-- Literals that show a type for a parameter. -/
inductive Literal (g : Graph) : Handle → String → Prop
  /-- A value in the data table of a scenario is for the last parameter of its name. -/
  | table {k : Handle} {s : Scenario} {row : Row} {name : String} {value : Value} {p : Handle}
      {q : Parameter} {t : String} (hs : (k, s) ∈ g.stories) (hrow : row ∈ s.rows)
      (hvalue : (name, value) ∈ row.arguments)
      (hp : (g.formals k).reverse.find? (fun p => p.2.name == name) = some (p, q))
      (ht : value.typeTag = some t) : Literal g p t
  /-- The default of a parameter is for it. -/
  | default {p : Handle} {q : Parameter} {value : Value} {t : String} (hp : g.parameter? p = some q)
      (hvalue : q.default = some value) (ht : value.typeTag = some t) : Literal g p t
  /-- An argument of a call is for the parameter that it matches. -/
  | argument {p h : Handle} {a : Argument} {t : String} (ha : g.Receives p h a)
      (ht : a.value.typeTag = some t) : Literal g p t

/-- A name in a body means the first parameter of that name. -/
def Means (g : Graph) (h : Handle) (name : String) (p : Handle) (q : Parameter) : Prop :=
  ∃ k, h ∈ g.body k ∧ (g.formals k).find? (fun p => p.2.name == name) = some (p, q)

/-- A call hands a parameter of the body it stands in on to another one. -/
def Passed (g : Graph) (p' p : Handle) : Prop :=
  ∃ h a name q, g.Receives p h a ∧ a.value = .variable name ∧ g.Means h name p' q

/-- The types that may be derived for parameters: what is declared counts alone; else what literals
show, and what is derived for and held by a parameter that is handed on. -/
inductive Derivable (g : Graph) (held : Handle → Option String) : Handle → String → Prop
  | declared {p : Handle} {q : Parameter} {t : String} (hp : g.parameter? p = some q)
      (hd : q.declared? = some t) : Derivable g held p t
  | literal {p : Handle} {q : Parameter} {t : String} (hp : g.parameter? p = some q)
      (hd : q.declared? = none) (hl : g.Literal p t) : Derivable g held p t
  | passed {p p' : Handle} {q : Parameter} {t : String} (hp : g.parameter? p = some q)
      (hd : q.declared? = none) (hpass : g.Passed p' p) (hder : Derivable g held p' t)
      (hheld : held p' = some t) : Derivable g held p t

/-- What a graph shows of a parameter when some types are known. -/
inductive Shows (g : Graph) (e : Evidence) : Handle → String → Prop
  | literal {p : Handle} {t : String} (hl : g.Literal p t) : Shows g e p t
  | passed {p p' : Handle} {q : Parameter} {t : String} (hpass : g.Passed p' p)
      (hp : g.parameter? p' = some q) (ht : e.typeOf p' q = some t) : Shows g e p t

theorem parameter?_of_formals {q : Parameter} (hp : (p, q) ∈ g.formals k) : g.parameter? p = some q :=
  (mem_gather.1 hp).2

theorem parameter?_of_matchParameter {a : Argument} {i : Nat} {q : Parameter}
    (hm : matchParameter (g.formals k) a i = some (p, q)) : g.parameter? p = some q := by
  apply parameter?_of_formals (k := k)
  unfold matchParameter at hm
  split at hm
  · exact List.mem_of_find?_eq_some hm
  · exact List.mem_of_getElem? hm

theorem Receives.exists_parameter {a : Argument} (ha : g.Receives p h a) :
    ∃ q, g.parameter? p = some q := by
  obtain ⟨c, w, i, b, q, -, -, -, hm⟩ := ha
  exact ⟨q, parameter?_of_matchParameter hm⟩

/-- Types are shown of parameters only. -/
theorem Shows.exists_parameter (hs : g.Shows e p t) : ∃ q, g.parameter? p = some q := by
  cases hs with
  | literal hl =>
    cases hl with
    | table hs hrow hvalue hp ht =>
      exact ⟨_, parameter?_of_formals (List.mem_reverse.1 (List.mem_of_find?_eq_some hp))⟩
    | default hp => exact ⟨_, hp⟩
    | argument ha => exact ha.exists_parameter
  | passed hpass hp ht =>
    obtain ⟨h, a, name, q', ha, -⟩ := hpass
    exact ha.exists_parameter

/-! ## What is learnt -/

/-- Evidence grows by what the graph shows of parameters that nothing is known of. -/
inductive Learns (g : Graph) (e : Evidence) : Evidence → Prop
  | refl : Learns g e e
  | record {e' : Evidence} {p : Handle} {t : String} (hl : Learns g e e') (hs : g.Shows e' p t)
      (hnew : e'.lookup p = none) : Learns g e (e' ++ [(p, t)])

namespace Learns

theorem trans {e'' : Evidence} (hl : g.Learns e e') (hl' : g.Learns e' e'') : g.Learns e e'' := by
  induction hl' with
  | refl => exact hl
  | record _ hs hnew ih => exact ih.record hs hnew

/-- To record what is shown is to learn it, or nothing. -/
theorem of_record {type : Option String} (hs : ∀ t, type = some t → g.Shows e p t) :
    g.Learns e (e.record p type) := by
  unfold Evidence.record
  split
  · exact .refl
  · rename_i t
    split
    · exact .refl
    · rename_i hnew
      exact .record .refl (hs t rfl) (Option.not_isSome_iff_eq_none.1 hnew)

theorem kept (hl : g.Learns e e') : e <+: e' := by
  induction hl with
  | refl => exact List.prefix_rfl
  | record _ _ _ ih => exact ih.trans (List.prefix_append _ _)

/-- Evidence of the same length is the same evidence. -/
theorem eq_of_length (hl : g.Learns e e') (hlen : e'.length = e.length) : e' = e :=
  (hl.kept.eq_of_length hlen.symm).symm

end Learns

/-- Every node has one entry at most. -/
def Tidy (g : Graph) (e : Evidence) : Prop := (e.map (·.1)).Nodup ∧ ∀ h ∈ e.map (·.1), h ∈ g.handles

theorem Tidy.length_le (ht : g.Tidy e) : e.length ≤ g.size := by
  have hle := (List.subperm_of_subset ht.1 ht.2).length_le
  have hlen : g.handles.length = g.size := by simp [handles]
  rw [List.length_map] at hle
  omega

theorem Learns.tidy (hl : g.Learns e e') (ht : g.Tidy e) : g.Tidy e' := by
  induction hl with
  | refl => exact ht
  | @record e' p t _ hs hnew ih =>
    obtain ⟨q, hq⟩ := hs.exists_parameter
    refine ⟨?_, fun h hh => ?_⟩
    · rw [List.map_append, List.map_singleton, List.nodup_append]
      refine ⟨ih.1, List.nodup_singleton p, fun a ha b hb hab => ?_⟩
      rw [List.mem_singleton] at hb
      rw [hab, hb] at ha
      exact lookup_eq_none_iff_not_mem.1 hnew ha
    · rw [List.map_append, List.mem_append] at hh
      rcases hh with hh | hh
      · exact ih.2 h hh
      · rw [List.map_singleton, List.mem_singleton] at hh
        rw [hh]
        exact mem_handles_of_content? (content?_parameter.1 hq)

/-- What evidence says of parameters without declaration may be derived, if parameters hold `held`. -/
def Grounded (g : Graph) (held : Handle → Option String) (e : Evidence) : Prop :=
  ∀ p q t, g.parameter? p = some q → q.declared? = none → e.lookup p = some t → g.Derivable held p t

theorem Grounded.derivable {held : Handle → Option String} {q : Parameter} (hg : g.Grounded held e)
    (hp : g.parameter? p = some q) (ht : e.typeOf p q = some t) : g.Derivable held p t := by
  rcases Evidence.typeOf_eq_some.1 ht with hd | ⟨hd, hl⟩
  · exact .declared hp hd
  · exact hg p q t hp hd hl

/-- **What is learnt may be derived**, if parameters hold the types that are known in the end. -/
theorem Learns.grounded {held : Handle → Option String} (hl : g.Learns e e')
    (hheld : ∀ p q t, g.parameter? p = some q → e'.typeOf p q = some t → held p = some t)
    (hg : g.Grounded held e) : g.Grounded held e' := by
  induction hl with
  | refl => exact hg
  | @record e' p₀ t₀ _ hs hnew ih =>
    have hext : e' <+: e' ++ [(p₀, t₀)] := List.prefix_append _ _
    -- what was known before is derivable, and held in the end
    have hbefore := ih fun p q t hp ht => hheld p q t hp (Evidence.typeOf_mono hext ht)
    intro p q t hp hd hlook
    rw [List.lookup_append, Option.or_eq_some_iff] at hlook
    rcases hlook with hold | ⟨-, hnew'⟩
    · exact hbefore p q t hp hd hold
    · obtain ⟨rfl, rfl⟩ : p = p₀ ∧ t = t₀ :=
        Prod.mk.inj (List.mem_singleton.1 (mem_of_lookup hnew'))
      cases hs with
      | literal hl => exact .literal hp hd hl
      | passed hpass hp' ht =>
        exact .passed hp hd hpass (hbefore.derivable hp' ht)
          (hheld _ _ _ hp' (Evidence.typeOf_mono hext ht))

/-- All that is shown is known. -/
def Exhausted (g : Graph) (e : Evidence) : Prop := ∀ p t, g.Shows e p t → (e.lookup p).isSome

/-- **Where all that is shown is known, nothing is left to derive** for parameters without a type. -/
theorem Exhausted.isSome_typeOf {held : Handle → Option String} {q : Parameter} (hex : g.Exhausted e)
    (hheld : ∀ p t, held p = some t → ∃ q, g.parameter? p = some q ∧ e.typeOf p q = some t)
    (hp : g.parameter? p = some q) (hder : g.Derivable held p t) : (e.typeOf p q).isSome := by
  rw [Evidence.typeOf_eq, Option.isSome_or]
  cases hder with
  | declared hp' hd =>
    rw [hp, Option.some.injEq] at hp'
    subst hp'
    rw [hd]
    rfl
  | literal _ _ hl => rw [hex p t (.literal hl), Bool.or_true]
  | passed _ _ hpass _ hheld' =>
    obtain ⟨q', hq', ht⟩ := hheld _ _ hheld'
    rw [hex p t (.passed hpass hq' ht), Bool.or_true]

end Graph

end Actionbook
