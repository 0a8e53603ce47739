import Actionbook.Proofs.Derivability
import Actionbook.Proofs.Reruns

/-!
# Finding types

The search for types learns what the graph shows (`Graph.Learns`) and leaves nothing out. Both are said
of each of its parts: the data tables (`Sound.learns_tableEvidence`), the defaults
(`learns_defaultEvidence`), a round through the calls (`Sound.learns_callsEvidence`), and the rounds up to
the first one that learns nothing (`Sound.settles`). `Settles` and `Gathers` are the search without a
bound on the number of rounds; the bound that is there is never reached.

* `Sound.gathers`: in the end all that is shown is known, and it is known from what is shown.
* `types_are_derivable`: so parameters have the types that may be derived for them, and no others.
-/

namespace Actionbook

open Work (Ensures)

namespace Graph

variable {g : Graph} {e e₀ : Evidence} {h k p : Handle} {name t : String}

/-! ## Searching a list -/

/-- A search through a list learns what its elements give. -/
theorem learns_foldlM {α : Type} {search : Evidence → α → Except Fault Evidence}
    (due : α → Handle → Prop) {l : List α}
    (hstep : ∀ e, g.Learns e₀ e → ∀ a ∈ l, ∃ e', search e a = .ok e' ∧ g.Learns e e' ∧
      ∀ p, due a p → (e'.lookup p).isSome) (hl : g.Learns e₀ e) :
    ∃ e', l.foldlM search e = .ok e' ∧ g.Learns e e' ∧
      ∀ a ∈ l, ∀ p, due a p → (e'.lookup p).isSome := by
  induction l generalizing e with
  | nil => exact ⟨e, rfl, .refl, fun a ha => absurd ha List.not_mem_nil⟩
  | cons a l ih =>
    obtain ⟨e₁, h₁, hl₁, hf₁⟩ := hstep e hl a List.mem_cons_self
    obtain ⟨e₂, h₂, hl₂, hf₂⟩ := ih (fun e he b hb => hstep e he b (List.mem_cons_of_mem _ hb))
      (hl.trans hl₁)
    refine ⟨e₂, by rw [List.foldlM_cons, h₁]; exact h₂, hl₁.trans hl₂, fun b hb p hp => ?_⟩
    rcases List.mem_cons.1 hb with rfl | hb
    · exact Evidence.recorded_mono hl₂.kept (hf₁ p hp)
    · exact hf₂ b hb p hp

/-- The same for a search that cannot fail. -/
theorem learns_foldl {α : Type} {search : Evidence → α → Evidence} (due : α → Handle → Prop)
    {l : List α} (hstep : ∀ e, ∀ a ∈ l, g.Learns e (search e a) ∧
      ∀ p, due a p → ((search e a).lookup p).isSome) (e : Evidence) :
    g.Learns e (l.foldl search e) ∧ ∀ a ∈ l, ∀ p, due a p → ((l.foldl search e).lookup p).isSome := by
  obtain ⟨e', he', hl, hf⟩ : ∃ e', l.foldlM (fun e a => (pure (search e a) : Except Fault Evidence)) e =
      .ok e' ∧ g.Learns e e' ∧ ∀ a ∈ l, ∀ p, due a p → (e'.lookup p).isSome :=
    learns_foldlM due (fun e _ a ha => ⟨_, rfl, hstep e a ha⟩) .refl
  rw [List.foldlM_pure] at he'
  cases he'
  exact ⟨hl, hf⟩

/-! ## Data tables and defaults -/

/-- A value in a data table of a scenario shows a type for a parameter. -/
def Tabled (g : Graph) (k : Handle) (a : String × Value) (p : Handle) : Prop :=
  ∃ q t, (g.formals k).reverse.find? (fun p => p.2.name == a.1) = some (p, q) ∧ a.2.typeTag = some t

theorem learns_rowEvidence {s : Scenario} (hs : (k, s) ∈ g.stories) (e : Evidence) :
    g.Learns e (rowEvidence (g.formals k) s.rows e) ∧
      ∀ a ∈ s.rows.flatMap (·.arguments), ∀ p, g.Tabled k a p →
        ((rowEvidence (g.formals k) s.rows e).lookup p).isSome := by
  refine learns_foldl _ (fun e a ha => ?_) e
  obtain ⟨row, hrow, ha⟩ := List.mem_flatMap.1 ha
  obtain ⟨name, value⟩ := a
  dsimp only
  cases hp : (g.formals k).reverse.find? fun p => p.2.name == name with
  | none =>
    refine ⟨.refl, fun p ⟨q, t, hp', _⟩ => ?_⟩
    rw [hp] at hp'
    cases hp'
  | some found =>
    obtain ⟨p, q⟩ := found
    refine ⟨.of_record fun t ht => .literal (.table hs hrow ha hp ht), fun p' ⟨q', t, hp', ht⟩ => ?_⟩
    rw [hp] at hp'
    cases hp'
    dsimp only at ht
    rw [ht]
    exact Evidence.recorded_record e p t

theorem Sound.learns_tableEvidence (hs : g.Sound) : ∃ e, tableEvidence g = .ok e ∧ g.Learns [] e ∧
    ∀ s ∈ g.stories, ∀ p, (∃ a ∈ s.2.rows.flatMap (·.arguments), g.Tabled s.1 a p) →
      (e.lookup p).isSome := by
  simp only [tableEvidence, hs.scenarios_ok, bind, Except.bind]
  refine learns_foldlM _ (fun e _ s hm => ?_) .refl
  have hd := definition?_of_scenario? (mem_gather.1 hm).2
  simp only [hs.parametersAt_ok hd]
  obtain ⟨hl, hdue⟩ := learns_rowEvidence hm e
  refine ⟨_, rfl, hl, ?_⟩
  rintro p ⟨a, ha, hp⟩
  exact hdue a ha p hp

/-- Every parameter with a default that shows a type has a type. -/
theorem learns_defaultEvidence {l : List (Handle × Parameter)}
    (hl : ∀ a ∈ l, g.parameter? a.1 = some a.2) (e : Evidence) :
    g.Learns e (defaultEvidence l e) ∧ ∀ a ∈ l, ∀ p, (a.1 = p ∧ ∃ value t, a.2.default = some value ∧
      value.typeTag = some t) → ((defaultEvidence l e).lookup p).isSome := by
  refine learns_foldl _ (fun e a ha => ?_) e
  obtain ⟨p, q⟩ := a
  refine ⟨.of_record fun t ht => ?_, ?_⟩
  · obtain ⟨value, hv, ht⟩ := Option.bind_eq_some_iff.1 ht
    exact .literal (.default (hl _ ha) hv ht)
  · rintro _ ⟨rfl, value, t, hv, ht⟩
    dsimp only at hv ⊢
    rw [hv, Option.bind_some, ht]
    exact Evidence.recorded_record e p t

/-! ## Calls -/

/-- The type that the value of an argument shows when some types are known. -/
def ShownBy (g : Graph) (e : Evidence) (h : Handle) (v : Value) (t : String) : Prop :=
  v.typeTag = some t ∨ ∃ name p q, v = .variable name ∧ g.Means h name p q ∧ e.typeOf p q = some t

theorem ShownBy.shows {a : Argument} (hp : g.Receives p h a) (ht : g.ShownBy e h a.value t) :
    g.Shows e p t := by
  rcases ht with ht | ⟨name, p', q, hv, hmeans, ht⟩
  · exact .literal (.argument hp ht)
  · obtain ⟨k, hk, hf⟩ := hmeans
    exact .passed ⟨h, a, name, q, hp, hv, k, hk, hf⟩
      (parameter?_of_formals (List.mem_of_find?_eq_some hf)) ht

theorem ShownBy.mono {e' : Evidence} {v : Value} (he : e <+: e') (ht : g.ShownBy e h v t) :
    g.ShownBy e' h v t :=
  ht.imp_right fun ⟨name, p, q, hv, hmeans, ht⟩ => ⟨name, p, q, hv, hmeans, Evidence.typeOf_mono he ht⟩

namespace Sound

variable (hs : g.Sound) (hlinked : g.Linked)
include hs hlinked

/-- In a linked graph a name is looked up in the body that the call stands in. -/
theorem variableType_eq (hk : h ∈ g.body k) (name : String) (e : Evidence) :
    variableType g h name e = .ok (((g.formals k).find? fun p => p.2.name == name).bind
      fun p => e.typeOf p.1 p.2) := by
  have hkid : h ∈ g.kids k := (body_sublist k).subset hk
  obtain ⟨o, ho, hparent, hcont⟩ := hs.parentOf_ok (hs.isStep_of_body hk).mem_handles
  rw [(hs.parent?_eq_some hlinked).2 hkid] at hparent
  obtain ⟨⟨p, n⟩, rfl, rfl⟩ := Option.map_eq_some_iff.1 hparent
  obtain ⟨d, hd, -⟩ := mem_body hk
  have hdef : n.content.definition? = some d := by
    rw [definition?, hcont p n rfl] at hd
    exact hd
  simp only [variableType, ho, hdef, hs.parametersAt_ok hd, bind, Except.bind]
  cases (g.formals p).find? fun p => p.2.name == name <;> rfl

theorem argumentType_eq {c : Call} (hc : g.content? h = some (.call c)) (v : Value) (e : Evidence) :
    ∃ type, argumentType g h v e = .ok type ∧ ∀ t, type = some t ↔ g.ShownBy e h v t := by
  cases v with
  | «variable» name =>
    obtain ⟨k, d, hd, hm⟩ := hs.exists_body (isStep_iff.2 (.inr ⟨c, hc⟩))
    have hk : h ∈ g.body k := body_eq hd ▸ hm
    refine ⟨_, hs.variableType_eq hlinked hk name e, fun t => ?_⟩
    rw [Option.bind_eq_some_iff]
    constructor
    · rintro ⟨⟨p, q⟩, hf, ht⟩
      exact .inr ⟨name, p, q, rfl, ⟨k, hk, hf⟩, ht⟩
    · rintro (ht | ⟨name', p, q, hname, ⟨k', hk', hf⟩, ht⟩)
      · cases ht
      · -- the call stands in one body only
        cases hname
        have hsame : k' = k := by
          obtain ⟨r, p, -, -, hl⟩ := hs.rooted
          exact hl.eq_of_mem ((body_sublist k').subset hk') ((body_sublist k).subset hk)
        subst hsame
        exact ⟨(p, q), hf, ht⟩
  | _ =>
    refine ⟨_, rfl, fun t => ?_⟩
    constructor
    · exact .inl
    · rintro (ht | ⟨name, p, q, hname, -⟩)
      · exact ht
      · cases hname

/-- A call is learnt from: whatever its arguments have shown at first is known afterwards. -/
theorem learns_callEvidence {index : List (String × Handle)}
    (hi : ∀ name, index.lookup name = g.target? name) {c : Call}
    (hc : g.content? h = some (.call c)) (hl : g.Learns e₀ e) :
    ∃ e', callEvidence g index e h = .ok e' ∧ g.Learns e e' ∧
      ∀ p, (∃ a t, g.Receives p h a ∧ g.ShownBy e₀ h a.value t) → (e'.lookup p).isSome := by
  simp only [callEvidence, call_ok hc, bind, Except.bind, hi]
  cases ht : g.target? c.actionWord with
  | none =>
    refine ⟨e, rfl, .refl, ?_⟩
    rintro p ⟨a, t, ⟨c', w, i, b, q, hc', hw, -⟩, -⟩
    rw [hc] at hc'
    cases hc'
    rw [ht] at hw
    cases hw
  | some w =>
    obtain ⟨_, -, -, -, hd⟩ := exists_of_target? ht
    simp only [hs.parametersOf_ok hd, hs.argumentsOf_ok hc]
    refine (learns_foldlM (fun (x : (Handle × Argument) × Nat) p =>
      (∃ q, matchParameter (g.formals w) x.1.2 x.2 = some (p, q)) ∧
        ∃ t, g.ShownBy e₀ h x.1.2.value t) (fun e he x hx => ?step) hl).imp
      fun e' hfold => ⟨hfold.1, hfold.2.1, ?found⟩
    case step =>
      obtain ⟨⟨b, a⟩, i⟩ := x
      dsimp only
      cases hm : matchParameter (g.formals w) a i with
      | none =>
        refine ⟨e, rfl, .refl, ?_⟩
        rintro p ⟨⟨q, hm'⟩, -⟩
        cases hm'
      | some found =>
        obtain ⟨p, q⟩ := found
        have hp : g.Receives p h a :=
          ⟨c, w, i, b, q, hc, ht, List.mem_zipIdx_iff_getElem?.1 hx, hm⟩
        obtain ⟨type, htype, hshown⟩ := hs.argumentType_eq hlinked hc a.value e
        simp only [htype]
        refine ⟨_, rfl, .of_record fun t ht => ((hshown t).1 ht).shows hp, ?_⟩
        rintro p' ⟨⟨q', hm'⟩, t, hfirst⟩
        cases hm'
        rw [(hshown t).2 (hfirst.mono he.kept)]
        exact Evidence.recorded_record e p t
    case found =>
      rintro p ⟨a, t, ⟨c', w', i, b, q, hc', hw, ha, hm⟩, hshown⟩
      rw [hc] at hc'
      cases hc'
      rw [ht] at hw
      cases hw
      exact hfold.2.2 ((b, a), i) (List.mem_zipIdx_iff_getElem?.2 ha) p ⟨⟨q, hm⟩, t, hshown⟩

/-- What the arguments of all calls show is known after one round. -/
theorem learns_callsEvidence (e : Evidence) : ∃ e', callsEvidence g e = .ok e' ∧ g.Learns e e' ∧
    ∀ p h a t, g.Receives p h a → g.ShownBy e h a.value t → (e'.lookup p).isSome := by
  obtain ⟨index, hindex, hi⟩ := hs.actionWordIndex_ok
  obtain ⟨l, hl, -, hm⟩ := hs.calls_ok
  simp only [callsEvidence, hindex, hl, bind, Except.bind]
  refine (learns_foldlM (fun h p => ∃ a t, g.Receives p h a ∧
    g.ShownBy e h a.value t) (fun e₁ he h hh => ?step) .refl).imp
    fun e' hfold => ⟨hfold.1, hfold.2.1, ?found⟩
  case step =>
    obtain ⟨c, hc⟩ := (hm h).1 hh
    exact hs.learns_callEvidence hlinked hi hc he
  case found =>
    intro p h a t hp ht
    obtain ⟨c, -, -, -, -, hc, -⟩ := id hp
    exact hfold.2.2 h ((hm h).2 ⟨c, hc⟩) p ⟨a, t, hp, ht⟩

end Sound

/-! ## Until nothing new is learnt -/

/-- Rounds through the calls from one evidence to another, as long as there is something to learn. -/
inductive Settles (g : Graph) : Evidence → Evidence → Prop
  | rest {e next : Evidence} (hnext : callsEvidence g e = .ok next) (hlen : next.length = e.length) :
      Settles g e e
  | round {e next e' : Evidence} (hnext : callsEvidence g e = .ok next)
      (hlen : next.length ≠ e.length) (hrest : Settles g next e') : Settles g e e'

/-- What calls show is known. -/
def Settled (g : Graph) (e : Evidence) : Prop :=
  ∀ p h a t, g.Receives p h a → g.ShownBy e h a.value t → (e.lookup p).isSome

/-- The rounds come to an end, as every round but the last finds the type of another parameter. -/
theorem Sound.settles (hs : g.Sound) (hlinked : g.Linked) (ht : g.Tidy e) (fuel : Nat)
    (hfuel : g.size < fuel + e.length) :
    ∃ e', settle g fuel e = .ok e' ∧ g.Settles e e' ∧ g.Learns e e' ∧ g.Settled e' := by
  induction fuel generalizing e with
  | zero =>
    have hle := ht.length_le
    omega
  | succ fuel ih =>
    obtain ⟨next, hnext, hl, hfound⟩ := hs.learns_callsEvidence hlinked e
    simp only [settle, hnext, bind, Except.bind]
    split
    · rename_i hlen
      have hsame : next = e := hl.eq_of_length hlen
      exact ⟨e, rfl, .rest hnext hlen, .refl, hsame ▸ hfound⟩
    · rename_i hlen
      have hle : e.length ≤ next.length := hl.kept.length_le
      obtain ⟨e', he', hsettles, hl', hsettled⟩ := ih (hl.tidy ht) (by omega)
      exact ⟨e', he', .round hnext hlen hsettles, hl.trans hl', hsettled⟩

/-- The whole search: data tables first, then calls, last defaults and what follows from these. -/
inductive Gathers (g : Graph) (parameters : List (Handle × Parameter)) : Evidence → Prop
  /-- The defaults show nothing new. -/
  | settled {table e : Evidence} (htable : tableEvidence g = .ok table) (he : g.Settles table e)
      (hlen : (defaultEvidence parameters e).length = e.length) : Gathers g parameters e
  /-- The calls are gone through again, with what the defaults show. -/
  | again {table known e : Evidence} (htable : tableEvidence g = .ok table)
      (hknown : g.Settles table known)
      (hlen : (defaultEvidence parameters known).length ≠ known.length)
      (he : g.Settles (defaultEvidence parameters known) e) : Gathers g parameters e

/-- What data tables, defaults and calls show is all that a graph shows. -/
theorem exhausted_of_parts
    (htable : ∀ s ∈ g.stories, ∀ p, (∃ a ∈ s.2.rows.flatMap (·.arguments), g.Tabled s.1 a p) →
      (e.lookup p).isSome)
    (hdefault : ∀ p q value t, g.parameter? p = some q → q.default = some value →
      value.typeTag = some t → (e.lookup p).isSome)
    (hcalls : g.Settled e) : g.Exhausted e := by
  intro p t hs
  cases hs with
  | literal hl =>
    cases hl with
    | table hs hrow hvalue hp ht =>
      exact htable _ hs p ⟨_, List.mem_flatMap.2 ⟨_, hrow, hvalue⟩, _, t, hp, ht⟩
    | default hp hvalue ht => exact hdefault p _ _ t hp hvalue ht
    | argument ha ht => exact hcalls p _ _ t ha (.inl ht)
  | passed hpass hq ht =>
    obtain ⟨h, a, name, q, ha, hv, hmeans⟩ := hpass
    obtain ⟨k, hk, hf⟩ := id hmeans
    have hsame := parameter?_of_formals (List.mem_of_find?_eq_some hf)
    rw [hq, Option.some.injEq] at hsame
    subst hsame
    exact hcalls p h a t ha (.inr ⟨name, _, _, hv, hmeans, ht⟩)

/-- **The search ends**, with all that the graph shows and nothing else. -/
theorem Sound.gathers (hs : g.Sound) (hlinked : g.Linked) (parameters : List (Handle × Parameter))
    (hm : ∀ p q, (p, q) ∈ parameters ↔ g.parameter? p = some q) :
    ∃ e, gatherEvidence g parameters = .ok e ∧ g.Gathers parameters e ∧ g.Learns [] e ∧
      g.Exhausted e := by
  obtain ⟨table, htable, hltable, hftable⟩ := hs.learns_tableEvidence
  have htidy : g.Tidy [] := ⟨List.nodup_nil, fun h hh => absurd hh List.not_mem_nil⟩
  obtain ⟨known, hknown, hsknown, hlknown, hfknown⟩ :=
    hs.settles hlinked (hltable.tidy htidy) (g.size + 1) (by omega)
  have hlearnt : g.Learns [] known := hltable.trans hlknown
  obtain ⟨hldefault, hfdefault⟩ := learns_defaultEvidence (fun a ha => (hm a.1 a.2).1 ha) known
  -- tables and defaults need not be gone through again: what has been found stays
  have hexhausted : ∀ e, g.Learns (defaultEvidence parameters known) e → g.Settled e →
      g.Exhausted e := by
    intro e hle hfe
    refine exhausted_of_parts (fun s hs p hp => ?_) (fun p q value t hp hv ht => ?_) hfe
    · exact Evidence.recorded_mono (hlknown.trans (hldefault.trans hle)).kept (hftable s hs p hp)
    · exact Evidence.recorded_mono hle.kept
        (hfdefault (p, q) ((hm p q).2 hp) p ⟨rfl, value, t, hv, ht⟩)
  simp only [gatherEvidence, htable, hknown, bind, Except.bind]
  by_cases hlen : (defaultEvidence parameters known).length = known.length
  · rw [if_pos hlen]
    have hsame : defaultEvidence parameters known = known := hldefault.eq_of_length hlen
    refine ⟨known, rfl, .settled htable hsknown hlen, hlearnt, hexhausted known ?_ hfknown⟩
    rw [hsame]
    exact .refl
  · rw [if_neg hlen]
    obtain ⟨e, he, hse, hle, hfe⟩ := hs.settles hlinked
      (hldefault.tidy (hlearnt.tidy htidy)) (g.size + 1) (by omega)
    exact ⟨e, he, .again htable hsknown hlen hse, hlearnt.trans (hldefault.trans hle),
      hexhausted e hle hfe⟩

/-! ## The types of parameters -/

/-- The type that a parameter has. -/
def typeOf? (g : Graph) (p : Handle) : Option String := (g.parameter? p).bind (·.type)

/-- The parameters of `g` have in `g'` the types that may be derived for them. -/
structure Inferred (g g' : Graph) : Prop where
  parameters : ∀ p, (g'.parameter? p).isSome = (g.parameter? p).isSome
  /-- The search comes to an end with the types. -/
  gathered : ∃ l parameters e, g.parameters = .ok l ∧ g.parametersAt l = .ok parameters ∧
    g.Gathers parameters e ∧ ∀ p q, g'.parameter? p = some q → q.type = e.typeOf p q
  /-- A type is there only if it may be derived. -/
  derivable : ∀ p q t, g'.parameter? p = some q → q.type = some t → g.Derivable g'.typeOf? p t
  /-- No type is there only if there is none to derive. -/
  untyped : ∀ p q, g'.parameter? p = some q →
    (q.type = none ↔ ∀ t, ¬ g.Derivable g'.typeOf? p t)

/-- How the evidence of a graph has been found. -/
theorem Sound.exists_gathers (hs : g.Sound) (hlinked : g.Linked) (he : g.evidence = .ok e) :
    ∃ l parameters, g.parameters = .ok l ∧ g.parametersAt l = .ok parameters ∧
      (∀ p q, (p, q) ∈ parameters ↔ g.parameter? p = some q) ∧ g.Gathers parameters e ∧
      g.Learns [] e ∧ g.Exhausted e := by
  obtain ⟨l, hl, -, hm⟩ := hs.parameters_ok
  have hparameters : g.parametersAt l = .ok (gather g.parameter? l) :=
    getAll_ok (fun _ _ => parameter_ok) fun h hh => Option.isSome_iff_exists.2 ((hm h).1 hh)
  have hall : ∀ p q, (p, q) ∈ gather g.parameter? l ↔ g.parameter? p = some q := fun p q =>
    mem_gather.trans (and_iff_right_of_imp fun hp => (hm p).2 ⟨q, hp⟩)
  obtain ⟨e', he', hgathers, hlearns, hex⟩ := hs.gathers hlinked (gather g.parameter? l) hall
  simp only [evidence, hl, hparameters, bind, Except.bind] at he
  rw [he] at he'
  cases he'
  exact ⟨l, _, hl, hparameters, hall, hgathers, hlearns, hex⟩

/-- Types that are written as a search has found them are those that may be derived. -/
theorem Typed.inferred {g' : Graph} (hs : g.Sound) (hlinked : g.Linked) (he : g.evidence = .ok e)
    (ht : g.Typed e g') : g.Inferred g' := by
  obtain ⟨l, parameters, hl, hparameters, -, hgathers, hlearns, hex⟩ := hs.exists_gathers hlinked he
  have htype : ∀ p q, g'.parameter? p = some q →
      ∃ q₀, g.parameter? p = some q₀ ∧ q.type = e.typeOf p q₀ ∧ e.typeOf p q = e.typeOf p q₀ := by
    intro p q hp
    rw [ht.parameter] at hp
    obtain ⟨q₀, hq₀, rfl⟩ := Option.map_eq_some_iff.1 hp
    exact ⟨q₀, hq₀, rfl, rfl⟩
  have hheld : ∀ p t, g'.typeOf? p = some t ↔
      ∃ q, g.parameter? p = some q ∧ e.typeOf p q = some t := by
    intro p t
    rw [typeOf?, ht.parameter, Option.bind_eq_some_iff]
    simp only [Option.map_eq_some_iff]
    constructor
    · rintro ⟨_, ⟨q, hq, rfl⟩, hqt⟩
      exact ⟨q, hq, hqt⟩
    · rintro ⟨q, hq, hqt⟩
      exact ⟨_, ⟨q, hq, rfl⟩, hqt⟩
  have hgrounded : g.Grounded g'.typeOf? e :=
    hlearns.grounded (fun p q t hp hqt => (hheld p t).2 ⟨q, hp, hqt⟩) fun p q t _ _ hl => by cases hl
  refine ⟨fun p => ?_, ⟨l, parameters, e, hl, hparameters, hgathers, fun p q hp => ?_⟩,
    fun p q t hp hqt => ?_, fun p q hp => ?_⟩
  · rw [ht.parameter, Option.isSome_map]
  · obtain ⟨q₀, -, h, h'⟩ := htype p q hp
    rw [h, h']
  · obtain ⟨q₀, hq₀, h, -⟩ := htype p q hp
    exact hgrounded.derivable hq₀ (h ▸ hqt)
  · obtain ⟨q₀, hq₀, h, -⟩ := htype p q hp
    rw [h]
    constructor
    · intro hnone t hder
      have hsome := hex.isSome_typeOf (fun p t => (hheld p t).1) hq₀ hder
      rw [hnone] at hsome
      cases hsome
    · intro hno
      rw [Option.eq_none_iff_forall_ne_some]
      exact fun t hqt => hno t (hgrounded.derivable hq₀ hqt)

end Graph

theorem Value.typeTag_eq_none {v : Value} :
    v.typeTag = none ↔ v.kind = .null ∨ v.kind = .variable := by
  cases v <;> simp [typeTag, literalType, kind]

/-- **Types of a graph that is read and linked**: the search for them ends, each type that a parameter
gets may be derived for it, and a parameter gets none only if there is none to derive. References and
null show no type themselves. -/
theorem types_are_derivable {text : String} {strict : Bool} {g : Graph}
    (hg : Design.readGraph text strict = .ok g) (r : Report) :
    (∀ v : Value, v.typeTag = none ↔ v.kind = .null ∨ v.kind = .variable) ∧
      Ensures linkParents ⟨g, r⟩ fun _ s => Ensures addTypes s fun _ t => s.graph.Inferred t.graph := by
  refine ⟨fun v => Value.typeTag_eq_none, ?_⟩
  refine (Graph.ensures_linkParents (Design.sound_of_readGraph hg)).mono ?_
  rintro - ⟨g₁, r₁⟩ ⟨hf, hlinked, -⟩
  refine (Graph.ensures_addTypes hf.sound).mono ?_
  rintro - ⟨g₂, r₂⟩ ⟨⟨e, he, ht⟩, -⟩
  exact ht.inferred hf.sound hlinked he

namespace Design

/-- A document in which one action word hands its parameter on to another, and a third one to itself. -/
abbrev handingText : String := "<project><name>p</name>
  <scenarios><scenario><name>s</name><steps>
    <call><actionword>outer</actionword><arguments>
      <argument><name>x</name><value><numericliteral>5</numericliteral></value></argument>
    </arguments></call>
  </steps></scenario></scenarios>
  <actionwords><actionword><name>outer</name>
    <parameters><parameter><name>x</name></parameter></parameters>
    <steps><call><actionword>inner</actionword><arguments>
      <argument><name>y</name><value><variable><name>x</name></variable></value></argument>
    </arguments></call></steps>
  </actionword><actionword><name>inner</name>
    <parameters><parameter><name>y</name></parameter></parameters>
  </actionword><actionword><name>again</name>
    <parameters><parameter><name>z</name></parameter></parameters>
    <steps><call><actionword>again</actionword><arguments>
      <argument><name>z</name><value><variable><name>z</name></variable></value></argument>
    </arguments></call></steps>
  </actionword></actionwords>
  </project>"

/-- The design that it describes. -/
def handing : Design where
  name := "p"
  description := ""
  scenarios := [{
    name := "s", uid := none, description := "", tags := [], parameters := [], rows := []
    steps := [.call "outer" none [⟨some "x", .numeric "5"⟩]] }]
  actionWords := [{
    name := "outer", uid := none, description := "", tags := []
    parameters := [{ name := "x", type := none, default := none }]
    steps := [.call "inner" none [⟨some "y", .variable "x"⟩]] }, {
    name := "inner", uid := none, description := "", tags := [], steps := []
    parameters := [{ name := "y", type := none, default := none }] }, {
    name := "again", uid := none, description := "", tags := []
    parameters := [{ name := "z", type := none, default := none }]
    steps := [.call "again" none [⟨some "z", .variable "z"⟩]] }]

set_option maxRecDepth 8000 in
theorem ofText_handing : ofText handingText = .ok handing :=
  ofText_eq_ok (by decide +kernel)

theorem readGraph_handing : readGraph handingText true = .ok handing.graph :=
  readGraph_eq_ok.2 ⟨_, ofText_handing, fun _ => by decide, rfl⟩

end Design

/-- The parameter of `outer` has the type of the literal, that of `inner` gets it from there, and that of
`again` has none, as it would have it from itself. -/
theorem types_of_handing :
    Design.readGraph Design.handingText true = .ok Design.handing.graph ∧
      ((∀ v : Value, v.typeTag = none ↔ v.kind = .null ∨ v.kind = .variable) ∧
        Ensures linkParents ⟨Design.handing.graph, {}⟩ fun _ s => Ensures addTypes s fun _ t =>
          s.graph.Inferred t.graph) ∧
      Ensures (do linkParents; addTypes) ⟨Design.handing.graph, {}⟩ fun _ t =>
        decide ([5, 9, 11].map t.graph.typeOf? = [some "int", some "int", none]) = true := by
  refine ⟨Design.readGraph_handing, ?_, Work.ensures_of_check (by decide +kernel)⟩
  exact types_are_derivable Design.readGraph_handing {}

end Actionbook
