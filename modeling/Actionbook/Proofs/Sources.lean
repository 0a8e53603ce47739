import Actionbook.Proofs.Literals

/-!
# The source forms of values

A signature shows a default in its source form. Two values of documents have the same source form if they are
the same up to the case of truth values, and otherwise only where quotes and braces do not tell them apart
(`Value.Confused`): a template from the text that it reads as, an unquoted value from one of another kind
(`Value.Written.source_eq_iff`). So the shape of a signature tells every other change of a default
(`shapes_tell_defaults`).
-/

namespace Actionbook

open Work (Ensures)

namespace Value

/-! ## Fingerprinted forms -/

/-- The value with a truth value in small letters. -/
def lowered : Value → Value
  | .boolean t => .boolean (Text.lowercase t)
  | v => v

variable {v w : Value}

theorem Written.lowered (hv : v.Written) : v.lowered.Written := by
  cases hv with
  | boolean ht =>
    refine .boolean ?_
    rw [isTruthText, (isTruthText_lowercase ht).2]
    exact ht
  | string t => exact .string t
  | numeric ht => exact .numeric ht
  | null => exact .null
  | «variable» name => exact .variable name
  | template hparts => exact .template hparts

theorem Part.canonical_inj (hv : v.Part) (hw : w.Part) (h : v.canonical = w.canonical) : v = w := by
  cases hv <;> cases hw <;> simp_all [canonical]

theorem canonicalParts_inj {l m : List Value} (hl : ∀ p ∈ l, p.Part) (hm : ∀ p ∈ m, p.Part)
    (h : canonicalParts l = canonicalParts m) : l = m := by
  induction l generalizing m with
  | nil =>
    cases m with
    | nil => rfl
    | cons w m => cases h
  | cons v l ih =>
    cases m with
    | nil => cases h
    | cons w m =>
      rw [canonicalParts, canonicalParts, List.cons.injEq] at h
      obtain ⟨hv, hl⟩ := List.forall_mem_cons.1 hl
      obtain ⟨hw, hm⟩ := List.forall_mem_cons.1 hm
      rw [hv.canonical_inj hw h.1, ih hl hm h.2]

/-- Values of documents are fingerprinted apart. -/
theorem Written.canonical_inj (hv : v.Written) (hw : w.Written) (h : v.canonical = w.canonical) :
    v = w := by
  cases hv with
  | template hparts =>
    cases hw with
    | template hparts' =>
      rw [canonical, canonical, Json.object.injEq, List.cons.injEq, Prod.mk.injEq,
        Json.array.injEq] at h
      rw [canonicalParts_inj hparts hparts' h.1.2]
    | _ => simp [canonical] at h
  | _ => cases hw <;> simp_all [canonical]

/-! ## Source forms -/

/-- What a text or a template reads as, without its quotes. -/
def spoken? : Value → Option String
  | .string t => some t
  | .template _ ps => some (templateText ps)
  | _ => none

/-- What any other value is written as; it has no quotes. -/
def bare? : Value → Option String
  | .boolean t => some (Text.lowercase t)
  | .null _ => some "null"
  | .numeric t => some t
  | .variable name => some name
  | _ => none

/-- Two values that quotes and braces do not tell apart. -/
inductive Confused (v w : Value) : Prop
  /-- Texts and templates that read the same. -/
  | spoken {t : String} (hv : v.spoken? = some t) (hw : w.spoken? = some t)
  /-- Values of two kinds that have no quotes. -/
  | bare {t : String} (hkind : v.kind ≠ w.kind) (hv : v.bare? = some t) (hw : w.bare? = some t)
  /-- A text or a template, and what is written with its quotes. -/
  | quoted {t : String} (hv : v.spoken? = some t) (hw : w.bare? = some (quotedSource t))
  | unquoted {t : String} (hv : v.bare? = some (quotedSource t)) (hw : w.spoken? = some t)

theorem quotedSource_inj {s t : String} (h : quotedSource s = quotedSource t) : s = t := by
  have h := congrArg String.toList h
  rw [quotedSource, quotedSource, String.toList_ofList, String.toList_ofList] at h
  have hs : Json.quotedText s.toList ++ [] = Json.quotedText t.toList ++ [] := by rw [h]
  exact String.toList_inj.1 (Json.quotedText_append_inj hs).1

/-- A value has quotes or it has none. -/
theorem source_cases (v : Value) :
    (∃ t, v.spoken? = some t ∧ v.source = quotedSource t) ∨ v.bare? = some v.source := by
  cases v with
  | string t => exact .inl ⟨t, rfl, rfl⟩
  | template t ps => exact .inl ⟨_, rfl, rfl⟩
  | _ => exact .inr rfl

theorem source_of_spoken {t : String} (h : v.spoken? = some t) : v.source = quotedSource t := by
  cases v <;> cases h <;> rfl

theorem source_of_bare {t : String} (h : v.bare? = some t) : v.source = t := by
  cases v <;> cases h <;> rfl

theorem Confused.source_eq (h : v.Confused w) : v.source = w.source := by
  cases h with
  | spoken hv hw => rw [source_of_spoken hv, source_of_spoken hw]
  | bare _ hv hw => rw [source_of_bare hv, source_of_bare hw]
  | quoted hv hw => rw [source_of_spoken hv, source_of_bare hw]
  | unquoted hv hw => rw [source_of_bare hv, source_of_spoken hw]

/-- Of one kind, values without quotes are told apart. -/
theorem Written.lowered_eq (hv : v.Written) (hw : w.Written) {t : String} (hkind : v.kind = w.kind)
    (ht : v.bare? = some t) (ht' : w.bare? = some t) : v.lowered = w.lowered := by
  cases hv <;> cases hw <;> simp_all [kind, bare?, Value.lowered]

theorem Written.source_lowered (hv : v.Written) : v.lowered.source = v.source := by
  cases hv with
  | boolean ht => exact (isTruthText_lowercase ht).2
  | _ => rfl

/-- **When values have the same source form**: they are the same up to the case of truth values, or they
are confused. -/
theorem Written.source_eq_iff (hv : v.Written) (hw : w.Written) : v.source = w.source ↔
    v.lowered.canonical = w.lowered.canonical ∨ v.Confused w := by
  constructor
  · intro h
    rcases v.source_cases with ⟨s, hs, hv'⟩ | hv' <;> rcases w.source_cases with ⟨t, ht, hw'⟩ | hw'
    · have hst : s = t := quotedSource_inj (by rw [← hv', ← hw', h])
      exact .inr (.spoken hs (hst ▸ ht))
    · exact .inr (.quoted hs (by rw [hw', ← h, hv']))
    · exact .inr (.unquoted (by rw [hv', h, hw']) ht)
    · rw [← h] at hw'
      by_cases hkind : v.kind = w.kind
      · exact .inl (congrArg canonical (hv.lowered_eq hw hkind hv' hw'))
      · exact .inr (.bare hkind hv' hw')
  · rintro (h | h)
    · rw [← hv.source_lowered, ← hw.source_lowered, hv.lowered.canonical_inj hw.lowered h]
    · exact h.source_eq

/-- Two values that a signature does not tell apart. -/
def Alike (v w : Value) : Prop := v.lowered.canonical = w.lowered.canonical ∨ v.Confused w

end Value

/-! ## Shapes -/

/-- Two parameters that a signature does not tell apart. -/
def WrittenParameter.Alike (p q : WrittenParameter) : Prop :=
  p.name = q.name ∧ Option.Rel Value.Alike p.default q.default

/-- What a signature shows of a parameter. -/
def WrittenParameter.shown (p : WrittenParameter) : String × Option String :=
  (p.name, p.default.map Value.source)

theorem WrittenDefinition.shape_signature (names : String → List String) (options : ExportOptions)
    (h : Handle) (w : WrittenDefinition) :
    (w.signature names options h).shape = w.parameters.map WrittenParameter.shown := by
  rw [Signature.shape, WrittenDefinition.signature, List.map_map]
  rfl

/-- The defaults of parameters are values of a document. -/
def WrittenDefinition.DefaultsRead (w : WrittenDefinition) : Prop :=
  ∀ p ∈ w.parameters, ∀ v, p.default = some v → v.Read

theorem read_of_onlyValue {e : Xml.Element} {owner : String} {v : Value}
    (h : onlyValue e owner = .ok v) : v.Read := by
  unfold onlyValue at h
  split at h
  · exact ⟨_, h⟩
  · cases h

theorem readParameter_default {e : Xml.Element} {p : WrittenParameter} (h : readParameter e = .ok p) :
    ∀ v, p.default = some v → v.Read := by
  obtain ⟨name, -, h⟩ := bind_eq_ok.1 h
  split at h
  · cases h
    nofun
  · obtain ⟨default, hdefault, h⟩ := bind_eq_ok.1 h
    cases h
    rintro v rfl
    rename_i d _ _
    cases hw : onlyValue d "default" with
    | error e =>
      rw [hw] at hdefault
      cases hdefault
    | ok w =>
      rw [hw] at hdefault
      cases hdefault
      exact read_of_onlyValue hw

theorem Design.defaultsRead_of_ofText {d : Design} {text : String} (h : ofText text = .ok d) :
    ∀ w ∈ d.actionWords, w.DefaultsRead := by
  intro w hw p hp
  obtain ⟨e, he⟩ := exists_of_ofText h w hw
  obtain ⟨e', -, hp⟩ := exists_of_mapM_ok (readDefinition_parameters he).2 hp
  exact readParameter_default hp

theorem WrittenParameter.shown_eq_iff {p q : WrittenParameter}
    (hp : ∀ v, p.default = some v → v.Read) (hq : ∀ v, q.default = some v → v.Read) :
    p.shown = q.shown ↔ p.Alike q := by
  rw [shown, shown, Prod.mk.injEq, Alike]
  refine and_congr_right fun _ => ?_
  cases hv : p.default with
  | none =>
    cases hw : q.default with
    | none => exact iff_of_true rfl .none
    | some w => exact iff_of_false nofun nofun
  | some v =>
    cases hw : q.default with
    | none => exact iff_of_false nofun nofun
    | some w =>
      have hsource := (hp v hv).written.source_eq_iff (hq w hw).written
      rw [Option.map_some, Option.map_some, Option.some.injEq, hsource]
      exact ⟨fun h => .some h, fun h => by cases h; assumption⟩

/-- Two lists of parameters show the same just if their parameters do, one by one. -/
theorem map_shown_eq_iff {l m : List WrittenParameter}
    (hl : ∀ p ∈ l, ∀ v, p.default = some v → v.Read) (hm : ∀ p ∈ m, ∀ v, p.default = some v → v.Read) :
    l.map WrittenParameter.shown = m.map WrittenParameter.shown ↔
      List.Forall₂ WrittenParameter.Alike l m := by
  induction l generalizing m with
  | nil => cases m <;> simp
  | cons p l ih =>
    cases m with
    | nil => simp
    | cons q m =>
      obtain ⟨hp, hl⟩ := List.forall_mem_cons.1 hl
      obtain ⟨hq, hm⟩ := List.forall_mem_cons.1 hm
      rw [List.map_cons, List.map_cons, List.cons.injEq, List.forall₂_cons,
        WrittenParameter.shown_eq_iff hp hq, ih hl hm]

/-- The signature of the first action word of a name, in what a document exports after a run, has the
shape in which the parameters were written. -/
theorem Design.ensures_shape {d : Design} {g' m : Graph} {r : Report} {name : String}
    {a : WrittenDefinition} (he : d.graph.Enriched m g')
    (ha : d.actionWords.find? (·.name == name) = some a) (options : ExportOptions) :
    Ensures (exportSignatures options) ⟨g', r⟩ fun signatures _ =>
      ∃ x, signatures.lookup name = some x ∧ x.shape = a.parameters.map WrittenParameter.shown := by
  refine (ensures_exportSignatures he options).mono fun signatures _ hbare => ?_
  have hlookup := congrArg (List.lookup name) hbare
  rw [Signatures.lookup_bare, Signatures.lookup_sorted_collect, entries, lookup_map, ha, Option.map_some,
    Option.map_eq_some_iff] at hlookup
  obtain ⟨x, hx, heq⟩ := hlookup
  refine ⟨x, hx, ?_⟩
  have hshape : x.bare.shape = x.shape := rfl
  rw [← hshape, heq]
  exact WrittenDefinition.shape_signature d.formalNames options 0 (d.spoken m.formalTypes a)

/-- **What a shape tells of defaults.** Values of documents have the same source form just if they are the
same up to the case of truth values or confused. So an action word is exported from two documents with the
same shape just if its parameters have the same names and no two of their defaults are told apart. -/
theorem shapes_tell_defaults {text₁ text₂ : String} {strict₁ strict₂ : Bool} {d₁ d₂ : Design}
    {g₁ g₂ : Graph} {name : String} {a₁ a₂ : WrittenDefinition}
    (ht₁ : Design.ofText text₁ = .ok d₁) (hg₁ : Design.readGraph text₁ strict₁ = .ok g₁)
    (ht₂ : Design.ofText text₂ = .ok d₂) (hg₂ : Design.readGraph text₂ strict₂ = .ok g₂)
    (ha₁ : d₁.actionWords.find? (·.name == name) = some a₁)
    (ha₂ : d₂.actionWords.find? (·.name == name) = some a₂)
    (options₁ options₂ : ExportOptions) (r₁ r₂ : Report) :
    (∀ v w : Value, v.Read → w.Read → (v.source = w.source ↔
      v.lowered.canonical = w.lowered.canonical ∨ v.Confused w)) ∧
    Ensures enrich ⟨g₁, r₁⟩ fun _ s₁ => Ensures enrich ⟨g₂, r₂⟩ fun _ s₂ =>
      Ensures (exportSignatures options₁) s₁ fun signatures₁ _ =>
        Ensures (exportSignatures options₂) s₂ fun signatures₂ _ =>
          ∃ x y, signatures₁.lookup name = some x ∧ signatures₂.lookup name = some y ∧
            (x.shape = y.shape ↔ List.Forall₂ WrittenParameter.Alike a₁.parameters a₂.parameters) := by
  obtain ⟨d₁', ht₁', rfl⟩ := Design.exists_of_readGraph hg₁
  obtain ⟨d₂', ht₂', rfl⟩ := Design.exists_of_readGraph hg₂
  cases ht₁.symm.trans ht₁'
  cases ht₂.symm.trans ht₂'
  refine ⟨fun v w hv hw => hv.written.source_eq_iff hw.written, ?_⟩
  refine (Graph.ensures_enrich d₁.graph_sound).mono ?_
  rintro - ⟨g₁, r₁⟩ ⟨m₁, he₁⟩
  refine (Graph.ensures_enrich d₂.graph_sound).mono ?_
  rintro - ⟨g₂, r₂⟩ ⟨m₂, he₂⟩
  refine (Design.ensures_shape he₁ ha₁ options₁).mono ?_
  rintro signatures₁ - ⟨x, hx, hshape₁⟩
  refine (Design.ensures_shape he₂ ha₂ options₂).mono ?_
  rintro signatures₂ - ⟨y, hy, hshape₂⟩
  refine ⟨x, y, hx, hy, ?_⟩
  rw [hshape₁, hshape₂]
  exact map_shown_eq_iff (Design.defaultsRead_of_ofText ht₁ a₁ (List.mem_of_find?_eq_some ha₁))
    (Design.defaultsRead_of_ofText ht₂ a₂ (List.mem_of_find?_eq_some ha₂))

namespace Design

/-- An action word with a text and a truth value as defaults. -/
abbrev literalText : String := "<project><name>p</name><actionwords>
  <actionword><name>w</name><parameters>
    <parameter><name>x</name><default><stringliteral>a</stringliteral></default></parameter>
    <parameter><name>y</name><default><booleanliteral>True</booleanliteral></default></parameter>
  </parameters></actionword></actionwords>
  </project>"

/-- The action word with a template of this text and this truth value as defaults. -/
abbrev templateText : String := "<project><name>p</name><actionwords>
  <actionword><name>w</name><parameters>
    <parameter><name>x</name>
      <default><template><stringliteral>a</stringliteral></template></default></parameter>
    <parameter><name>y</name><default><booleanliteral>true</booleanliteral></default></parameter>
  </parameters></actionword></actionwords>
  </project>"

/-- The action word with two defaults. -/
def defaultsWord (v w : Value) : WrittenDefinition where
  name := "w"
  uid := none
  description := ""
  tags := []
  parameters := [{ name := "x", type := none, default := some v },
    { name := "y", type := none, default := some w }]
  steps := []

/-- The document with this action word. -/
def ofDefaults (v w : Value) : Design where
  name := "p"
  description := ""
  scenarios := []
  actionWords := [defaultsWord v w]

set_option maxRecDepth 4000 in
theorem ofText_literal : ofText literalText = .ok (ofDefaults (.string "a") (.boolean "True")) :=
  ofText_eq_ok (by decide +kernel)

set_option maxRecDepth 4000 in
theorem ofText_template :
    ofText templateText = .ok (ofDefaults (.template "" [.string "a"]) (.boolean "true")) :=
  ofText_eq_ok (by decide +kernel)

theorem alike_defaults : List.Forall₂ WrittenParameter.Alike
    (defaultsWord (.string "a") (.boolean "True")).parameters
    (defaultsWord (.template "" [.string "a"]) (.boolean "true")).parameters := by
  have htext : Value.Alike (.string "a") (.template "" [.string "a"]) := .inr (.spoken rfl (by decide))
  have htruth : Value.Alike (.boolean "True") (.boolean "true") :=
    .inl (congrArg Value.canonical (by decide))
  exact .cons ⟨rfl, .some htext⟩ (.cons ⟨rfl, .some htruth⟩ .nil)

end Design

theorem shapes_tell_template :
    (Design.ofText Design.literalText = .ok (.ofDefaults (.string "a") (.boolean "True")) ∧
      Design.ofText Design.templateText =
        .ok (.ofDefaults (.template "" [.string "a"]) (.boolean "true"))) ∧
    Ensures enrich ⟨(Design.ofDefaults (.string "a") (.boolean "True")).graph, {}⟩ fun _ s₁ =>
      Ensures enrich ⟨(Design.ofDefaults (.template "" [.string "a"]) (.boolean "true")).graph, {}⟩
          fun _ s₂ =>
        Ensures (exportSignatures {}) s₁ fun signatures₁ _ =>
          Ensures (exportSignatures {}) s₂ fun signatures₂ _ =>
            ∃ x y, signatures₁.lookup "w" = some x ∧ signatures₂.lookup "w" = some y ∧
              x.shape = y.shape := by
  refine ⟨⟨Design.ofText_literal, Design.ofText_template⟩, ?_⟩
  have hg₁ : Design.readGraph Design.literalText true = .ok _ :=
    Design.readGraph_eq_ok.2 ⟨_, Design.ofText_literal, fun _ => by decide, rfl⟩
  have hg₂ : Design.readGraph Design.templateText true = .ok _ :=
    Design.readGraph_eq_ok.2 ⟨_, Design.ofText_template, fun _ => by decide, rfl⟩
  have hw : ∀ v w, (Design.ofDefaults v w).actionWords.find? (·.name == "w") =
      some (Design.defaultsWord v w) := fun _ _ => rfl
  have h := (shapes_tell_defaults Design.ofText_literal hg₁ Design.ofText_template hg₂ (hw _ _) (hw _ _)
    {} {} {} {}).2
  refine h.mono fun _ _ h => h.mono fun _ _ h => h.mono fun _ _ h => h.mono ?_
  rintro _ - ⟨x, y, hx, hy, hshape⟩
  exact ⟨x, y, hx, hy, hshape.2 Design.alike_defaults⟩

/-- A template shows as the text that it reads as. -/
theorem sources_may_agree : ¬ ∀ v w : Value, v.Read → w.Read → v.source = w.source →
    v.lowered.canonical = w.lowered.canonical := by
  intro h
  have htext : Value.Read (.string "a") := ⟨.make "stringliteral" "a" [], rfl⟩
  have htemplate : Value.Read (.template "" [.string "a"]) :=
    ⟨.make "template" "" [.make "stringliteral" "a" []], rfl⟩
  have heq := h _ _ htext htemplate (by decide)
  simp [Value.lowered, Value.canonical] at heq

end Actionbook
