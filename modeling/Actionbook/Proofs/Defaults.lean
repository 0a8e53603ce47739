import Actionbook.Proofs.Inference

/-!
# Documents without defaults

A document is compared with the same document without the defaults of its parameters
(`Xml.Element.withoutDefaults`). Both have the same graph but for the defaults
(`Design.graph_withoutDefaults`). Data tables and calls are gone through before defaults, so that the
search without defaults ends where the search with them takes up the defaults, and from there on evidence
only grows (`Graph.Sound.evidence_prefix`).

* `defaults_only_fill_gaps`: types that are known without defaults stay what they are.
-/

namespace Actionbook

open Work (Ensures)

/-! ## Elements -/

namespace Xml.Element

/-- The element with its children of a tag changed. -/
def mapTagged (tag : String) (f : Element → Element) (e : Element) : Element :=
  .make e.tag e.text (e.children.map fun c => if c.tag = tag then f c else c)

/-- The element without its children of a tag. -/
def without (tag : String) (e : Element) : Element :=
  .make e.tag e.text (e.children.filter fun c => c.tag ≠ tag)

/-- A scenario or an action word without the defaults of its parameters. -/
def definitionWithoutDefaults : Element → Element :=
  mapTagged "parameters" (mapTagged "parameter" (without "default"))

/-- A document without the defaults of parameters. -/
def withoutDefaults (root : Element) : Element :=
  (root.mapTagged "scenarios" (mapTagged "scenario" definitionWithoutDefaults)).mapTagged
    "actionwords" (mapTagged "actionword" definitionWithoutDefaults)

variable {e : Element} {f : Element → Element} {t u : String}

theorem tag_mapTagged (c : Element) : (c.mapTagged t f).tag = c.tag := rfl

theorem tag_without (c : Element) : (c.without t).tag = c.tag := rfl

theorem child?_eq (e : Element) (t : String) : e.child? t = (e.childrenTagged t).head? :=
  List.head?_filter.symm

theorem childrenTagged_mapTagged (hf : ∀ c, (f c).tag = c.tag) :
    (e.mapTagged t f).childrenTagged t = (e.childrenTagged t).map f := by
  show (e.children.map _).filter _ = (e.children.filter _).map f
  induction e.children with
  | nil => rfl
  | cons c l ih =>
    by_cases hc : c.tag = t
    · simp [hc, hf, ih]
    · simp [hc, ih]

theorem childrenTagged_mapTagged_ne (hf : ∀ c, (f c).tag = c.tag) (hu : u ≠ t) :
    (e.mapTagged t f).childrenTagged u = e.childrenTagged u := by
  show (e.children.map _).filter _ = e.children.filter _
  induction e.children with
  | nil => rfl
  | cons c l ih =>
    by_cases hc : c.tag = t
    · simp [hc, hf, ih, Ne.symm hu]
    · simp [hc, ih, List.filter_cons]

theorem childrenTagged_without_ne (hu : u ≠ t) :
    (e.without t).childrenTagged u = e.childrenTagged u := by
  show (e.children.filter _).filter _ = e.children.filter _
  rw [List.filter_filter]
  refine List.filter_congr fun c _ => ?_
  by_cases hc : c.tag = u
  · simp [hc, hu]
  · simp [hc]

theorem childrenTagged_without : (e.without t).childrenTagged t = [] := by
  show (e.children.filter _).filter _ = []
  rw [List.filter_filter]
  exact List.filter_eq_nil_iff.2 fun c _ => by simp

/-- The children of children keep their order. -/
theorem grandchildren_mapTagged (hf : ∀ c, (f c).tag = c.tag) :
    (e.mapTagged t (mapTagged u f)).grandchildren t u = (e.grandchildren t u).map f := by
  rw [grandchildren, grandchildren, childrenTagged_mapTagged tag_mapTagged, List.flatMap_map,
    List.map_flatMap]
  exact List.flatMap_congr fun c _ => childrenTagged_mapTagged hf

theorem grandchildren_mapTagged_ne {outer inner : String} (hf : ∀ c, (f c).tag = c.tag)
    (ht : outer ≠ t) : (e.mapTagged t f).grandchildren outer inner = e.grandchildren outer inner := by
  rw [grandchildren, grandchildren, childrenTagged_mapTagged_ne hf ht]

end Xml.Element

open Xml (Element)

/-! ## Reading -/

/-- What is read of texts of children depends on the first child of the tag. -/
theorem childText_congr {e e' : Element} {t : String} (h : e'.childrenTagged t = e.childrenTagged t) :
    childText e' t = childText e t := by
  rw [childText, childText, Element.child?_eq, Element.child?_eq, h]

theorem childText?_congr {e e' : Element} {t : String}
    (h : e'.childrenTagged t = e.childrenTagged t) : childText? e' t = childText? e t := by
  rw [childText?, childText?, childText_congr h]

theorem requiredChild_congr {e e' : Element} {t : String} (owner : String)
    (h : e'.childrenTagged t = e.childrenTagged t) :
    requiredChild e' t owner = requiredChild e t owner := by
  rw [requiredChild, requiredChild, childText?_congr h]

def WrittenParameter.withoutDefault (p : WrittenParameter) : WrittenParameter :=
  { p with default := none }

def WrittenDefinition.withoutDefaults (w : WrittenDefinition) : WrittenDefinition :=
  { w with parameters := w.parameters.map WrittenParameter.withoutDefault }

def WrittenScenario.withoutDefaults (s : WrittenScenario) : WrittenScenario :=
  { s with toWrittenDefinition := s.toWrittenDefinition.withoutDefaults }

/-- The design without the defaults of parameters. -/
def Design.withoutDefaults (d : Design) : Design :=
  { d with
    scenarios := d.scenarios.map WrittenScenario.withoutDefaults
    actionWords := d.actionWords.map WrittenDefinition.withoutDefaults }

theorem readParameter_without {e : Element} {p : WrittenParameter} (h : readParameter e = .ok p) :
    readParameter (e.without "default") = .ok p.withoutDefault := by
  obtain ⟨name, hname, h⟩ := bind_eq_ok.1 h
  have hp : p.withoutDefault = { name, type := childText? e "type", default := none } := by
    split at h
    · cases h
      rfl
    · obtain ⟨default, -, h⟩ := bind_eq_ok.1 h
      cases h
      rfl
  have hname' : requiredChild (e.without "default") "name" "parameter" = .ok name := by
    rw [requiredChild_congr _ (Element.childrenTagged_without_ne (by decide)), hname]
  have htype : childText? (e.without "default") "type" = childText? e "type" :=
    childText?_congr (Element.childrenTagged_without_ne (by decide))
  have hdefault : (e.without "default").child? "default" = none := by
    rw [Element.child?_eq, Element.childrenTagged_without]
    rfl
  rw [readParameter, hname', hdefault, htype, hp]
  rfl

section
variable {e : Element} {t : String}

/-- Other children of a definition are not changed. -/
theorem childrenTagged_definition (ht : t ≠ "parameters") :
    e.definitionWithoutDefaults.childrenTagged t = e.childrenTagged t :=
  Element.childrenTagged_mapTagged_ne Element.tag_mapTagged ht

theorem grandchildren_definition {inner : String} (ht : t ≠ "parameters") :
    e.definitionWithoutDefaults.grandchildren t inner = e.grandchildren t inner :=
  Element.grandchildren_mapTagged_ne Element.tag_mapTagged ht

end

theorem readDefinition_withoutDefaults {owner : String} {e : Element} {w : WrittenDefinition}
    (h : readDefinition owner e = .ok w) :
    readDefinition owner e.definitionWithoutDefaults = .ok w.withoutDefaults := by
  obtain ⟨name, hname, h⟩ := bind_eq_ok.1 h
  obtain ⟨tags, htags, h⟩ := bind_eq_ok.1 h
  obtain ⟨parameters, hparameters, h⟩ := bind_eq_ok.1 h
  have hname' : requiredChild e.definitionWithoutDefaults "name" owner = .ok name := by
    rw [requiredChild_congr _ (childrenTagged_definition (by decide)), hname]
  have htags' : (e.definitionWithoutDefaults.grandchildren "tags" "tag").mapM readTag = .ok tags := by
    rw [grandchildren_definition (by decide), htags]
  have hparameters' : (e.definitionWithoutDefaults.grandchildren "parameters" "parameter").mapM
      readParameter = .ok (parameters.map WrittenParameter.withoutDefault) := by
    rw [Element.definitionWithoutDefaults, Element.grandchildren_mapTagged Element.tag_without]
    exact mapM_map_ok (fun _ _ => readParameter_without) hparameters
  have huid : childText? e.definitionWithoutDefaults "uid" = childText? e "uid" :=
    childText?_congr (childrenTagged_definition (by decide))
  have hdescription : childText e.definitionWithoutDefaults "description" =
      childText e "description" := childText_congr (childrenTagged_definition (by decide))
  have hsteps : e.definitionWithoutDefaults.child? "steps" = e.child? "steps" := by
    rw [Element.child?_eq, Element.child?_eq, childrenTagged_definition (by decide)]
  simp only [readDefinition, hname', htags', hparameters', huid, hdescription, hsteps, bind, Except.bind]
  cases hs : e.child? "steps" with
  | none =>
    rw [hs] at h
    cases h
    rfl
  | some s =>
    rw [hs] at h
    obtain ⟨steps, hsteps, h⟩ := bind_eq_ok.1 h
    cases h
    simp only [hsteps]
    rfl

theorem readScenario_withoutDefaults {e : Element} {s : WrittenScenario}
    (h : readScenario e = .ok s) :
    readScenario e.definitionWithoutDefaults = .ok s.withoutDefaults := by
  obtain ⟨definition, hdefinition, h⟩ := bind_eq_ok.1 h
  obtain ⟨rows, hrows, h⟩ := bind_eq_ok.1 h
  cases h
  have hrows' : (e.definitionWithoutDefaults.grandchildren "datatable" "dataset").mapM readRow =
      .ok rows := by
    rw [grandchildren_definition (by decide), hrows]
  simp only [readScenario, readDefinition_withoutDefaults hdefinition, hrows', bind, Except.bind]
  rfl

namespace Design

variable {d : Design}

/-- A document without defaults is read as the design without them. -/
theorem ofElement_withoutDefaults {root : Element} (h : ofElement root = .ok d) :
    ofElement root.withoutDefaults = .ok d.withoutDefaults := by
  unfold ofElement at h
  split at h
  · obtain ⟨_, hthrow, -⟩ := bind_eq_ok.1 h
    cases hthrow
  rename_i hroot
  obtain ⟨name, hname, h⟩ := bind_eq_ok.1 h
  obtain ⟨scenarios, hscenarios, h⟩ := bind_eq_ok.1 h
  obtain ⟨words, hwords, h⟩ := bind_eq_ok.1 h
  cases h
  have hdefinition : ∀ c : Element, c.definitionWithoutDefaults.tag = c.tag := fun _ => rfl
  have hother : ∀ {t : String}, t ≠ "scenarios" → t ≠ "actionwords" →
      root.withoutDefaults.childrenTagged t = root.childrenTagged t := fun hs hw => by
    rw [Element.withoutDefaults, Element.childrenTagged_mapTagged_ne Element.tag_mapTagged hw,
      Element.childrenTagged_mapTagged_ne Element.tag_mapTagged hs]
  have hname' : requiredChild root.withoutDefaults "name" "project" = .ok name := by
    rw [requiredChild_congr _ (hother (by decide) (by decide)), hname]
  have hscenarios' : (root.withoutDefaults.grandchildren "scenarios" "scenario").mapM readScenario =
      .ok (scenarios.map WrittenScenario.withoutDefaults) := by
    rw [Element.withoutDefaults,
      Element.grandchildren_mapTagged_ne Element.tag_mapTagged (by decide),
      Element.grandchildren_mapTagged hdefinition]
    exact mapM_map_ok (fun _ _ => readScenario_withoutDefaults) hscenarios
  have hwords' : (root.withoutDefaults.grandchildren "actionwords" "actionword").mapM
      (readDefinition "actionword") = .ok (words.map WrittenDefinition.withoutDefaults) := by
    rw [Element.withoutDefaults, Element.grandchildren_mapTagged hdefinition,
      Element.grandchildren_mapTagged_ne Element.tag_mapTagged (by decide)]
    exact mapM_map_ok (fun _ _ => readDefinition_withoutDefaults) hwords
  have hdescription : childText root.withoutDefaults "description" = childText root "description" :=
    childText_congr (hother (by decide) (by decide))
  have hproject : root.withoutDefaults.tag = "project" := not_not.1 hroot
  simp only [ofElement, hproject, hname', hscenarios', hwords', hdescription, bind, Except.bind]
  rfl

end Design

/-! ## Graphs -/

/-- To take the defaults of parameters away is to recast. -/
def Recast.dropDefaults : Recast where
  actionWord := id
  parameter p := { p with default := none }
  call := id
  argument := id
  step := id
  definition _ := rfl
  name _ := rfl
  declaredType _ := rfl
  callee _ := rfl
  arguments _ := rfl
  argumentName _ := rfl
  value _ := rfl

/-- Parts that are recast one by one are laid out at the same places. -/
theorem layOutAll_recast {α : Type} {contents : Nat → α → List Content} {f : α → α} {ρ : Recast}
    (hf : ∀ place a, contents place (f a) = (contents place a).map (Content.recast ρ)) (place : Nat)
    (l : List α) : layOutAll contents place (l.map f) =
      ((layOutAll contents place l).1, (layOutAll contents place l).2.map (Content.recast ρ)) := by
  induction l generalizing place with
  | nil => rfl
  | cons a l ih => simp only [List.map_cons, layOutAll, hf, List.length_map, ih, List.map_append]

theorem WrittenStep.contents_dropDefaults (place : Nat) (s : WrittenStep) :
    s.contents place = (s.contents place).map (Content.recast .dropDefaults) := by
  cases s with
  | plain key value => rfl
  | call word keyword args =>
    rw [contents, List.map_cons, List.map_map]
    rfl

theorem WrittenDefinition.contents_withoutDefaults (wrap : Definition → Content)
    (hwrap : ∀ d, (wrap d).recast .dropDefaults = wrap d) (place : Nat) (w : WrittenDefinition) :
    w.withoutDefaults.contents wrap place =
      (w.contents wrap place).map (Content.recast .dropDefaults) := by
  have hsteps := layOutAll_recast (f := id) WrittenStep.contents_dropDefaults
    (place + 1 + w.parameters.length) w.steps
  rw [List.map_id] at hsteps
  have hnodes : (layOutAll WrittenStep.contents (place + 1 + w.parameters.length) w.steps).2.map
      (Content.recast .dropDefaults) =
        (layOutAll WrittenStep.contents (place + 1 + w.parameters.length) w.steps).2 :=
    (congrArg Prod.snd hsteps).symm
  simp only [contents, withoutDefaults, List.length_map, List.cons_append, List.map_cons,
    List.map_append, List.map_map, hwrap, hnodes]
  rfl

namespace Design

variable {d : Design}

theorem contents_withoutDefaults (d : Design) :
    d.withoutDefaults.contents = d.contents.map (Content.recast .dropDefaults) := by
  have hscenario : ∀ place (s : WrittenScenario), s.withoutDefaults.contents place =
      (s.contents place).map (Content.recast .dropDefaults) := fun place s =>
    WrittenDefinition.contents_withoutDefaults
      (fun d => .scenario { toDefinition := d, rows := s.rows }) (fun _ => rfl) place _
  have hword : ∀ place (w : WrittenDefinition), w.withoutDefaults.wordContents place =
      (w.wordContents place).map (Content.recast .dropDefaults) := fun place w =>
    w.contents_withoutDefaults (fun d => .actionWord { toDefinition := d }) (fun _ => rfl) place
  simp only [contents, withoutDefaults, List.cons_append, List.map_cons, List.map_append,
    layOutAll_recast hscenario, layOutAll_recast hword, List.length_map]
  rfl

/-- **Without defaults, a document has the same graph** but for the defaults. -/
theorem graph_withoutDefaults (d : Design) :
    d.withoutDefaults.graph = d.graph.recast .dropDefaults := by
  rw [graph, graph, Graph.recast, contents_withoutDefaults, List.map_toArray, List.map_map,
    List.map_map]
  rfl

theorem declared_withoutDefaults (d : Design) : d.withoutDefaults.declared = d.declared := by
  rw [declared, declared, withoutDefaults, List.map_map]
  rfl

theorem called_withoutDefaults (d : Design) : d.withoutDefaults.called = d.called := by
  rw [called, called, steps, steps, withoutDefaults, List.flatMap_map, List.flatMap_map]
  rfl

/-- A document without defaults is accepted if the document with them is. -/
theorem readGraph_withoutDefaults {text text₀ : String} {strict : Bool} {g : Graph}
    (hg : readGraph text strict = .ok g)
    (htext : Xml.read? text₀ = (Xml.read? text).map Element.withoutDefaults) :
    readGraph text₀ strict = .ok (g.recast .dropDefaults) := by
  obtain ⟨d, hd, hknown, rfl⟩ := readGraph_eq_ok.1 hg
  refine readGraph_eq_ok.2 ⟨d.withoutDefaults, ?_, ?_, d.graph_withoutDefaults⟩
  · unfold ofText at hd ⊢
    split at hd
    · rename_i root hroot
      rw [htext, hroot]
      exact ofElement_withoutDefaults hd
    · cases hd
  · rwa [declared_withoutDefaults, called_withoutDefaults]

end Design

namespace Graph

variable {g l l₀ s s₀ : Graph} {e e₀ e₁ e₂ : Evidence} {ρ : Recast}

/-- Linking does not mind recasting. -/
theorem Relinked.recast_eq (hr : g.Relinked l) (hs : l.Sound) (hl : l.Linked)
    (hr₀ : (g.recast ρ).Relinked l₀) (hs₀ : l₀.Sound) (hl₀ : l₀.Linked) : l₀ = l.recast ρ := by
  have hcontent : ∀ k, l₀.content? k = (l.content? k).map (Content.recast ρ) := fun k => by
    rw [hr₀.content, content?_recast, hr.content]
  have hkids : l₀.kids = l.kids := funext fun p => by
    rw [kids_congr (congrFun hr₀.content p), kids_recast, kids_congr (congrFun hr.content p)]
  refine ext_node? (hr₀.root.trans hr.root.symm) fun k => ?_
  rw [node?_eq_map, node?_eq_map, hcontent, hs.parent?_congr hl hs₀ hl₀ hkids, content?_recast,
    parent?_recast]

/-! ## Two searches -/

theorem Settles.unique (h₁ : g.Settles e e₁) (h₂ : g.Settles e e₂) : e₁ = e₂ := by
  induction h₁ with
  | rest hnext hlen =>
    cases h₂ with
    | rest => rfl
    | round hnext' hlen' =>
      cases hnext.symm.trans hnext'
      exact absurd hlen hlen'
  | round hnext hlen _ ih =>
    cases h₂ with
    | rest hnext' hlen' =>
      cases hnext.symm.trans hnext'
      exact absurd hlen' hlen
    | round hnext' _ hrest =>
      cases hnext.symm.trans hnext'
      exact ih hrest

theorem Settles.of_recast (h : (g.recast ρ).Settles e e₁) : g.Settles e e₁ := by
  induction h with
  | rest hnext hlen => exact .rest (callsEvidence_recast ρ g ▸ hnext) hlen
  | round hnext hlen _ ih => exact .round (callsEvidence_recast ρ g ▸ hnext) hlen ih

/-- Rounds through the calls keep what is known. -/
theorem Sound.settles_kept (hs : g.Sound) (hlinked : g.Linked) (h : g.Settles e e₁) : e <+: e₁ := by
  induction h with
  | rest => exact List.prefix_rfl
  | round hnext _ _ ih =>
    obtain ⟨next, hnext', hl, -⟩ := hs.learns_callsEvidence hlinked _
    cases hnext.symm.trans hnext'
    exact hl.kept.trans ih

/-- Where there are no defaults, the search ends with what tables and calls show. -/
theorem Gathers.settles_of_no_default {parameters : List (Handle × Parameter)}
    (h : g.Gathers parameters e) (hd : ∀ p ∈ parameters, p.2.default = none) :
    ∃ table, tableEvidence g = .ok table ∧ g.Settles table e := by
  have hnone : ∀ known, defaultEvidence parameters known = known := by
    intro known
    clear h
    induction parameters with
    | nil => rfl
    | cons p l ih =>
      obtain ⟨hp, hl⟩ := List.forall_mem_cons.1 hd
      obtain ⟨h, q⟩ := p
      have hrecord : known.record h (q.default.bind Value.typeTag) = known := by
        rw [show q.default = none from hp]
        rfl
      rw [defaultEvidence, List.foldl_cons]
      dsimp only
      rw [hrecord]
      exact ih hl
  cases h with
  | settled htable he => exact ⟨_, htable, he⟩
  | again htable hknown hlen =>
    rw [hnone] at hlen
    exact absurd rfl hlen

/-- **Defaults only add to evidence**: the search starts with what the search without defaults finds. -/
theorem Sound.evidence_prefix (hs : g.Sound) (hlinked : g.Linked) (hs₀ : (g.recast .dropDefaults).Sound)
    (hlinked₀ : (g.recast .dropDefaults).Linked) (he : g.evidence = .ok e)
    (he₀ : (g.recast .dropDefaults).evidence = .ok e₀) : e₀ <+: e := by
  obtain ⟨-, parameters₀, -, -, hm₀, hgathers₀, -⟩ := hs₀.exists_gathers hlinked₀ he₀
  obtain ⟨-, parameters, -, -, hm, hgathers, -⟩ := hs.exists_gathers hlinked he
  have hnone : ∀ p ∈ parameters₀, p.2.default = none := fun p hp => by
    have hp := (hm₀ p.1 p.2).1 hp
    rw [parameter?_recast] at hp
    obtain ⟨q, -, hq⟩ := Option.map_eq_some_iff.1 hp
    exact hq ▸ rfl
  obtain ⟨table, htable, hsettles⟩ := hgathers₀.settles_of_no_default hnone
  rw [tableEvidence_recast] at htable
  have hknown := hsettles.of_recast
  cases hgathers with
  | settled htable' he =>
    cases htable.symm.trans htable'
    obtain rfl := hknown.unique he
    exact List.prefix_rfl
  | again htable' hknown' _ he =>
    cases htable.symm.trans htable'
    obtain rfl := hknown.unique hknown'
    have hl := (learns_defaultEvidence (fun a ha => (hm a.1 a.2).1 ha) e₀).1
    exact hl.kept.trans (hs.settles_kept hlinked he)

/-- So types that are known without defaults stay what they are. -/
theorem Typed.typeOf?_mono (ht : l.Typed e s) (ht₀ : (l.recast .dropDefaults).Typed e₀ s₀)
    (he : e₀ <+: e) {p : Handle} {t : String} (h : s₀.typeOf? p = some t) : s.typeOf? p = some t := by
  rw [typeOf?, ht₀.parameter, parameter?_recast] at h
  rw [typeOf?, ht.parameter]
  cases hq : l.parameter? p with
  | none =>
    rw [hq] at h
    cases h
  | some q =>
    rw [hq] at h
    exact Evidence.typeOf_mono (p := q) he h

/-- Where a default shows a type, there is a type. -/
theorem Typed.isSome_typeOf? (ht : l.Typed e s) (hi : l.Inferred s) {p : Handle} {q : Parameter} {v : Value}
    {t : String} (hq : s.parameter? p = some q) (hv : q.default = some v) (hvt : v.typeTag = some t) :
    (s.typeOf? p).isSome := by
  obtain ⟨q', hq', rfl⟩ := Option.map_eq_some_iff.1 ((ht.parameter p).symm.trans hq)
  have hliteral : l.Literal p t := .default hq' hv hvt
  have hderivable : ∃ t', l.Derivable s.typeOf? p t' := by
    cases hd : q'.declared? with
    | none => exact ⟨t, .literal hq' hd hliteral⟩
    | some t' => exact ⟨t', .declared hq' hd⟩
  obtain ⟨t', hder⟩ := hderivable
  cases htype : s.typeOf? p with
  | some _ => rfl
  | none =>
    rw [typeOf?, hq] at htype
    exact absurd hder ((hi.untyped p _ hq).1 htype t')

end Graph

/-- `s` has the types of `s₀`, which are those found in `l₀`. A further type is one of a parameter for which
none may be derived in `l₀`; and a parameter whose default shows a type is not left without one. -/
structure Graph.FillsGaps (l₀ s₀ s : Graph) : Prop where
  parameters : ∀ p, (s.parameter? p).isSome = (s₀.parameter? p).isSome
  kept : ∀ p t, s₀.typeOf? p = some t → s.typeOf? p = some t
  further : ∀ p t, s.typeOf? p = some t →
    s₀.typeOf? p = some t ∨ ∀ t', ¬ l₀.Derivable s₀.typeOf? p t'
  filled : ∀ p q v t, s.parameter? p = some q → q.default = some v → v.typeTag = some t →
    (s.typeOf? p).isSome

theorem Graph.Typed.fillsGaps {l s s₀ : Graph} {e e₀ : Evidence} (ht : l.Typed e s) (hi : l.Inferred s)
    (ht₀ : (l.recast .dropDefaults).Typed e₀ s₀) (hi₀ : (l.recast .dropDefaults).Inferred s₀)
    (he : e₀ <+: e) : (l.recast .dropDefaults).FillsGaps s₀ s := by
  have hsome : ∀ p, (s.parameter? p).isSome = (s₀.parameter? p).isSome := fun p => by
    rw [ht₀.parameter, Graph.parameter?_recast, ht.parameter, Option.isSome_map, Option.isSome_map,
      Option.isSome_map]
  refine ⟨hsome, fun p t => ht.typeOf?_mono ht₀ he, fun p t htype => ?_,
    fun p q v t hq hv hvt => ht.isSome_typeOf? hi hq hv hvt⟩
  cases htype₀ : s₀.typeOf? p with
  | some t₀ =>
    rw [ht.typeOf?_mono ht₀ he htype₀] at htype
    exact .inl htype
  | none =>
    obtain ⟨q, hq, -⟩ := Option.bind_eq_some_iff.1 htype
    obtain ⟨q₀, hq₀⟩ := Option.isSome_iff_exists.1 ((hsome p).symm.trans (Option.isSome_of_eq_some hq))
    refine .inr ((hi₀.untyped p q₀ hq₀).1 ?_)
    rwa [Graph.typeOf?, hq₀] at htype₀

/-- **Defaults only fill gaps.** A document is accepted, and so is the document without the defaults of its
parameters. Once both are linked and typed, every parameter that has a type without defaults has this type
with them, and defaults give types only to parameters for which none may be derived without defaults. With
them, no parameter is without a type if its default shows one. -/
theorem defaults_only_fill_gaps {text text₀ : String} {strict : Bool} {g : Graph}
    (hg : Design.readGraph text strict = .ok g)
    (htext : Xml.read? text₀ = (Xml.read? text).map Element.withoutDefaults) (r r₀ : Report) :
    ∃ g₀, Design.readGraph text₀ strict = .ok g₀ ∧
      Ensures linkParents ⟨g, r⟩ fun _ l => Ensures addTypes l fun _ s =>
        Ensures linkParents ⟨g₀, r₀⟩ fun _ l₀ => Ensures addTypes l₀ fun _ s₀ =>
          l₀.graph.FillsGaps s₀.graph s.graph := by
  have hg₀ := Design.readGraph_withoutDefaults hg htext
  refine ⟨_, hg₀, ?_⟩
  refine (Graph.ensures_linkParents (Design.sound_of_readGraph hg)).mono ?_
  rintro - ⟨l, r⟩ ⟨hf, hl, hr⟩
  refine (Graph.ensures_addTypes hf.sound).mono ?_
  rintro - ⟨s, r⟩ ⟨⟨e, he, ht⟩, -⟩
  refine (Graph.ensures_linkParents (Design.sound_of_readGraph hg₀)).mono ?_
  rintro - ⟨l₀, r₀⟩ ⟨hf₀, hl₀, hr₀⟩
  refine (Graph.ensures_addTypes hf₀.sound).mono ?_
  rintro - ⟨s₀, r₀⟩ ⟨⟨e₀, he₀, ht₀⟩, -⟩
  obtain rfl := hr.recast_eq hf.sound hl hr₀ hf₀.sound hl₀
  exact ht.fillsGaps (ht.inferred hf.sound hl he) ht₀ (ht₀.inferred hf₀.sound hl₀ he₀)
    (hf.sound.evidence_prefix hl hf₀.sound hl₀ he he₀)

namespace Design

/-- A document in which a default is against an argument, and another one is handed on. -/
abbrev defaultsText : String := "<project><name>p</name>
  <actionwords><actionword><name>t</name>
    <parameters><parameter><name>x</name><default><stringliteral>a</stringliteral></default>
    </parameter></parameters>
  </actionword><actionword><name>u</name>
    <parameters><parameter><name>y</name><default><booleanliteral>true</booleanliteral></default>
    </parameter></parameters>
    <steps><call><actionword>t</actionword><arguments>
      <argument><value><numericliteral>2.5</numericliteral></value></argument>
    </arguments></call><call><actionword>v</actionword><arguments>
      <argument><value><variable><name>y</name></variable></value></argument>
    </arguments></call></steps>
  </actionword><actionword><name>v</name>
    <parameters><parameter><name>z</name></parameter></parameters>
  </actionword></actionwords>
  </project>"

/-- The document without the defaults. -/
abbrev defaultlessText : String := "<project><name>p</name>
  <actionwords><actionword><name>t</name>
    <parameters><parameter><name>x</name>
    </parameter></parameters>
  </actionword><actionword><name>u</name>
    <parameters><parameter><name>y</name>
    </parameter></parameters>
    <steps><call><actionword>t</actionword><arguments>
      <argument><value><numericliteral>2.5</numericliteral></value></argument>
    </arguments></call><call><actionword>v</actionword><arguments>
      <argument><value><variable><name>y</name></variable></value></argument>
    </arguments></call></steps>
  </actionword><actionword><name>v</name>
    <parameters><parameter><name>z</name></parameter></parameters>
  </actionword></actionwords>
  </project>"

/-- The design that `defaultsText` describes. -/
def defaulted : Design where
  name := "p"
  description := ""
  scenarios := []
  actionWords := [{
    name := "t", uid := none, description := "", tags := [], steps := []
    parameters := [{ name := "x", type := none, default := some (.string "a") }] }, {
    name := "u", uid := none, description := "", tags := []
    parameters := [{ name := "y", type := none, default := some (.boolean "true") }]
    steps := [.call "t" none [⟨none, .numeric "2.5"⟩], .call "v" none [⟨none, .variable "y"⟩]] }, {
    name := "v", uid := none, description := "", tags := [], steps := []
    parameters := [{ name := "z", type := none, default := none }] }]

-- the characters of the texts are too many for the usual depth
set_option maxRecDepth 8000 in
theorem readGraph_defaulted : readGraph defaultsText true = .ok defaulted.graph :=
  readGraph_eq_ok.2 ⟨_, ofText_eq_ok (by decide +kernel), fun _ => by decide, rfl⟩

/-- That a document is another one without defaults comes down to an evaluation. -/
theorem read?_eq_of_check {l l₀ : List Char}
    (h : Xml.readCharacters? l₀ = (Xml.readCharacters? l).map Element.withoutDefaults) :
    Xml.read? (String.ofList l₀) = (Xml.read? (String.ofList l)).map Element.withoutDefaults := by
  rw [Xml.read?, Xml.read?, String.toList_ofList, String.toList_ofList, h]

set_option maxRecDepth 8000 in
theorem read?_defaultless :
    Xml.read? defaultlessText = (Xml.read? defaultsText).map Element.withoutDefaults :=
  read?_eq_of_check (by decide +kernel)

end Design

/-- The argument of a call is before the default; the other default gives types to its parameter and to the
one that it is handed on to, which have none without it. -/
theorem defaults_fill_gaps_of_defaulted :
    (Design.readGraph Design.defaultsText true = .ok Design.defaulted.graph ∧
      Xml.read? Design.defaultlessText = (Xml.read? Design.defaultsText).map Element.withoutDefaults) ∧
    (∃ g₀, Design.readGraph Design.defaultlessText true = .ok g₀ ∧
      Ensures linkParents ⟨Design.defaulted.graph, {}⟩ fun _ l => Ensures addTypes l fun _ s =>
        Ensures linkParents ⟨g₀, {}⟩ fun _ l₀ => Ensures addTypes l₀ fun _ s₀ =>
          l₀.graph.FillsGaps s₀.graph s.graph) ∧
    Ensures (do linkParents; addTypes) ⟨Design.defaulted.graph, {}⟩ (fun _ s =>
      decide ([2, 4, 10].map s.graph.typeOf? = [some "float", some "bool", some "bool"]) = true) ∧
    Ensures (do linkParents; addTypes) ⟨Design.defaulted.withoutDefaults.graph, {}⟩ (fun _ s =>
      decide ([2, 4, 10].map s.graph.typeOf? = [some "float", none, none]) = true) :=
  ⟨⟨Design.readGraph_defaulted, Design.read?_defaultless⟩,
    defaults_only_fill_gaps Design.readGraph_defaulted Design.read?_defaultless {} {},
    Work.ensures_of_check (by decide +kernel), Work.ensures_of_check (by decide +kernel)⟩

end Actionbook
