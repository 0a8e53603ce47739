import Actionbook.Proofs.Sound

/-!
# Reading a sound graph

On a sound graph every reader gives a result. The results are named here as plain lists and options:
`words` and `stories` of the project, `formals` of a definition, `arguments` of a call, and `target?`,
the first action word of a name. All but the enrichment of the nodes in them depends on `fixed` only.
-/

namespace Actionbook

/-- A parameter as it was written. -/
def Parameter.written (p : Parameter) : WrittenParameter := ⟨p.name, p.declaredType, p.default⟩

namespace Graph

/-- The steps of a scenario or an action word. -/
def body (g : Graph) (h : Handle) : List Handle := ((g.definition? h).map (·.steps)).getD []

/-- The steps of all bodies. -/
def steps (g : Graph) : List Handle :=
  ((g.outline?.map fun p => p.scenarios ++ p.actionWords).getD []).flatMap g.body

/-- The action words of the project. -/
def words (g : Graph) : List (Handle × ActionWord) :=
  gather g.actionWord? ((g.outline?.map (·.actionWords)).getD [])

/-- The scenarios of the project. -/
def stories (g : Graph) : List (Handle × Scenario) :=
  gather g.scenario? ((g.outline?.map (·.scenarios)).getD [])

/-- The parameters of a scenario or an action word. -/
def formals (g : Graph) (h : Handle) : List (Handle × Parameter) :=
  gather g.parameter? (((g.definition? h).map (·.parameters)).getD [])

/-- The first declared action word of a name. -/
def target? (g : Graph) (name : String) : Option Handle :=
  (g.words.find? fun w => w.2.name == name).map (·.1)

variable {g g' : Graph} {h k : Handle}

/-! ## Definitions -/

theorem definition?_of_actionWord? {w : ActionWord} (hw : g.actionWord? h = some w) :
    g.definition? h = some w.toDefinition := by
  simp [definition?, content?_actionWord.1 hw, Content.definition?]

theorem definition?_of_scenario? {s : Scenario} (hs : g.scenario? h = some s) :
    g.definition? h = some s.toDefinition := by
  simp [definition?, content?_scenario.1 hs, Content.definition?]

theorem exists_definition (hk : g.kind? h = some .actionWord) :
    ∃ w, g.actionWord? h = some w ∧ g.definition? h = some w.toDefinition := by
  obtain ⟨w, hw⟩ := Option.isSome_iff_exists.1 (isSome_actionWord?.2 hk)
  exact ⟨w, hw, definition?_of_actionWord? hw⟩

theorem formals_eq {d : Definition} (hd : g.definition? h = some d) :
    g.formals h = gather g.parameter? d.parameters := by simp [formals, hd]

theorem body_eq {d : Definition} (hd : g.definition? h = some d) : g.body h = d.steps := by
  simp [body, hd]

theorem mem_body (hk : k ∈ g.body h) : ∃ d, g.definition? h = some d ∧ k ∈ d.steps := by
  unfold body at hk
  cases hd : g.definition? h with
  | none => simp [hd] at hk
  | some d => exact ⟨d, rfl, by simpa [hd] using hk⟩

theorem kids_of_definition? {d : Definition} (hd : g.definition? h = some d) :
    g.kids h = d.parameters ++ d.steps := by
  obtain ⟨c, hc, hcd⟩ := Option.bind_eq_some_iff.1 hd
  cases c <;> simp only [Content.definition?, reduceCtorEq, Option.some.injEq] at hcd <;>
    exact hcd ▸ kids_eq hc rfl

theorem body_sublist (h : Handle) : (g.body h).Sublist (g.kids h) := by
  cases hd : g.definition? h with
  | none => simp [body, hd]
  | some d =>
    rw [body_eq hd, kids_of_definition? hd]
    exact List.sublist_append_right _ _

theorem parametersOf_of_shown {d : Definition} (hd : g.definition? h = some d)
    (hp : ∀ p ∈ d.parameters, (g.parameter? p).isSome) : g.parametersOf h = .ok (g.formals h) := by
  obtain ⟨c, hc, hcd⟩ := Option.bind_eq_some_iff.1 hd
  simp only [parametersOf, node_ok hc, bind, Except.bind, hcd, formals_eq hd]
  exact getAll_ok (fun _ _ => parameter_ok) hp

namespace Sound

variable (hs : g.Sound)
include hs

theorem definition_fits {d : Definition} (hd : g.definition? h = some d) : d.Fits g := by
  obtain ⟨c, hc, hcd⟩ := Option.bind_eq_some_iff.1 hd
  have := hs.fits h c hc
  cases c <;> simp only [Content.definition?, reduceCtorEq, Option.some.injEq] at hcd <;>
    exact hcd ▸ this

theorem isSome_parameter {d : Definition} (hd : g.definition? h = some d) :
    ∀ p ∈ d.parameters, (g.parameter? p).isSome := fun p hp =>
  isSome_parameter?.2 ((hs.definition_fits hd).1 p hp)

theorem map_fst_formals {d : Definition} (hd : g.definition? h = some d) :
    (g.formals h).map (·.1) = d.parameters := by
  rw [formals_eq hd]
  exact map_fst_gather (hs.isSome_parameter hd)

theorem nodup_formals {d : Definition} (hd : g.definition? h = some d) : d.parameters.Nodup := by
  obtain ⟨r, p, -, -, hl⟩ := hs.rooted
  have := hl.nodup_kids (h := h)
  rw [kids_of_definition? hd] at this
  exact (List.nodup_append.1 this).1

theorem parametersAt_ok {d : Definition} (hd : g.definition? h = some d) :
    g.parametersAt d.parameters = .ok (g.formals h) := by
  rw [formals_eq hd]
  exact getAll_ok (fun _ _ => parameter_ok) (hs.isSome_parameter hd)

theorem parametersOf_ok {d : Definition} (hd : g.definition? h = some d) :
    g.parametersOf h = .ok (g.formals h) := parametersOf_of_shown hd (hs.isSome_parameter hd)

/-! ## Calls -/

theorem isSome_argument {c : Call} (hc : g.content? h = some (.call c)) :
    ∀ a ∈ c.arguments, (g.argument? a).isSome := fun a ha =>
  isSome_argument?.2 (hs.fits h _ hc a ha)

theorem map_fst_arguments {c : Call} (hc : g.content? h = some (.call c)) :
    (g.arguments c).map (·.1) = c.arguments := map_fst_gather (hs.isSome_argument hc)

theorem argumentsOf_ok {c : Call} (hc : g.content? h = some (.call c)) :
    g.argumentsOf c = .ok (g.arguments c) :=
  getAll_ok (fun _ _ => argument_ok) (hs.isSome_argument hc)

theorem nodup_arguments {c : Call} (hc : g.content? h = some (.call c)) : c.arguments.Nodup := by
  obtain ⟨r, p, -, -, hl⟩ := hs.rooted
  have := hl.nodup_kids (h := h)
  rwa [kids_eq hc rfl] at this

theorem calls_ok : ∃ l, g.calls = .ok l ∧ l.Nodup ∧
    ∀ h, h ∈ l ↔ ∃ c, g.content? h = some (.call c) := by
  obtain ⟨visits, hw, hv⟩ := hs.walk_ok
  refine ⟨visits.filter fun h => ((g.node? h).bind (·.content.call?)).isSome, ?_, ?_, fun h => ?_⟩
  · simp only [calls, hw]
    rfl
  · exact (hv.nodup_iff.2 g.nodup_handles).filter _
  · have e : ((g.node? h).bind (·.content.call?)).isSome ↔ ∃ c, g.content? h = some (.call c) := by
      unfold content?
      cases g.node? h with
      | none => simp
      | some n => cases hn : n.content <;> simp [hn, Content.call?]
    rw [List.mem_filter, e, hv.mem_iff]
    exact and_iff_right_of_imp fun ⟨c, hc⟩ => mem_handles_of_content? hc

theorem parameters_ok : ∃ l, g.parameters = .ok l ∧ l.Nodup ∧
    ∀ h, h ∈ l ↔ ∃ p, g.parameter? h = some p := by
  obtain ⟨visits, hw, hv⟩ := hs.walk_ok
  refine ⟨visits.filter fun h => ((g.node? h).bind (·.content.parameter?)).isSome, ?_, ?_,
    fun h => ?_⟩
  · simp only [parameters, hw]
    rfl
  · exact (hv.nodup_iff.2 g.nodup_handles).filter _
  · have e : (g.node? h).bind (·.content.parameter?) = g.parameter? h := by
      unfold parameter? content?
      cases g.node? h <;> rfl
    rw [List.mem_filter, e, hv.mem_iff, Option.isSome_iff_exists]
    exact and_iff_right_of_imp fun ⟨p, hp⟩ => mem_handles_of_content? (content?_parameter.1 hp)

/-! ## The project -/

theorem exists_outline : ∃ r p, g.root = some r ∧ g.content? r = some (.project p) ∧
    g.outline? = some p := by
  obtain ⟨r, p, hr, hp, -⟩ := hs.rooted
  exact ⟨r, p, hr, hp, by simp [outline?, hr, hp, Content.project?]⟩

theorem project_ok : ∃ r p, g.project = .ok (r, p) ∧ g.root = some r ∧
    g.content? r = some (.project p) ∧ g.outline? = some p := by
  obtain ⟨r, p, hr, hp, ho⟩ := hs.exists_outline
  refine ⟨r, p, ?_, hr, hp, ho⟩
  have hget : g.get r .project Content.project? = .ok p := get_ok hp rfl
  simp only [project, hr, hget, bind, Except.bind]
  rfl

theorem isSome_word {p : Project} (ho : g.outline? = some p) :
    ∀ w ∈ p.actionWords, (g.actionWord? w).isSome := by
  obtain ⟨r, q, -, hq, ho'⟩ := hs.exists_outline
  rw [ho] at ho'
  cases ho'
  exact fun w hw => isSome_actionWord?.2 ((hs.fits r _ hq).2 w hw)

theorem isSome_story {p : Project} (ho : g.outline? = some p) :
    ∀ s ∈ p.scenarios, (g.scenario? s).isSome := by
  obtain ⟨r, q, -, hq, ho'⟩ := hs.exists_outline
  rw [ho] at ho'
  cases ho'
  exact fun s hm => isSome_scenario?.2 ((hs.fits r _ hq).1 s hm)

theorem actionWords_ok : g.actionWords = .ok g.words := by
  obtain ⟨r, p, hp, -, -, ho⟩ := hs.project_ok
  simp only [actionWords, hp, bind, Except.bind, words, ho]
  exact getAll_ok (fun _ _ => actionWord_ok) (hs.isSome_word ho)

theorem scenarios_ok : g.scenarios = .ok g.stories := by
  obtain ⟨r, p, hp, -, -, ho⟩ := hs.project_ok
  simp only [scenarios, hp, bind, Except.bind, stories, ho]
  exact getAll_ok (fun _ _ => scenario_ok) (hs.isSome_story ho)

end Sound

/-! ## Where steps stand -/

theorem steps_eq {p : Project} (ho : g.outline? = some p) :
    g.steps = ((p.scenarios ++ p.actionWords).map g.body).flatten := by
  rw [steps, ho, List.flatMap_def]
  rfl

namespace Sound

variable (hs : g.Sound)
include hs

theorem kid_cases (hk : k ∈ g.kids h) :
    (∃ p, g.content? h = some (.project p) ∧ k ∈ p.scenarios ++ p.actionWords ∧
        ∃ d, g.definition? k = some d) ∨
      (∃ d, g.definition? h = some d ∧
        ((k ∈ d.parameters ∧ g.kind? k = some .parameter) ∨ (k ∈ d.steps ∧ g.IsStep k))) ∨
      g.kind? k = some .argument := by
  obtain ⟨c, hc⟩ := content?_of_mem (mem_handles_of_mem_kids hk)
  have hfit := hs.fits h c hc
  have body : ∀ d, g.definition? h = some d → k ∈ d.parameters ++ d.steps →
      ∃ d, g.definition? h = some d ∧
        ((k ∈ d.parameters ∧ g.kind? k = some .parameter) ∨ (k ∈ d.steps ∧ g.IsStep k)) := by
    intro d hd hm
    have hfits := hs.definition_fits hd
    rcases List.mem_append.1 hm with hm | hm
    · exact ⟨d, hd, .inl ⟨hm, hfits.1 k hm⟩⟩
    · exact ⟨d, hd, .inr ⟨hm, hfits.2 k hm⟩⟩
  cases c with
  | blank => exact hfit.elim
  | project p =>
    rw [kids_eq hc rfl] at hk
    refine .inl ⟨p, hc, hk, ?_⟩
    rcases List.mem_append.1 hk with hm | hm
    · obtain ⟨s, hs'⟩ := Option.isSome_iff_exists.1 (isSome_scenario?.2 (hfit.1 k hm))
      exact ⟨_, definition?_of_scenario? hs'⟩
    · obtain ⟨w, -, hd⟩ := exists_definition (hfit.2 k hm)
      exact ⟨_, hd⟩
  | scenario s =>
    rw [kids_eq hc rfl] at hk
    exact .inr (.inl (body s.toDefinition (by simp [definition?, hc, Content.definition?]) hk))
  | actionWord w =>
    rw [kids_eq hc rfl] at hk
    exact .inr (.inl (body w.toDefinition (by simp [definition?, hc, Content.definition?]) hk))
  | call c =>
    rw [kids_eq hc rfl] at hk
    exact .inr (.inr (hfit k hk))
  | parameter p =>
    rw [kids_eq hc rfl] at hk
    cases hk
  | argument a =>
    rw [kids_eq hc rfl] at hk
    cases hk
  | step s =>
    rw [kids_eq hc rfl] at hk
    cases hk

/-- In a linked graph the parent of a node is the node that lists it. -/
theorem parent?_eq_some (hl : g.Linked) : g.parent? h = some k ↔ h ∈ g.kids k := by
  refine ⟨hs.honest h k, fun hk => ?_⟩
  obtain ⟨r, p, hr, -, hlist⟩ := hs.rooted
  obtain ⟨q, hq⟩ := hl h (hlist.kid_mem hk) fun e => by
    rw [hr, Option.some.injEq] at e
    exact hlist.root_not_mem (e ▸ hk)
  rw [hq, hlist.eq_of_mem (hs.honest h q hq) hk]

/-- Which parents there are in a linked graph depends on the lists alone. -/
theorem parent?_congr {g' : Graph} (hl : g.Linked) (hs' : g'.Sound) (hl' : g'.Linked)
    (hkids : g'.kids = g.kids) : g'.parent? = g.parent? := by
  funext k
  ext p
  rw [hs'.parent?_eq_some hl', hs.parent?_eq_some hl, hkids]

/-- Every step stands in a body. -/
theorem exists_body (hstep : g.IsStep h) : ∃ k d, g.definition? k = some d ∧ h ∈ d.steps := by
  obtain ⟨r, p, hr, hp, hl⟩ := hs.rooted
  have hne : h ≠ r := by
    rintro rfl
    rcases hstep with hk | hk <;> rw [kind_eq hp] at hk <;> cases hk
  obtain ⟨q, -, hq⟩ := hl.exists_parent hstep.mem_handles hne
  rcases hs.kid_cases hq with ⟨p, -, -, d, hd⟩ | ⟨d, hd, ⟨-, hk⟩ | ⟨hm, -⟩⟩ | hk
  · obtain ⟨c, hc, hcd⟩ := Option.bind_eq_some_iff.1 hd
    rcases isStep_iff.1 hstep with ⟨s, hs'⟩ | ⟨c', hc'⟩
    · rw [hs'] at hc
      cases hc
      cases hcd
    · rw [hc'] at hc
      cases hc
      cases hcd
  · rcases hstep with hk' | hk' <;> rw [hk] at hk' <;> cases hk'
  · exact ⟨q, d, hd, hm⟩
  · rcases hstep with hk' | hk' <;> rw [hk] at hk' <;> cases hk'

/-- Every scenario and every action word stands in the project. -/
theorem mem_project {r : Handle} {p : Project} {d : Definition} (hr : g.root = some r)
    (hp : g.content? r = some (.project p)) (hd : g.definition? h = some d) :
    h ∈ p.scenarios ++ p.actionWords := by
  obtain ⟨r', p', hr', hp', hl⟩ := hs.rooted
  rw [hr] at hr'
  cases hr'
  have kind_of : ∀ t, g.kind? h = some t → t = .scenario ∨ t = .actionWord := by
    intro t ht
    obtain ⟨c, hc, hcd⟩ := Option.bind_eq_some_iff.1 hd
    rw [kind_eq hc] at ht
    cases ht
    cases c <;> simp [Content.definition?, Content.kind] at hcd ⊢
  obtain ⟨c, hc, -⟩ := Option.bind_eq_some_iff.1 hd
  have hne : h ≠ r := by
    rintro rfl
    have := kind_of _ (kind_eq hp)
    simp [Content.kind] at this
  obtain ⟨q, hqm, hq⟩ := hl.exists_parent (mem_handles_of_content? hc) hne
  rcases hs.kid_cases hq with ⟨p₁, hp₁, hm, -⟩ | ⟨d, hd', ⟨-, hk⟩ | ⟨-, hk⟩⟩ | hk
  · -- only the root is a project: nothing lists another one
    by_cases e : q = r
    · subst e
      rw [hp] at hp₁
      cases hp₁
      exact hm
    · obtain ⟨q', -, hq'⟩ := hl.exists_parent hqm e
      have hkq := kind_eq hp₁
      rcases hs.kid_cases hq' with ⟨-, -, -, d', hd'⟩ | ⟨-, -, ⟨-, hk⟩ | ⟨-, hk⟩⟩ | hk
      · obtain ⟨c', hc', hcd'⟩ := Option.bind_eq_some_iff.1 hd'
        rw [hp₁] at hc'
        cases hc'
        cases hcd'
      · rw [hkq] at hk
        cases hk
      · rcases hk with hk | hk <;> rw [hkq] at hk <;> cases hk
      · rw [hkq] at hk
        cases hk
  · simpa using kind_of _ hk
  · rcases hk with hk | hk <;> simpa using kind_of _ hk
  · simpa using kind_of _ hk

theorem mem_words_of_actionWord? {w : ActionWord} (hw : g.actionWord? h = some w) :
    (h, w) ∈ g.words := by
  obtain ⟨r, p, hr, hp, ho⟩ := hs.exists_outline
  have hm : h ∈ p.scenarios ++ p.actionWords :=
    hs.mem_project hr hp (definition?_of_actionWord? hw)
  rw [words, ho]
  refine mem_gather.2 ⟨(List.mem_append.1 hm).resolve_left fun hm => ?_, hw⟩
  obtain ⟨s, hs'⟩ := Option.isSome_iff_exists.1 (hs.isSome_story ho h hm)
  have hc := content?_scenario.1 hs'
  rw [content?_actionWord.1 hw] at hc
  cases hc

theorem isStep_of_body (hk : k ∈ g.body h) : g.IsStep k := by
  obtain ⟨d, hd, hm⟩ := mem_body hk
  exact (hs.definition_fits hd).2 k hm

/-- The bodies of the scenarios and of the action words, in order. -/
theorem bodies_eq {p : Project} (ho : g.outline? = some p) :
    g.stories.map (·.2.steps) ++ g.words.map (·.2.steps) =
      (p.scenarios ++ p.actionWords).map g.body := by
  rw [List.map_append, stories, words, ho]
  congr 1
  · refine map_gather (f := fun s : Scenario => s.steps) fun h hh => ?_
    obtain ⟨s, hs'⟩ := Option.isSome_iff_exists.1 (hs.isSome_story ho h hh)
    exact ⟨s, hs', body_eq (definition?_of_scenario? hs')⟩
  · refine map_gather (f := fun w : ActionWord => w.steps) fun h hh => ?_
    obtain ⟨w, hw⟩ := Option.isSome_iff_exists.1 (hs.isSome_word ho h hh)
    exact ⟨w, hw, body_eq (definition?_of_actionWord? hw)⟩

/-- No step stands in two places. -/
theorem nodup_bodies {p : Project} (ho : g.outline? = some p) :
    ((p.scenarios ++ p.actionWords).map g.body).flatten.Nodup := by
  obtain ⟨r, p', hr, hp, hl⟩ := hs.rooted
  have hp' : p' = p := by simpa [outline?, hr, hp, Content.project?] using ho
  subst hp'
  have hkids : g.kids r = p'.scenarios ++ p'.actionWords := kids_eq hp rfl
  rw [← List.flatMap_def, ← hkids]
  refine List.nodup_flatMap.2 ⟨fun h _ => hl.nodup_kids.sublist (body_sublist h),
    hl.nodup_kids.imp fun {a b} hne k ha hb => ?_⟩
  exact hne (hl.eq_of_mem ((body_sublist a).subset ha) ((body_sublist b).subset hb))

theorem nodup_steps : g.steps.Nodup := by
  obtain ⟨r, p, -, -, ho⟩ := hs.exists_outline
  rw [steps_eq ho]
  exact hs.nodup_bodies ho

/-- The steps are those that stand in bodies. -/
theorem mem_steps : h ∈ g.steps ↔ g.IsStep h := by
  obtain ⟨r, p, hr, hp, ho⟩ := hs.exists_outline
  rw [steps, ho]
  constructor
  · intro hm
    obtain ⟨k, -, hk⟩ := List.mem_flatMap.1 hm
    exact hs.isStep_of_body hk
  · intro hstep
    obtain ⟨k, d, hd, hm⟩ := hs.exists_body hstep
    exact List.mem_flatMap.2 ⟨k, hs.mem_project hr hp hd, body_eq hd ▸ hm⟩

end Sound

/-! ## The index of action words -/

/-- Entries that are appended under names not known yet: the first of every name is kept. -/
theorem lookup_foldl_first {α β : Type} (key : α → String) (value : α → β) (l : List α)
    (known : List (String × β)) (name : String) :
    (l.foldl (fun known a =>
      if (known.lookup (key a)).isSome then known else known ++ [(key a, value a)]) known).lookup name =
      (known.lookup name).or ((l.find? (key · == name)).map value) := by
  induction l generalizing known with
  | nil => simp
  | cons a l ih =>
    rw [List.foldl_cons, ih, List.find?_cons]
    by_cases e : key a = name
    · subst e
      simp only [beq_self_eq_true, Option.map_some]
      by_cases hin : (known.lookup (key a)).isSome
      · obtain ⟨t, ht⟩ := Option.isSome_iff_exists.1 hin
        rw [if_pos hin, ht]
        rfl
      · rw [if_neg hin, List.lookup_append, Option.not_isSome_iff_eq_none.1 hin]
        simp
    · have h1 : (key a == name) = false := by simpa using e
      have h2 : (name == key a) = false := by simpa using Ne.symm e
      simp only [h1]
      split
      · rfl
      · simp [List.lookup_append, List.lookup_cons, h2]

theorem Sound.actionWordIndex_ok (hs : g.Sound) : ∃ index, g.actionWordIndex = .ok index ∧
    ∀ name, index.lookup name = g.target? name := by
  simp only [actionWordIndex, hs.actionWords_ok, bind, Except.bind]
  exact ⟨_, rfl, fun name => lookup_foldl_first (·.2.name) (·.1) g.words [] name⟩

theorem mem_words {w : Handle × ActionWord} (hw : w ∈ g.words) : g.actionWord? w.1 = some w.2 :=
  (mem_gather.1 hw).2

theorem exists_of_target? {name : String} (ht : g.target? name = some h) :
    ∃ w, (h, w) ∈ g.words ∧ w.name = name ∧ g.actionWord? h = some w ∧
      g.definition? h = some w.toDefinition := by
  obtain ⟨⟨k, w⟩, hw, rfl⟩ := Option.map_eq_some_iff.1 ht
  have hm := List.mem_of_find?_eq_some hw
  have hn := List.find?_some hw
  exact ⟨w, hm, by simpa using hn, mem_words hm, definition?_of_actionWord? (mem_words hm)⟩

theorem kind?_of_target? {name : String} (ht : g.target? name = some h) :
    g.kind? h = some .actionWord := by
  obtain ⟨w, -, -, hw, -⟩ := exists_of_target? ht
  exact kind?_of_actionWord? hw

theorem Sound.nodup_target (hs : g.Sound) {name : String} {t : Handle}
    (ht : g.target? name = some t) : ((g.formals t).map (·.1)).Nodup := by
  obtain ⟨w, -, -, -, hd⟩ := exists_of_target? ht
  rw [hs.map_fst_formals hd]
  exact hs.nodup_formals hd

/-- The parameters of the first declared action word of a name. -/
def formalsOf (g : Graph) (name : String) : List (Handle × Parameter) :=
  ((g.target? name).map g.formals).getD []

/-- The names of the parameters of the first declared action word of a name. -/
def formalNames (g : Graph) (name : String) : List String := (g.formalsOf name).map (·.2.name)

theorem Sound.nodup_formalsOf (hs : g.Sound) (name : String) :
    ((g.formalsOf name).map (·.1)).Nodup := by
  unfold formalsOf
  cases ht : g.target? name with
  | none => exact List.nodup_nil
  | some t => exact hs.nodup_target ht

theorem parameter?_of_formalsOf {name : String} {p : Handle × Parameter}
    (hp : p ∈ g.formalsOf name) : g.parameter? p.1 = some p.2 := by
  unfold formalsOf at hp
  cases ht : g.target? name with
  | none => simp [ht] at hp
  | some t =>
    rw [ht] at hp
    exact (mem_gather.1 hp).2

/-! ## What stays with `fixed` -/

/-- The definitions of the action words stay. -/
theorem words_congr (hr : g'.root = g.root) (hf : g'.fixed = g.fixed) :
    g'.words.map (fun w => (w.1, w.2.toDefinition)) = g.words.map fun w => (w.1, w.2.toDefinition) := by
  have e : ∀ x : Graph, x.words.map (fun w => (w.1, w.2.toDefinition)) =
      ((x.outline?.map (·.actionWords)).getD []).filterMap fun h =>
        ((x.fixed h).bind Content.actionWord?).map fun w => (h, w.toDefinition) := by
    intro x
    rw [words, gather, List.map_filterMap]
    apply List.filterMap_congr
    intro h _
    unfold actionWord? fixed
    cases x.content? h with
    | none => rfl
    | some c => cases c <;> rfl
  rw [e, e, outline?_congr hr hf, hf]

theorem steps_congr (hr : g'.root = g.root) (hf : g'.fixed = g.fixed) : g'.steps = g.steps := by
  have hbody : g'.body = g.body := by
    funext k
    rw [body, body, definition?_congr hf]
  rw [steps, steps, outline?_congr hr hf, hbody]

theorem stories_congr (hr : g'.root = g.root) (hf : g'.fixed = g.fixed) : g'.stories = g.stories := by
  rw [stories, stories, outline?_congr hr hf]
  exact gather_congr fun h _ => scenario?_congr hf

theorem target?_congr (hr : g'.root = g.root) (hf : g'.fixed = g.fixed) :
    g'.target? = g.target? := by
  funext name
  have e : ∀ x : Graph, x.target? name =
      ((x.words.map fun w => (w.1, w.2.toDefinition)).find? fun w => w.2.name == name).map (·.1) := by
    intro x
    rw [List.find?_map, Option.map_map]
    rfl
  rw [e, e, words_congr hr hf]

/-- Parameters stay, as they were written. -/
theorem gather_parameter_congr (hf : g'.fixed = g.fixed) (l : List Handle) :
    (gather g'.parameter? l).map (fun p => (p.1, p.2.written)) =
      (gather g.parameter? l).map fun p => (p.1, p.2.written) := by
  have e : ∀ x : Graph, (gather x.parameter? l).map (fun p => (p.1, p.2.written)) =
      l.filterMap fun p => ((x.fixed p).bind Content.parameter?).map fun q => (p, q.written) := by
    intro x
    rw [gather, List.map_filterMap]
    apply List.filterMap_congr
    intro p _
    unfold parameter? fixed
    cases x.content? p with
    | none => rfl
    | some c => cases c <;> rfl
  rw [e, e, hf]

theorem formals_congr (hf : g'.fixed = g.fixed) :
    (g'.formals h).map (fun p => (p.1, p.2.written)) = (g.formals h).map fun p => (p.1, p.2.written) := by
  rw [formals, formals, definition?_congr hf]
  exact gather_parameter_congr hf _

theorem formalNames_congr (hr : g'.root = g.root) (hf : g'.fixed = g.fixed) :
    g'.formalNames = g.formalNames := by
  funext name
  have h := fun t => congrArg (List.map fun p => p.2.name) (formals_congr (h := t) hf)
  simp only [List.map_map] at h
  rw [formalNames, formalNames, formalsOf, formalsOf, target?_congr hr hf]
  cases g.target? name with
  | none => rfl
  | some t => exact h t

end Graph

end Actionbook
