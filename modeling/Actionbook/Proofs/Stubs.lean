import Actionbook.Proofs.Partition
import Actionbook.Proofs.Publishing
import Actionbook.Proofs.Renderings

/-!
# Stubs of what has changed

The stubs of the action words that have changed are chosen without those that have not. So they may go to a
file that another action word has got when all stubs are chosen; this is so exactly where choosing all stubs
warns of it (`changed_stubs_differ_where_told`).

The nodes of a difference are those of action words of the project (`mem_actionWords_of_diff`), so that what
changes touch is among what is offered when all stubs are chosen.
-/

namespace Actionbook

open Work (Ensures)
open Publisher (Yields)

/-! ## Groups of stubs -/

namespace Config

variable {language : String} {category : Category} {group : OutputGroup} {groups : List OutputGroup}

theorem category_of_groupOf {value : Data} (h : groupOf language category value = .ok group) :
    group.category = category := by
  cases value with
  | mapping entry =>
    obtain ⟨naming, -, h⟩ := bind_eq_ok.1 h
    obtain ⟨settings, -, h⟩ := bind_eq_ok.1 h
    obtain ⟨files, -, h⟩ := bind_eq_ok.1 h
    cases h
    rfl
  | _ => cases h

theorem category_of_groupsOf {entry : Data × Data}
    (h : groupsOf language (some category) entry = .ok groups) :
    ∀ group ∈ groups, group.category = category := by
  unfold groupsOf at h
  cases hown : Category.ofData entry.1 with
  | error e =>
    rw [hown] at h
    cases h
  | ok own =>
    simp only [hown] at h
    obtain ⟨_, hc, h⟩ := bind_eq_ok.1 h
    cases hc
    by_cases hne : category = own
    · subst hne
      simp only [Option.any_some, ne_eq, not_true_eq_false, decide_false, Bool.false_eq_true, if_false] at h
      split at h
      · intro group hg
        obtain ⟨v, -, hv⟩ := exists_of_mapM_ok h hg
        exact category_of_groupOf hv
      · obtain ⟨only, hv, h⟩ := bind_eq_ok.1 h
        cases h
        intro group hg
        rw [List.mem_singleton.1 hg]
        exact category_of_groupOf hv
    · simp only [Option.any_some, ne_eq, hne, not_false_eq_true, decide_true, if_true] at h
      cases h
      exact List.forall_mem_nil _

/-- The groups that are asked for by category are of this category. -/
theorem category_of_outputGroups {config asked : Data} (hasked : Category.ofData asked = .ok category)
    (h : outputGroups config language (some asked) = .ok groups) :
    ∀ group ∈ groups, group.category = category := by
  obtain ⟨entries, -, h⟩ := bind_eq_ok.1 h
  simp only [hasked] at h
  split at h
  · cases h
  · split at h <;> cases h
  · obtain ⟨_, hc, h⟩ := bind_eq_ok.1 h
    cases hc
    obtain ⟨outputs, -, h⟩ := bind_eq_ok.1 h
    obtain ⟨parts, hparts, h⟩ := bind_eq_ok.1 h
    cases h
    intro group hg
    obtain ⟨part, hpart, hg⟩ := List.mem_flatten.1 hg
    obtain ⟨entry, -, hentry⟩ := exists_of_mapM_ok hparts hpart
    exact category_of_groupsOf hentry group hg

end Config

/-! ## Nodes of a difference -/

section
variable {g : Graph} {format : Snapshot.Format} {options : ExportOptions} {handles : List Handle}
  {known : Signatures} {words : List (Handle × ActionWord)} {start : Workspace} {post : Signatures → Workspace → Prop}

/-- All nodes of signatures are among some handles. -/
def Signatures.NodesIn (s : Signatures) (handles : List Handle) : Prop :=
  ∀ e ∈ s, ∀ h, e.2.node = some h → h ∈ handles

theorem signatureOf_node {h : Handle} {w : ActionWord} {t : Signature}
    (ht : g.signatureOf options h w = .ok t) {k : Handle} (hk : t.node = some k) : k = h := by
  obtain ⟨parameters, -, ht⟩ := bind_eq_ok.1 ht
  have hnode : t.node = if options.attachNodes then some h else none := by
    cases hbody : options.withBody with
    | true =>
      simp only [hbody, if_true] at ht
      obtain ⟨body, -, ht⟩ := bind_eq_ok.1 ht
      cases ht
      rfl
    | false =>
      simp only [hbody, Bool.false_eq_true, if_false] at ht
      cases ht
      rfl
  rw [hnode] at hk
  split at hk
  · exact (Option.some.inj hk).symm
  · cases hk

theorem ensures_exportFrom_nodes (hwords : ∀ w ∈ words, w.1 ∈ handles) (hknown : known.NodesIn handles)
    (h : Ensures (exportFrom options words known) start post) :
    Ensures (exportFrom options words known) start fun result _ => result.NodesIn handles := by
  induction words generalizing known start with
  | nil => exact Work.ensures_pure.2 hknown
  | cons w words ih =>
    have hrest : ∀ w' ∈ words, w'.1 ∈ handles := fun w' hw' => hwords w' (List.mem_cons_of_mem _ hw')
    unfold exportFrom at h ⊢
    by_cases hin : (known.lookup w.2.name).isSome = true
    · simp only [hin, if_true, Work.ensures_bind, Work.ensures_warn] at h ⊢
      exact ih hrest hknown h
    · simp only [hin, if_false, Work.ensures_bind, Work.ensures_read, Bool.false_eq_true] at h ⊢
      obtain ⟨t, ht, h⟩ := h
      refine ⟨t, ht, ih hrest (fun e he k hk => ?_) h⟩
      rcases List.mem_append.1 he with he | he
      · exact hknown e he k hk
      · rw [List.mem_singleton.1 he] at hk
        exact signatureOf_node ht hk ▸ hwords w List.mem_cons_self

/-- What a graph exports has nodes of action words of its project. -/
theorem ensures_exportSignatures_nodes (h : Ensures (exportSignatures options) start post) :
    ∃ root project, start.graph.project = .ok (root, project) ∧
      Ensures (exportSignatures options) start fun result _ => result.NodesIn project.actionWords := by
  simp only [exportSignatures, Work.ensures_bind, Work.ensures_read, Work.ensures_pure] at h ⊢
  obtain ⟨words, hwords, h⟩ := h
  obtain ⟨⟨root, project⟩, hproject, hall⟩ := bind_eq_ok.1 hwords
  refine ⟨root, project, hproject, words, hwords, ?_⟩
  have hnone : Signatures.NodesIn [] project.actionWords := List.forall_mem_nil _
  refine (ensures_exportFrom_nodes (fun w hw => ?_) hnone h).mono fun result _ hresult e he => ?_
  · obtain ⟨k, hk, hkw⟩ := exists_of_mapM_ok hall hw
    obtain ⟨_, -, hkw⟩ := bind_eq_ok.1 hkw
    cases hkw
    exact hk
  · exact hresult e (result.sorted_perm.mem_iff.1 he)

/-- The nodes of a difference are action words of the project. -/
theorem mem_actionWords_of_diff {previous : String} {d : Diff} {p p' : Publisher} {c : Change}
    {e : DiffEntry} {k : Handle} (h : (Publisher.diff previous g format).run.run p = (.ok d, p'))
    (hc : c ≠ .deleted) (he : e ∈ d.group c) (hk : e.node = some k) :
    ∃ root project, g.project = .ok (root, project) ∧ k ∈ project.actionWords := by
  have hd : Yields (Publisher.diff previous g format) p fun a _ => a = d := ⟨d, p', h, rfl⟩
  simp only [Publisher.yields_diff_iff, Publisher.signatures, Publisher.yields_bind,
    Publisher.yields_workOn_iff, Publisher.yields_pure] at hd
  obtain ⟨old, -, hd⟩ := hd
  obtain ⟨root, project, hproject, new, s, hrun, hin⟩ := ensures_exportSignatures_nodes hd
  obtain ⟨rule, -, rfl⟩ := (Work.ensures_of_run hrun).1 hd
  obtain ⟨t, ht, hnode⟩ := (fits_of_mem_group he).node_eq hc
  exact ⟨root, project, hproject, hin _ (mem_of_lookup ht) k (hnode ▸ hk)⟩

/-- A group of stubs for each action word has one for whatever a difference says has changed. -/
theorem mem_targets_of_diff {previous : String} {d : Diff} {p p' : Publisher} {group : OutputGroup}
    {targets : List Handle} (h : (Publisher.diff previous g format).run.run p = (.ok d, p'))
    (hstubs : group.category = .stubs) (hfiles : group.files.isPerNode = true)
    (ht : g.targets group = .ok targets) :
    ∀ k ∈ (d.created ++ d.changed).filterMap (·.node), k ∈ targets := by
  intro k hk
  obtain ⟨e, he, hek⟩ := List.mem_filterMap.1 hk
  obtain ⟨root, project, hproject, hmem⟩ :
      ∃ root project, g.project = .ok (root, project) ∧ k ∈ project.actionWords := by
    rcases List.mem_append.1 he with he | he
    · exact mem_actionWords_of_diff (c := .created) h (by decide) he hek
    · exact mem_actionWords_of_diff (c := .signatureChanged) h (by decide) he hek
  unfold Graph.targets at ht
  rw [hproject] at ht
  cases hform : group.files with
  | whole filename =>
    rw [hform] at hfiles
    cases hfiles
  | each form =>
    rw [hform, hstubs] at ht
    cases ht
    exact hmem

end

/-! ## All stubs and those that change -/

namespace Publisher

variable {g : Graph} {format : Snapshot.Format} {host : Form.Host} {p p' q q' : Publisher}
  {all : List Rendering}

/-- Choosing the files of a category is choosing those of its groups. -/
theorem yields_renderings_iff {category : Option Data} {post : List Rendering → Publisher → Prop} :
    Yields (renderings g category host) p post ↔
      ∃ groups, Config.outputGroups p.config p.language category = .ok groups ∧
        ∃ chosen report', (selectRenderings g groups host).run.run p.report = (.ok chosen, report') ∧
          post chosen { p with report := report' } := by
  simp only [renderings, groups, yields_bind, yields_get, yields_check]
  refine exists_congr fun groups => and_congr_right fun _ => ?_
  rcases hrun : (selectRenderings g groups host).run.run p.report with ⟨outcome, report'⟩
  have hselect : (selectRenderings g groups host).run p.report = (outcome, report') := hrun
  simp only [hselect, yields_bind, yields_modify, yields_check]
  constructor
  · rintro ⟨chosen, rfl, h⟩
    exact ⟨chosen, report', rfl, h⟩
  · rintro ⟨chosen, _, hrun', h⟩
    cases hrun'
    exact ⟨chosen, rfl, h⟩

/-- Comparing changes nothing of a publisher but the report. -/
theorem diff_keeps {previous : String} {d : Diff}
    (h : (diff previous g format).run.run p = (.ok d, p')) :
    p'.config = p.config ∧ p'.language = p.language := by
  have hd : Yields (diff previous g format) p fun _ t => t = p' := ⟨d, p', h, rfl⟩
  simp only [yields_diff_iff, signatures, yields_bind, yields_workOn_iff, yields_pure] at hd
  obtain ⟨old, -, new, s, -, rule, -, rfl⟩ := hd
  exact ⟨rfl, rfl⟩

theorem yields_changedStubs_iff {d : Diff} {post : List Rendering → Publisher → Prop} :
    Yields (changedStubs g d host) p post ↔
      ∃ groups, Config.outputGroups p.config p.language (some (.text Category.stubs.name)) = .ok groups ∧
        if ((d.created ++ d.changed).filterMap (·.node)).isEmpty then post [] p
        else ∃ chosen,
          changedRenderings g ((d.created ++ d.changed).filterMap (·.node)) groups host = .ok chosen ∧
            post chosen p := by
  simp only [changedStubs, Publisher.groups, yields_bind, yields_get, yields_check]
  refine exists_congr fun groups => and_congr_right fun _ => ?_
  split
  · simp
  · simp [yields_check]

end Publisher

/-- **Where the stubs that change are others than those of a full run.** For the stub of a changed action
word, choosing all stubs keeps exactly one stub with its file. That one is for the same action word unless
choosing all stubs warns that the file of this action word is taken. -/
theorem changed_stubs_differ_where_told {g : Graph} {format : Snapshot.Format} {host : Form.Host}
    {previous : String} {d : Diff} {p p' q q' : Publisher} {all : List Rendering}
    (hdiff : (Publisher.diff previous g format).run.run p = (.ok d, p'))
    (hall : (Publisher.renderings g (some (.text Category.stubs.name)) host).run.run q = (.ok all, q')) :
    Yields (Publisher.changedStubs g d host) q fun changed _ => ∀ r ∈ changed,
      ∃ full ∈ all, full.sameFile r = true ∧ (∀ f ∈ all, f.sameFile r = true → f = full) ∧
        (full.node = r.node ↔ r.collision ∉ q'.report.since q.report.mark) := by
  have h : Yields (Publisher.renderings g (some (.text Category.stubs.name)) host) q
      fun chosen t => chosen = all ∧ t = q' := ⟨all, q', hall, rfl, rfl⟩
  obtain ⟨groups, hgroups, _, report', hrun, rfl, rfl⟩ := Publisher.yields_renderings_iff.1 h
  obtain ⟨offered, hoffered, hc⟩ := chosen_of_selectRenderings hrun
  have hstubs : ∀ group ∈ groups, group.category = .stubs := Config.category_of_outputGroups rfl hgroups
  refine Publisher.yields_changedStubs_iff.2 ⟨groups, hgroups, ?_⟩
  split
  · exact List.forall_mem_nil _
  · obtain ⟨changed, hchanged, hamong⟩ := exists_changedRenderings hoffered hc.identified
      (fun group hg hfiles targets ht => mem_targets_of_diff hdiff (hstubs group hg) hfiles ht)
    refine ⟨changed, hchanged, fun r hr => ?_⟩
    obtain ⟨r', hr', settings, rfl⟩ := hamong r hr
    -- file, node and warning do not depend on the settings
    have hfull := hc.exists_full hr'
    exact hfull

/-! ## Two action words with one file -/

namespace Design

/-- A document with two action words whose names make one identifier. -/
abbrev clashText : String := "<project><name>p</name><actionwords>
  <actionword><name>do-it</name></actionword>
  <actionword><name>do it</name></actionword>
  </actionwords></project>"

/-- The design that it describes. -/
def clash : Design where
  name := "p"
  description := ""
  scenarios := []
  actionWords := ["do-it", "do it"].map fun name => {
    name, uid := none, description := "", tags := [], parameters := [], steps := [] }

set_option maxRecDepth 4000 in
theorem ofText_clash : ofText clashText = .ok clash :=
  ofText_eq_ok (by decide +kernel)

theorem readGraph_clash : readGraph clashText true = .ok clash.graph :=
  readGraph_eq_ok.2 ⟨_, ofText_clash, fun _ => by decide, rfl⟩

end Design

/-- Stubs with a file for each action word. -/
def stubGroup : OutputGroup where
  category := .stubs
  language := .text "python"
  files := .each (.text "\x7bname\x7d.py")

/-- A publisher that is set up for these stubs. -/
def stubPublisher : Publisher where
  config := .mapping [(.text "languages", .mapping [(.text "python",
    .mapping [(.text Category.stubs.name, .mapping [(.text "named_filename", stubGroup.files.form)])])])]
  language := "python"

/-- The stub of either word. -/
def clashingStub (h : Handle) (settings : List (Data × Data)) (description : String) : Rendering :=
  ⟨h, .text "do_it.py", .text "python", .stubs, settings, description⟩

/-- The name of a node. -/
def Graph.nameOf? (g : Graph) (h : Handle) : Option String := (g.subject h).toOption.map Subject.name

/-- What matters of a graph of the two words. -/
structure Graph.Clashes (g : Graph) : Prop where
  words : g.project.toOption.map (·.2.actionWords) = some [1, 2]
  first : g.nameOf? 1 = some "do-it"
  second : g.nameOf? 2 = some "do it"

instance (g : Graph) : Decidable g.Clashes :=
  decidable_of_iff (g.project.toOption.map (·.2.actionWords) = some [1, 2] ∧
      g.nameOf? 1 = some "do-it" ∧ g.nameOf? 2 = some "do it")
    ⟨fun h => ⟨h.1, h.2.1, h.2.2⟩, fun h => ⟨h.words, h.first, h.second⟩⟩

theorem toOption_map_eq_some {ε α β : Type} {x : Except ε α} {f : α → β} {b : β} :
    x.toOption.map f = some b ↔ ∃ a, x = .ok a ∧ f a = b := by
  cases x <;> simp [Except.toOption]

namespace Graph.Clashes

variable {g : Graph}

theorem rendering_stub {h : Handle}
    (hname : g.nameOf? h = some "do-it" ∨ g.nameOf? h = some "do it") :
    ∃ settings description, g.rendering stubGroup h = .ok (clashingStub h settings description) := by
  obtain ⟨s, hs, hname⟩ : ∃ s, g.subject h = .ok s ∧ (s.name = "do-it" ∨ s.name = "do it") := by
    simp only [nameOf?, toOption_map_eq_some] at hname
    rcases hname with ⟨s, hs, hname⟩ | ⟨s, hs, hname⟩
    · exact ⟨s, hs, .inl hname⟩
    · exact ⟨s, hs, .inr hname⟩
  have hid : s.identifierAt stubGroup.naming h = "do_it" := by
    have hmade : identifier .snake s.name = "do_it" := by
      rcases hname with hname | hname <;> rw [hname] <;> decide +kernel
    rw [Subject.identifierAt, show stubGroup.naming = .snake from rfl, hmade]
    rfl
  have hpath : stubGroup.pathFor "do_it" = .ok (.text "do_it.py") := rfl
  simp only [rendering, hs, hid, show stubGroup.files.isPerNode = true from rfl, if_true, hpath]
  exact ⟨_, _, rfl⟩

theorem renderings (hg : g.Clashes) : ∃ settings description settings' description',
    g.rendering stubGroup 1 = .ok (clashingStub 1 settings description) ∧
      g.rendering stubGroup 2 = .ok (clashingStub 2 settings' description') := by
  obtain ⟨settings, description, hr⟩ := rendering_stub (.inl hg.first)
  obtain ⟨settings', description', hr'⟩ := rendering_stub (.inr hg.second)
  exact ⟨settings, description, settings', description', hr, hr'⟩

theorem targets (hg : g.Clashes) : g.targets stubGroup = .ok [1, 2] := by
  obtain ⟨⟨root, project⟩, hproject, hwords⟩ := toOption_map_eq_some.1 hg.words
  unfold Graph.targets
  rw [hproject]
  exact congrArg Except.ok hwords

/-- Of all stubs, that of the word that is declared first is kept. -/
theorem selectRenderings (hg : g.Clashes) (report : Report) : ∃ settings description report',
    (selectRenderings g [stubGroup]).run.run report =
      (.ok [clashingStub 1 settings description], report') := by
  obtain ⟨settings, description, settings', description', hr, hr'⟩ := hg.renderings
  simp only [Actionbook.selectRenderings, keepGroups, hg.targets, keepAll, hr, hr']
  exact ⟨_, _, _, rfl⟩

/-- If both words have changed, the stub of the one whose name comes first is kept. -/
theorem changedRenderings (hg : g.Clashes) : ∃ settings description,
    changedRenderings g [2, 1] [stubGroup] = .ok [clashingStub 2 settings description] := by
  obtain ⟨settings, description, settings', description', hr, hr'⟩ := hg.renderings
  have hchanged : changedOf g {} [2, 1] stubGroup =
      .ok [clashingStub 2 settings' description', clashingStub 1 settings description] := by
    show [2, 1].mapM (g.rendering stubGroup ·) = _
    simp only [List.mapM_cons, List.mapM_nil, hr, hr']
    rfl
  refine ⟨settings', description', ?_⟩
  rw [Actionbook.changedRenderings, List.foldlM_cons, hchanged]
  rfl

end Graph.Clashes

/-- Both words have changed since an empty snapshot, and the one that is declared last is told first. -/
theorem build_clash : Yields (Publisher.build Design.clashText true) stubPublisher fun g p =>
    p.config = stubPublisher.config ∧ p.language = stubPublisher.language ∧ g.Clashes ∧
      Yields (Publisher.diff "" g) p fun d _ =>
        decide ((d.created ++ d.changed).filterMap (·.node) = [2, 1]) = true := by
  have hrun : Ensures enrich ⟨Design.clash.graph, {}⟩ fun _ t =>
      (decide t.graph.Clashes &&
        Publisher.finds (Publisher.diff "" t.graph) { stubPublisher with report := t.report } fun d _ =>
          decide ((d.created ++ d.changed).filterMap (·.node) = [2, 1])) = true :=
    Work.ensures_of_check (by decide +kernel)
  simp only [Publisher.build, Design.readGraph_clash, Publisher.yields_bind, Publisher.yields_pure,
    Publisher.yields_workOn_iff]
  refine hrun.mono fun _ t ht => ?_
  obtain ⟨hg, hd⟩ := Bool.and_eq_true_iff.1 ht
  exact ⟨trivial, trivial, of_decide_eq_true hg, Publisher.yields_of_finds hd⟩

/-- All stubs of the two words, and those that have changed. -/
theorem runs_of_clash :
    Yields (Publisher.build Design.clashText true) stubPublisher fun g p =>
      Yields (Publisher.diff "" g) p fun d q =>
        Yields (Publisher.renderings g (some (.text Category.stubs.name))) q fun all _ =>
          Yields (Publisher.changedStubs g d) q fun changed _ =>
            (∃ settings description, all = [clashingStub 1 settings description]) ∧
              ∃ settings description, changed = [clashingStub 2 settings description] := by
  refine build_clash.mono ?_
  rintro g p ⟨hconfig, hlanguage, hg, d, q, hdiff, hnodes⟩
  refine ⟨d, q, hdiff, ?_⟩
  have hgroups : Config.outputGroups q.config q.language (some (.text Category.stubs.name)) =
      .ok [stubGroup] := by
    rw [(Publisher.diff_keeps hdiff).1, (Publisher.diff_keeps hdiff).2, hconfig, hlanguage]
    rfl
  obtain ⟨settings, description, report', hselect⟩ := hg.selectRenderings q.report
  obtain ⟨settings', description', hchanged⟩ := hg.changedRenderings
  refine Publisher.yields_renderings_iff.2 ⟨_, hgroups, _, report', hselect, ?_⟩
  rw [← of_decide_eq_true hnodes] at hchanged
  refine Publisher.yields_changedStubs_iff.2 ⟨_, hgroups, ?_⟩
  rw [if_neg (by rw [of_decide_eq_true hnodes]; decide)]
  exact ⟨_, hchanged, ⟨settings, description, rfl⟩, settings', description', rfl⟩

theorem changed_stubs_of_clash_differ_where_told :
    Yields (Publisher.build Design.clashText true) stubPublisher fun g p =>
      Yields (Publisher.diff "" g) p fun d q =>
        Yields (Publisher.renderings g (some (.text Category.stubs.name))) q fun all q' =>
          Yields (Publisher.changedStubs g d) q fun changed _ => changed.map (·.node) = [2] ∧
            ∀ r ∈ changed, ∃ full ∈ all, full.sameFile r = true ∧
              (∀ f ∈ all, f.sameFile r = true → f = full) ∧
                (full.node = r.node ↔ r.collision ∉ q'.report.since q.report.mark) := by
  obtain ⟨g, p, hbuild, d, q, hdiff, all, q', hall, hchanged⟩ := runs_of_clash
  refine ⟨g, p, hbuild, d, q, hdiff, all, q', hall, ?_⟩
  obtain ⟨changed, t, hrun, -, settings, description, rfl⟩ := hchanged
  have h := changed_stubs_differ_where_told hdiff hall
  rw [Publisher.yields_of_run hrun] at h ⊢
  exact ⟨rfl, h⟩

/-- **Choosing what has changed may differ from choosing all.** Of two changed action words with one file,
all stubs have that of the word that is declared first, and those that change have that of the word whose
name comes first. -/
theorem changed_stub_may_replace_another :
    Yields (Publisher.build Design.clashText true) stubPublisher fun g p =>
      Yields (Publisher.diff "" g) p fun d q =>
        Yields (Publisher.renderings g (some (.text Category.stubs.name))) q fun all _ =>
          Yields (Publisher.changedStubs g d) q fun changed _ =>
            ∃ r ∈ changed, ∃ full ∈ all, full.sameFile r = true ∧ full.node ≠ r.node := by
  refine runs_of_clash.mono fun _ _ h => h.mono fun _ _ h => h.mono fun _ _ h => h.mono ?_
  rintro _ _ ⟨⟨settings, description, rfl⟩, settings', description', rfl⟩
  have hne : (1 : Handle) ≠ 2 := by decide
  exact ⟨_, List.mem_cons_self, _, List.mem_cons_self, rfl, hne⟩

end Actionbook
