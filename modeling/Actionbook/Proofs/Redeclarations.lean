import Actionbook.Proofs.Partition
import Actionbook.Proofs.Publishing
import Actionbook.Proofs.Settling

/-!
# Names that are declared again

Several action words may have one name. Whatever knows them by their names knows the first one that is declared:
the index by which calls are bound, sentences that become calls among them, the signatures that are exported, and
the nodes of a difference.

* `ensures_exportFrom_told`: the export warns of each action word whose name an earlier one has.
* `Graph.ensures_exportSignatures_oneEach`: what is exported comes from the first action words.
* `Graph.yields_diff_oneEach`: so do the nodes of a difference.
* `Graph.Enriched.knowsFirst`, `first_declarations_count`: all of it, after a run.
-/

namespace Actionbook

open Work (Ensures)
open Publisher (Yields)

variable {g g' m : Graph} {h : Handle} {r : Report} {options : ExportOptions} {name : String}
  {words : List (Handle × ActionWord)}

/-! ## What is told -/

/-- The warnings about action words whose name an earlier one has. -/
def redeclarations (words : List (Handle × ActionWord)) : List Warning :=
  inTurn (fun earlier w => if w.2.name ∈ earlier.map (·.2.name) then
    some ⟨.duplicateActionWord w.2.name, some w.1⟩ else none) words

theorem redeclarations_append_singleton (words : List (Handle × ActionWord)) (w : Handle × ActionWord) :
    redeclarations (words ++ [w]) = redeclarations words ++ if w.2.name ∈ words.map (·.2.name) then
      [⟨.duplicateActionWord w.2.name, some w.1⟩] else [] := by
  rw [redeclarations, inTurn_append_singleton, ← redeclarations]
  split <;> rfl

/-- **The export warns of names that are declared again**, and of nothing else. Some action words are `done`, and
signatures are known under their names. -/
theorem ensures_exportFrom_told {done : List (Handle × ActionWord)} {known : Signatures}
    {sig : Handle × ActionWord → Signature}
    (hknown : ∀ name, name ∈ known.map (·.1) ↔ name ∈ done.map (·.2.name))
    (h : ∀ w ∈ words, g.signatureOf options w.1 w.2 = .ok (sig w)) :
    Ensures (exportFrom options words known) ⟨g, r.warnAll (redeclarations done)⟩ fun _ t =>
      t = ⟨g, r.warnAll (redeclarations (done ++ words))⟩ := by
  induction words generalizing done known with
  | nil => exact Work.ensures_pure.2 (by rw [List.append_nil])
  | cons w words ih =>
    have hrest : ∀ w' ∈ words, g.signatureOf options w'.1 w'.2 = .ok (sig w') := fun w' hw' =>
      h w' (List.mem_cons_of_mem _ hw')
    have hdone := redeclarations_append_singleton done w
    unfold exportFrom
    rw [List.append_cons]
    by_cases hin : (known.lookup w.2.name).isSome = true
    · have hagain : w.2.name ∈ done.map (·.2.name) := (hknown _).1 (mem_names.2 hin)
      simp only [hin, if_true, Work.ensures_bind, Work.ensures_warn]
      rw [if_pos hagain] at hdone
      rw [← Report.warnAll_append_singleton, ← hdone]
      refine ih (fun name => ?_) hrest
      rw [hknown, List.map_append, List.mem_append, List.map_singleton, List.mem_singleton]
      exact ⟨.inl, Or.rec id fun hname => hname ▸ hagain⟩
    · have hnew : w.2.name ∉ done.map (·.2.name) := fun hm => hin (mem_names.1 ((hknown _).2 hm))
      simp only [hin, if_false, Work.ensures_bind, Work.ensures_read, Bool.false_eq_true]
      rw [if_neg hnew, List.append_nil] at hdone
      rw [← hdone]
      refine ⟨sig w, h w List.mem_cons_self, ih (fun name => ?_) hrest⟩
      rw [List.map_append, List.map_append, List.mem_append, List.mem_append, hknown, List.map_singleton,
        List.map_singleton]

/-! ## What is exported -/

/-- Signatures in the order of their names, one for each of some names, with the nodes that the names have. -/
structure Signatures.OneEach (names : List String) (node : String → Option Handle) (s : Signatures) : Prop where
  sorted : (s.map (·.1)).Pairwise (· < ·)
  names : ∀ name, name ∈ s.map (·.1) ↔ name ∈ names
  node : ∀ e ∈ s, e.2.name = e.1 ∧ ∃ h, node e.1 = some h ∧ e.2.node = some h

namespace Graph

theorem lookup_entries (g : Graph) (options : ExportOptions) (name : String) :
    (g.entries options).lookup name = (g.words.find? (·.2.name == name)).map fun w =>
      g.signature options w.1 w.2.toDefinition :=
  lookup_map (fun w : Handle × ActionWord => w.2.name) _ g.words name

theorem Sound.signature_name_node (hs : g.Sound) (hattach : options.attachNodes = true)
    {w : Handle × ActionWord} (hw : w ∈ g.words) :
    (g.signature options w.1 w.2.toDefinition).name = w.2.name ∧
      (g.signature options w.1 w.2.toDefinition).node = some w.1 := by
  obtain ⟨d, hd⟩ := hs.exists_written (definition?_of_actionWord? (mem_words hw))
  rw [signature_eq options w.1 hd, (written?_eq_some.1 hd).2]
  exact ⟨rfl, if_pos hattach⟩

/-- What is collected of a graph has the nodes of the first action words. -/
theorem Sound.oneEach_entries (hs : g.Sound) (hattach : options.attachNodes = true) :
    (Signatures.collect (g.entries options) []).sorted.OneEach (g.words.map (·.2.name)) g.target? := by
  set signatures := (Signatures.collect (g.entries options) []).sorted with hsignatures
  have hnodup : (signatures.map (·.1)).Nodup :=
    ((Signatures.sorted_perm _).map _).nodup_iff.2 (Signatures.nodup_collect _ List.nodup_nil)
  have hlookup (name : String) :=
    (Signatures.lookup_sorted_collect (g.entries options) name).trans (g.lookup_entries options name)
  rw [← hsignatures] at hlookup
  refine ⟨?sorted, fun name => ?names, fun e he => ?node⟩
  case sorted =>
    have hle : (signatures.map (·.1)).Pairwise (· ≤ ·) :=
      List.pairwise_map.2 ((Signatures.sorted_sorted _).imp textLe_iff.1)
    exact (hle.and hnodup).imp fun h =>
      String.not_le.1 fun hge => h.2 (String.le_antisymm h.1 hge)
  case names =>
    rw [mem_names, hlookup, Option.isSome_map, List.find?_isSome, List.mem_map]
    simp only [beq_iff_eq]
  case node =>
    obtain ⟨w, hw, hsig⟩ := Option.map_eq_some_iff.1 ((hlookup e.1).symm.trans (lookup_of_nodup hnodup he))
    obtain ⟨hname, hnode⟩ := hs.signature_name_node hattach (List.mem_of_find?_eq_some hw)
    rw [← hsig]
    exact ⟨hname.trans (by simpa using List.find?_some hw), w.1, by rw [target?, hw, Option.map_some], hnode⟩

/-- **What is exported with nodes**, and what is told. -/
theorem ensures_exportSignatures_oneEach (hs : g.Sound) (ht : g.Told) (hattach : options.attachNodes = true) :
    Ensures (exportSignatures options) ⟨g, r⟩ fun signatures t =>
      signatures.OneEach (g.words.map (·.2.name)) g.target? ∧
        t = ⟨g, r.warnAll (redeclarations g.words)⟩ := by
  refine Work.Ensures.and ((ensures_exportSignatures hs ht options).mono ?signatures) ?told
  case signatures =>
    rintro _ - rfl
    exact hs.oneEach_entries hattach
  case told =>
    simp only [exportSignatures, Work.ensures_bind, Work.ensures_read, Work.ensures_pure]
    have hnone : ∀ name, name ∈ ([] : Signatures).map (·.1) ↔
        name ∈ ([] : List (Handle × ActionWord)).map (·.2.name) := fun _ => Iff.rfl
    exact ⟨g.words, hs.actionWords_ok, ensures_exportFrom_told hnone (signatureOf_words hs ht options)⟩

/-! ## All of it -/

/-- Wherever action words are known by their names, it is the first one of a name. -/
structure KnowsFirst (g : Graph) (words : List (Handle × ActionWord)) (index : List (String × Handle)) :
    Prop where
  indexed : ∀ name, index.lookup name = (words.find? (·.2.name == name)).map (·.1)
  /-- Signatures with nodes have the nodes of the index, and each other action word is told. -/
  exported : ∀ options, options.attachNodes = true → ∀ r,
    Ensures (exportSignatures options) ⟨g, r⟩ fun signatures t =>
      signatures.OneEach (words.map (·.2.name)) (index.lookup ·) ∧
        t = ⟨g, r.warnAll (redeclarations words)⟩
  /-- Calls that are resolved have the targets of the index. -/
  called : ∀ h c, g.call h = .ok c → c.resolved = some true →
    ∃ t, index.lookup c.actionWord = some t ∧ c.target = some t
  /-- Whatever has been created, renamed or changed since a snapshot has the node of the index. -/
  compared : ∀ (f : Snapshot.Format) (p : Publisher) previous old rule, f.load previous = .ok old →
    Config.renameMatch p.config = .ok rule →
    Yields (Publisher.diff previous g f) p fun d _ => ∀ e ∈ d.created ++ d.renamed ++ d.changed,
      ∃ h, index.lookup (e.newName.getD e.name) = some h ∧ e.node = some h

/-- The nodes of a difference are those of the signatures that it compares. -/
theorem yields_diff_oneEach {f : Snapshot.Format} {p : Publisher} {previous : String} {old : Signatures}
    {rule : RenameMatch} {names : List String} {node : String → Option Handle}
    (hread : f.load previous = .ok old)
    (hrule : Config.renameMatch p.config = .ok rule)
    (hexported : Ensures (exportSignatures { attachNodes := true }) ⟨g, p.report⟩ fun signatures _ =>
      signatures.OneEach names node) :
    Yields (Publisher.diff previous g f) p fun d _ => ∀ e ∈ d.created ++ d.renamed ++ d.changed,
      ∃ h, node (e.newName.getD e.name) = some h ∧ e.node = some h := by
  simp only [Publisher.yields_diff_iff, Publisher.signatures, Publisher.yields_bind,
    Publisher.yields_workOn_iff, Publisher.yields_pure]
  refine ⟨old, hread, hexported.mono fun signatures t hone => ⟨rule, hrule, fun e he => ?_⟩⟩
  have hnew : ∃ s, signatures.lookup (e.newName.getD e.name) = some s ∧ e.node = s.node := by
    rcases List.mem_append.1 he with he | he
    · rcases List.mem_append.1 he with he | he
      · exact (fits_of_mem_group (c := .created) he).node_eq (by decide)
      · exact (fits_of_mem_group (c := .renamed) he).node_eq (by decide)
    · exact (fits_of_mem_group (c := .signatureChanged) he).node_eq (by decide)
  obtain ⟨s, hs, hnode⟩ := hnew
  obtain ⟨-, h, hh, hsh⟩ := hone.node _ (mem_of_lookup hs)
  exact ⟨h, hh, hnode.trans hsh⟩

/-- **The first action word of a name counts** after a run on whatever graph. -/
theorem Enriched.knowsFirst (he : g.Enriched m g') (ht : g'.Told) : ∃ index, g'.actionWordIndex = .ok index ∧
    g'.KnowsFirst g'.words index := by
  have hs := he.after.sound
  obtain ⟨index, hindex, hlookup⟩ := hs.actionWordIndex_ok
  have hexported : ∀ options : ExportOptions, options.attachNodes = true → ∀ r,
      Ensures (exportSignatures options) ⟨g', r⟩ fun signatures t =>
        signatures.OneEach (g'.words.map (·.2.name)) (index.lookup ·) ∧
          t = ⟨g', r.warnAll (redeclarations g'.words)⟩ := by
    rw [funext hlookup]
    exact fun options hattach r => ensures_exportSignatures_oneEach hs ht hattach
  refine ⟨index, hindex, hlookup, hexported, fun h c hc hresolved => ?called,
    fun f p previous old rule hread hrule => ?compared⟩
  case called =>
    have hfinished := he.finished (state?_call (content?_of_call hc))
    unfold CallState.Finished at hfinished
    rw [hlookup]
    split at hfinished
    · rename_i t ht
      exact ⟨t, ht, hfinished.target⟩
    · rw [hfinished.resolved] at hresolved
      cases hresolved
  case compared =>
    exact yields_diff_oneEach hread hrule ((hexported _ rfl _).mono fun _ _ hone => hone.1)

end Graph

/-- **The first declaration of a name counts** everywhere after a run over a graph that is read. -/
theorem first_declarations_count {text : String} {strict : Bool} {g : Graph}
    (hg : Design.readGraph text strict = .ok g) (r : Report) :
    Ensures enrich ⟨g, r⟩ fun _ s => ∃ design words index, Design.ofText text = .ok design ∧
      s.graph.actionWords = .ok words ∧ words.map (·.2.name) = design.declared ∧
      s.graph.actionWordIndex = .ok index ∧ s.graph.KnowsFirst words index := by
  obtain ⟨design, hdesign, rfl⟩ := Design.exists_of_readGraph hg
  refine (Graph.ensures_enrich design.graph_sound).mono ?_
  rintro - ⟨g', r'⟩ ⟨m, he⟩
  obtain ⟨index, hindex, hfirst⟩ := he.knowsFirst (Design.told he)
  refine ⟨design, g'.words, index, hdesign, he.after.sound.actionWords_ok, ?_, hindex, hfirst⟩
  have hwords := congrArg (List.map fun w => w.2.name) (Graph.words_congr he.follows.root he.follows.fixed)
  rw [List.map_map, List.map_map] at hwords
  exact hwords.trans design.names_words

namespace Design

/-- A document with two action words of one name, which is called and spoken of. -/
abbrev redeclaringText : String := "<project><name>p</name><scenarios><scenario><name>s</name><steps>
    <call><actionword>w</actionword></call>
    <action><key>given</key><value><stringliteral>w</stringliteral></value></action>
  </steps></scenario></scenarios><actionwords>
  <actionword><name>w</name></actionword>
  <actionword><name>v</name></actionword>
  <actionword><name>w</name></actionword></actionwords></project>"

/-- The design that it describes. -/
def redeclaring : Design where
  name := "p"
  description := ""
  scenarios := [{
    name := "s", uid := none, description := "", tags := [], parameters := [], rows := []
    steps := [.call "w" none [], .plain "given" (.string "w")] }]
  actionWords := ["w", "v", "w"].map fun name => {
    name, uid := none, description := "", tags := [], parameters := [], steps := [] }

set_option maxRecDepth 4000 in
theorem ofText_redeclaring : ofText redeclaringText = .ok redeclaring :=
  ofText_eq_ok (by decide +kernel)

theorem readGraph_redeclaring : readGraph redeclaringText true = .ok redeclaring.graph :=
  readGraph_eq_ok.2 ⟨_, ofText_redeclaring, fun _ => by decide, rfl⟩

end Design

/-- Of the two action words with one name, the call, the sentence and the difference from an empty snapshot know the
first one; the other one is told. -/
theorem redeclared_word_is_known_once :
    Design.readGraph Design.redeclaringText true = .ok Design.redeclaring.graph ∧
    (Ensures enrich ⟨Design.redeclaring.graph, {}⟩ fun _ s => ∃ design words index,
      Design.ofText Design.redeclaringText = .ok design ∧ s.graph.actionWords = .ok words ∧
        words.map (·.2.name) = design.declared ∧ s.graph.actionWordIndex = .ok index ∧
        s.graph.KnowsFirst words index) ∧
    Ensures enrich ⟨Design.redeclaring.graph, {}⟩ fun _ s =>
      (decide ([2, 3].map (fun h => (s.graph.call h).toOption.bind (·.target)) = [some 4, some 4]) &&
        Publisher.finds (Publisher.diff "" s.graph) { config := .mapping [], language := "python" } fun d q =>
          decide (d.created.map (fun e => (e.name, e.node)) = [("v", some 5), ("w", some 4)] ∧
            q.report.warnings.map (fun w => (w.concern.code, w.node)) = [("DUPLICATE_ACTIONWORD", some 6)])) = true :=
  ⟨Design.readGraph_redeclaring, first_declarations_count Design.readGraph_redeclaring {},
    Work.ensures_of_check (by decide +kernel)⟩

end Actionbook
