import Actionbook.Proofs.Stubs
import Mathlib.Data.List.Induction

/-!
# The first rendering for a file is kept

Groups of outputs offer renderings one after the other. What is kept of them and what is told can be said without
the loop that goes through them: a rendering is kept if none before it has its file (`Rendering.firsts`), and
told of if the first one that has its file is about another node (`Rendering.collisions`).

* `keep_firsts`: one step. What has been kept so far is as good as all that has been offered so far when it comes
  to finding the first rendering for a file (`Rendering.find?_firsts`).
* `selectRenderings_firsts`: the whole run, from it.
* `first_renderings_are_kept`, `left_out_renderings_are_told`: what follows for the files.
-/

namespace Actionbook

variable {g : Graph} {host : Form.Host} {group : OutputGroup} {groups : List OutputGroup} {h : Handle}
  {a b f r : Rendering}
  {l : List Rendering} {report : Report}

/-! ## Renderings in turn -/

namespace Rendering

theorem sameFile_comm (a b : Rendering) : a.sameFile b = b.sameFile a :=
  Bool.eq_iff_iff.2 ⟨sameFile_symm, sameFile_symm⟩

/-- The renderings before which there is none with the same file. -/
def firsts (l : List Rendering) : List Rendering :=
  inTurn (fun earlier r => if earlier.any (·.sameFile r) then none else some r) l

/-- The warnings about the renderings whose file is that of another node. -/
def collisions (l : List Rendering) : List Warning :=
  inTurn (fun earlier r => (earlier.find? (·.sameFile r)).bind fun f =>
    if f.node = r.node then none else some r.collision) l

theorem firsts_append_singleton (l : List Rendering) (r : Rendering) :
    firsts (l ++ [r]) = firsts l ++ if l.any (·.sameFile r) then [] else [r] := by
  rw [firsts, inTurn_append_singleton, ← firsts]
  split <;> rfl

theorem collisions_append_singleton (l : List Rendering) (r : Rendering) :
    collisions (l ++ [r]) = collisions l ++ ((l.find? (·.sameFile r)).bind fun f =>
      if f.node = r.node then none else some r.collision).toList := by
  rw [collisions, inTurn_append_singleton, ← collisions]

theorem firsts_subset (l : List Rendering) : firsts l ⊆ l := by
  intro f hf
  obtain ⟨⟨r, i⟩, hr, hf⟩ := List.mem_filterMap.1 hf
  dsimp only at hf
  split at hf
  · cases hf
  · cases hf
    exact List.fst_mem_of_mem_zipIdx hr

/-- What has been kept will do to find the first rendering for a file. -/
theorem find?_firsts (l : List Rendering) (r : Rendering) :
    (firsts l).find? (·.sameFile r) = l.find? (·.sameFile r) := by
  induction l using List.reverseRecOn with
  | nil => rfl
  | append_singleton l a ih =>
    rw [firsts_append_singleton, List.find?_append, List.find?_append, ih]
    cases hfind : l.find? (·.sameFile r) with
    | some f => rfl
    | none =>
      split
      · -- a rendering with the file of `r` would be the second one
        rename_i hany
        obtain ⟨f, hf, hfa⟩ := List.any_eq_true.1 hany
        have hfr := List.find?_eq_none.1 hfind f hf
        have har : a.sameFile r = false := by
          rw [Bool.eq_false_iff]
          exact fun har => hfr (sameFile_trans hfa har)
        simp [har]
      · rfl

/-- No two of the renderings that are kept have one file. -/
theorem pairwise_firsts (l : List Rendering) : (firsts l).Pairwise fun a b => ¬ a.sameFile b = true := by
  induction l using List.reverseRecOn with
  | nil => exact .nil
  | append_singleton l r ih =>
    rw [firsts_append_singleton]
    split
    · rwa [List.append_nil]
    · rename_i hnone
      refine List.pairwise_append.2 ⟨ih, List.pairwise_singleton _ _, fun f hf b hb hfb => hnone ?_⟩
      rw [List.mem_singleton.1 hb] at hfb
      exact List.any_eq_true.2 ⟨f, firsts_subset l hf, hfb⟩

/-- Every file has a rendering that is kept. -/
theorem exists_firsts (hr : r ∈ l) (hid : r.isIdentified = true) : ∃ f ∈ firsts l, f.sameFile r = true := by
  have hsome : (l.find? (·.sameFile r)).isSome = true :=
    List.find?_isSome.2 ⟨r, hr, sameFile_self hid⟩
  rw [← find?_firsts] at hsome
  exact List.find?_isSome.1 hsome

end Rendering

open Rendering (firsts collisions)

/-! ## The run -/

/-- **One step**: a rendering is offered after others. -/
theorem keep_firsts (hid : r.isIdentified = true) (start : Report) :
    (keep (firsts l) r).run.run (start.warnAll (collisions l)) =
      (.ok (firsts (l ++ [r])), start.warnAll (collisions (l ++ [r]))) := by
  have hfind : (firsts l).find? r.sameFile = l.find? (·.sameFile r) := by
    rw [← Rendering.find?_firsts]
    exact congrArg (List.find? · _) (funext fun f => Rendering.sameFile_comm r f)
  have hany : l.any (·.sameFile r) = (l.find? (·.sameFile r)).isSome := by
    rw [Bool.eq_iff_iff, List.any_eq_true, List.find?_isSome]
  rw [Rendering.firsts_append_singleton, Rendering.collisions_append_singleton, hany]
  unfold keep
  rw [hid, hfind]
  cases l.find? (·.sameFile r) with
  | none =>
    rw [Option.isSome_none, if_neg Bool.false_ne_true, Option.bind_none, Option.toList_none, List.append_nil]
    rfl
  | some f =>
    rw [Option.isSome_some, if_pos rfl, List.append_nil, Option.bind_some]
    by_cases hnode : f.node = r.node
    · simp only [hnode, ne_eq, not_true_eq_false, if_false, if_true, Option.toList_none, List.append_nil]
      rfl
    · simp only [hnode, ne_eq, not_false_eq_true, if_false, if_true, Option.toList_some,
        Report.warnAll_append_singleton]
      rfl

/-- **The renderings of a group** are offered after others. -/
theorem keepAll_firsts {handles : List Handle} {offered : List Rendering}
    (hoffered : handles.mapM (g.rendering group · host) = .ok offered)
    (hid : ∀ r ∈ offered, r.isIdentified = true) (start : Report) :
    (keepAll g group host (firsts l) handles).run.run (start.warnAll (collisions l)) =
      (.ok (firsts (l ++ offered)), start.warnAll (collisions (l ++ offered))) := by
  induction handles generalizing l offered with
  | nil =>
    rw [List.mapM_nil] at hoffered
    cases hoffered
    rw [List.append_nil]
    rfl
  | cons h handles ih =>
    rw [List.mapM_cons] at hoffered
    obtain ⟨r, hr, hoffered⟩ := bind_eq_ok.1 hoffered
    obtain ⟨rest, hrest, hoffered⟩ := bind_eq_ok.1 hoffered
    cases hoffered
    unfold keepAll
    rw [hr, List.append_cons]
    exact run_bind_eq_ok.2 ⟨_, _, keep_firsts (hid r List.mem_cons_self) start,
      ih hrest fun a ha => hid a (List.mem_cons_of_mem _ ha)⟩

theorem keepGroups_firsts {offered : List (List Rendering)} (hoffered : groups.mapM (g.offered host) = .ok offered)
    (hid : ∀ r ∈ offered.flatten, r.isIdentified = true) (start : Report) :
    (keepGroups g host (firsts l) groups).run.run (start.warnAll (collisions l)) =
      (.ok (firsts (l ++ offered.flatten)), start.warnAll (collisions (l ++ offered.flatten))) := by
  induction groups generalizing l offered with
  | nil =>
    rw [List.mapM_nil] at hoffered
    cases hoffered
    rw [List.flatten_nil, List.append_nil]
    rfl
  | cons group groups ih =>
    rw [List.mapM_cons] at hoffered
    obtain ⟨own, hown, hoffered⟩ := bind_eq_ok.1 hoffered
    obtain ⟨rest, hrest, hoffered⟩ := bind_eq_ok.1 hoffered
    cases hoffered
    unfold Graph.offered at hown
    unfold keepGroups
    cases ht : g.targets group with
    | error e =>
      rw [ht] at hown
      cases hown
    | ok handles =>
      simp only [ht] at hown
      rw [List.flatten_cons, ← List.append_assoc]
      refine run_bind_eq_ok.2 ⟨_, _, keepAll_firsts hown (fun r hr => hid r ?_) start,
        ih hrest fun r hr => hid r ?_⟩
      · exact List.mem_flatten_of_mem List.mem_cons_self hr
      · exact List.mem_append_right _ hr

/-- **The whole run.** -/
theorem selectRenderings_firsts {offered : List (List Rendering)}
    (hoffered : groups.mapM (g.offered host) = .ok offered)
    (hid : ∀ r ∈ offered.flatten, r.isIdentified = true) (start : Report) :
    (selectRenderings g groups host).run.run start =
      (.ok (firsts offered.flatten), start.warnAll (collisions offered.flatten)) :=
  keepGroups_firsts (l := []) hoffered hid start

/-! ## Files -/

/-- Settings of a group that are texts, as far as places of files are made of them. -/
structure OutputGroup.Textual (group : OutputGroup) : Prop where
  language : ∃ s, group.language = .text s
  files : ∃ s, group.files = .whole (.text s) ∨ group.files = .each (.text s)

/-- A rendering whose file is known by the texts of its language and path. -/
structure Rendering.Textual (r : Rendering) : Prop where
  language : ∃ s, r.language = .text s
  path : ∃ s, r.path = .text s

namespace Data

theorem sameKey_text (s t : String) : (Data.text s).sameKey (.text t) = true ↔ s = t := by
  simp [sameKey, key?]

end Data

namespace Rendering.Textual

theorem isIdentified (hr : r.Textual) : r.isIdentified = true := by
  obtain ⟨⟨s, hs⟩, t, ht⟩ := hr
  rw [Rendering.isIdentified, hs, ht]
  rfl

theorem sameFile_iff (ha : a.Textual) (hb : b.Textual) :
    a.sameFile b = true ↔ a.language = b.language ∧ a.path = b.path := by
  obtain ⟨⟨s, hs⟩, t, ht⟩ := ha
  obtain ⟨⟨s', hs'⟩, t', ht'⟩ := hb
  rw [Rendering.sameFile_iff, hs, ht, hs', ht', Data.sameKey_text, Data.sameKey_text, Data.text.injEq,
    Data.text.injEq]

end Rendering.Textual

namespace OutputGroup.Textual

variable {name : String} {path : Data}

theorem filenameFor (hg : group.Textual) (h : group.filenameFor name host = .ok path) : ∃ s, path = .text s := by
  obtain ⟨s, hs | hs⟩ := hg.files
  · simp only [OutputGroup.filenameFor, hs] at h
    cases h
    split
    · exact ⟨s, rfl⟩
    · exact ⟨"", rfl⟩
  · simp only [OutputGroup.filenameFor, hs] at h
    split at h
    · cases h
      exact ⟨_, rfl⟩
    · cases h

theorem pathFor (hg : group.Textual) (h : group.pathFor name host = .ok path) : ∃ s, path = .text s := by
  obtain ⟨filename, hfilename, h⟩ := bind_eq_ok.1 h
  obtain ⟨s, rfl⟩ := hg.filenameFor hfilename
  split at h
  · unfold joinData at h
    split at h
    · cases h
      exact ⟨_, rfl⟩
    · rename_i heq
      cases heq
    · cases h
  · cases h
    exact ⟨s, rfl⟩

end OutputGroup.Textual

namespace Graph

/-- A rendering is about the node, and for the language and the category of the group. -/
theorem of_rendering (hr : g.rendering group h host = .ok r) : ∃ s name, g.subject h = .ok s ∧
    group.pathFor name host = .ok r.path ∧ r.node = h ∧ r.language = group.language := by
  unfold rendering at hr
  cases hs : g.subject h with
  | error e =>
    rw [hs] at hr
    cases hr
  | ok s =>
    rw [hs] at hr
    obtain ⟨path, hpath, hr⟩ := bind_eq_ok.1 hr
    cases hr
    exact ⟨s, _, rfl, hpath, rfl, rfl⟩

theorem textual_rendering (hg : group.Textual) (hr : g.rendering group h host = .ok r) : r.Textual := by
  obtain ⟨s, name, -, hpath, -, hlanguage⟩ := of_rendering hr
  exact ⟨hlanguage ▸ hg.language, hg.pathFor hpath⟩

/-- The renderings of a node for two groups that say the same differ in their paths only. -/
theorem rendering_congr {other : OutputGroup} (hr : g.rendering group h host = .ok r)
    (hf : g.rendering other h host = .ok f) (hlanguage : other.language = group.language)
    (hcategory : other.category = group.category) (hnaming : other.naming = group.naming)
    (hsettings : other.settings = group.settings) (hpath : f.path = r.path) : f = r := by
  unfold rendering at hr hf
  cases hs : g.subject h with
  | error e =>
    rw [hs] at hr
    cases hr
  | ok s =>
    rw [hs] at hr hf
    obtain ⟨path, -, hr⟩ := bind_eq_ok.1 hr
    obtain ⟨path', -, hf⟩ := bind_eq_ok.1 hf
    cases hr
    cases hf
    cases hpath
    simp only [hlanguage, hcategory, hnaming, hsettings]

/-- What is offered is the rendering of a node that a group has files for. -/
theorem mem_offered {offered : List (List Rendering)} (hoffered : groups.mapM (g.offered host) = .ok offered) :
    r ∈ offered.flatten ↔ ∃ group ∈ groups, ∃ handles, g.targets group = .ok handles ∧
      ∃ h ∈ handles, g.rendering group h host = .ok r := by
  constructor
  · intro hr
    obtain ⟨own, hown, hr⟩ := List.mem_flatten.1 hr
    obtain ⟨group, hgroup, hg⟩ := exists_of_mapM_ok hoffered hown
    unfold Graph.offered at hg
    cases ht : g.targets group with
    | error e =>
      rw [ht] at hg
      cases hg
    | ok handles =>
      simp only [ht] at hg
      obtain ⟨h, hh, hrh⟩ := exists_of_mapM_ok hg hr
      exact ⟨group, hgroup, handles, ht, h, hh, hrh⟩
  · rintro ⟨group, hgroup, handles, ht, h, hh, hrh⟩
    obtain ⟨own, hown, hg⟩ := mem_of_mapM_ok hoffered hgroup
    simp only [Graph.offered, ht] at hg
    obtain ⟨r', hr', hrh'⟩ := mem_of_mapM_ok hg hh
    cases hrh.symm.trans hrh'
    exact List.mem_flatten_of_mem hown hr'

/-- Groups whose settings are texts offer renderings that are known by texts. -/
theorem textual_of_mem_offered {offered : List (List Rendering)}
    (hoffered : groups.mapM (g.offered host) = .ok offered) (htexts : ∀ group ∈ groups, group.Textual) :
    ∀ r ∈ offered.flatten, r.Textual := by
  intro r hr
  obtain ⟨group, hgroup, handles, -, h, -, hrh⟩ := (mem_offered hoffered).1 hr
  exact textual_rendering (htexts group hgroup) hrh

end Graph

/-- **The first rendering for a file is kept**, and nothing else, in the order in which the renderings are offered;
each later one whose file is that of another node is told, in this order. This is so if the files of all renderings
can be identified, as they can if the settings of all groups are texts; otherwise nothing is chosen. -/
theorem first_renderings_are_kept {offered : List (List Rendering)}
    (hoffered : groups.mapM (g.offered host) = .ok offered) (start : Report) :
    ((∀ group ∈ groups, group.Textual) → ∀ a ∈ offered.flatten, a.isIdentified = true ∧
        ∀ b ∈ offered.flatten, a.sameFile b = true ↔ a.language = b.language ∧ a.path = b.path) ∧
      ((∃ chosen report, (selectRenderings g groups host).run.run start = (.ok chosen, report)) ↔
        ∀ r ∈ offered.flatten, r.isIdentified = true) ∧
      ((∀ r ∈ offered.flatten, r.isIdentified = true) →
        (selectRenderings g groups host).run.run start =
          (.ok (firsts offered.flatten), start.warnAll (collisions offered.flatten)) ∧
        (firsts offered.flatten).Pairwise (fun a b => ¬ a.sameFile b = true) ∧
        ∀ r ∈ offered.flatten, ∃ f ∈ firsts offered.flatten, f.sameFile r = true) := by
  refine ⟨fun htexts a ha => ?texts, ⟨?identified, fun hid => ?chosen⟩, fun hid => ?run⟩
  case texts =>
    have htextual := Graph.textual_of_mem_offered hoffered htexts
    exact ⟨(htextual a ha).isIdentified, fun b hb => (htextual a ha).sameFile_iff (htextual b hb)⟩
  case identified =>
    rintro ⟨chosen, report, hrun⟩
    obtain ⟨offered', hoffered', hchosen⟩ := chosen_of_selectRenderings hrun
    cases hoffered.symm.trans hoffered'
    exact hchosen.identified
  case chosen => exact ⟨_, _, selectRenderings_firsts hoffered hid start⟩
  case run =>
    exact ⟨selectRenderings_firsts hoffered hid start, Rendering.pairwise_firsts _,
      fun r hr => Rendering.exists_firsts hr (hid r hr)⟩

theorem Design.clashes_clash : clash.graph.Clashes := by decide +kernel

namespace Graph.Clashes

/-- What the stubs offer for the two words. -/
theorem offered (hg : g.Clashes) (ha : g.rendering stubGroup 1 = .ok a)
    (hb : g.rendering stubGroup 2 = .ok b) : g.offered {} stubGroup = .ok [a, b] := by
  simp only [Graph.offered, hg.targets, List.mapM_cons, List.mapM_nil, ha, hb]
  rfl

end Graph.Clashes

theorem textual_stubGroup : stubGroup.Textual := ⟨⟨_, rfl⟩, _, .inr rfl⟩

/-- Of stubs that are asked for twice, that of the word that is declared first is kept; the other one is told
each time. -/
theorem first_stubs_of_clash_are_kept : ∃ settings description,
    (selectRenderings Design.clash.graph [stubGroup, stubGroup]).run.run {} =
      (.ok [clashingStub 1 settings description], ({} : Report).warnAll
        [⟨.outputCollision (.text "do_it.py") (.text "python"), some 2⟩,
          ⟨.outputCollision (.text "do_it.py") (.text "python"), some 2⟩]) := by
  have hclash := Design.clashes_clash
  obtain ⟨settings, description, settings', description', hr, hr'⟩ := hclash.renderings
  have hoffered : [stubGroup, stubGroup].mapM (Design.clash.graph.offered {}) = .ok
      [[clashingStub 1 settings description, clashingStub 2 settings' description'],
        [clashingStub 1 settings description, clashingStub 2 settings' description']] := by
    simp only [List.mapM_cons, List.mapM_nil, hclash.offered hr hr']
    rfl
  have htexts : ∀ group ∈ [stubGroup, stubGroup], group.Textual :=
    List.forall_mem_cons.2 ⟨textual_stubGroup, List.forall_mem_singleton.2 textual_stubGroup⟩
  obtain ⟨hidentified, -, hrun⟩ := first_renderings_are_kept hoffered {}
  exact ⟨settings, description, (hrun fun r hr => (hidentified htexts r hr).1).1⟩

/-! ## What is left out -/

/-- **What is left out is told or the same.** For each rendering that is offered, the one that is kept for its
file is about another node, which is told, or about the same node; then it is the same rendering if the groups of
both agree in category, naming and further settings. -/
theorem left_out_renderings_are_told {offered : List (List Rendering)}
    (htexts : ∀ group ∈ groups, group.Textual) (hoffered : groups.mapM (g.offered host) = .ok offered)
    (start : Report) : ∃ chosen report,
      (selectRenderings g groups host).run.run start = (.ok chosen, report) ∧
      ∀ group ∈ groups, ∀ handles, g.targets group = .ok handles → ∀ h ∈ handles,
        ∀ r, g.rendering group h host = .ok r →
          ∃ kept ∈ chosen, kept.language = r.language ∧ kept.path = r.path ∧
            (∃ other ∈ groups, g.rendering other kept.node host = .ok kept) ∧
            (kept.node ≠ r.node ∧ r.collision ∈ report.since start.mark ∨
              kept.node = r.node ∧ ∀ other, g.rendering other kept.node host = .ok kept →
                other.category = group.category → other.naming = group.naming →
                other.settings = group.settings → kept = r) := by
  have htextual := Graph.textual_of_mem_offered hoffered htexts
  have hrun := selectRenderings_firsts hoffered (fun r hr => (htextual r hr).isIdentified) start
  obtain ⟨offered', hoffered', hchosen⟩ := chosen_of_selectRenderings hrun
  cases hoffered.symm.trans hoffered'
  refine ⟨_, _, hrun, fun group hgroup handles ht h hh r hr => ?_⟩
  have hmem : r ∈ offered.flatten := (Graph.mem_offered hoffered).2 ⟨group, hgroup, handles, ht, h, hh, hr⟩
  obtain ⟨kept, hkept, hsame, -, htold⟩ := hchosen.exists_full hmem
  have hoffer := Rendering.firsts_subset _ hkept
  obtain ⟨hlanguage, hpath⟩ := ((htextual kept hoffer).sameFile_iff (htextual r hmem)).1 hsame
  obtain ⟨-, -, -, -, hnode, hgroupLanguage⟩ := Graph.of_rendering hr
  refine ⟨kept, hkept, hlanguage, hpath, ?offer, ?told⟩
  case offer =>
    obtain ⟨other, hother, -, -, k, -, hk⟩ := (Graph.mem_offered hoffered).1 hoffer
    obtain ⟨-, -, -, -, hnode', -⟩ := Graph.of_rendering hk
    exact ⟨other, hother, hnode' ▸ hk⟩
  case told =>
    by_cases hne : kept.node = r.node
    · refine .inr ⟨hne, fun other hk hcategory hnaming hsettings => ?_⟩
      obtain ⟨-, -, -, -, -, hotherLanguage⟩ := Graph.of_rendering hk
      rw [hne, hnode] at hk
      exact Graph.rendering_congr hr hk (by rw [← hotherLanguage, hlanguage, hgroupLanguage]) hcategory
        hnaming hsettings hpath
    · exact .inl ⟨hne, not_not.1 fun hnot => hne (htold.2 hnot)⟩

/-- The second stub goes to the file of the first one, and this is told. -/
theorem left_out_stub_of_clash_is_told : ∃ chosen report,
    (selectRenderings Design.clash.graph [stubGroup]).run.run {} = (.ok chosen, report) ∧
      ∃ r, Design.clash.graph.rendering stubGroup 2 = .ok r ∧ ∃ kept ∈ chosen, kept.path = r.path ∧
        kept.node ≠ r.node ∧ r.collision ∈ report.since 0 := by
  have hclash := Design.clashes_clash
  obtain ⟨settings, description, settings', description', hr, hr'⟩ := hclash.renderings
  have hoffered : [stubGroup].mapM (Design.clash.graph.offered {}) = .ok
      [[clashingStub 1 settings description, clashingStub 2 settings' description']] := by
    simp only [List.mapM_cons, List.mapM_nil, hclash.offered hr hr']
    rfl
  have htexts : ∀ group ∈ [stubGroup], group.Textual := List.forall_mem_singleton.2 textual_stubGroup
  have hselected := selectRenderings_firsts hoffered
    (fun r hr => (Graph.textual_of_mem_offered hoffered htexts r hr).isIdentified) {}
  obtain ⟨chosen, report, hrun, htold⟩ := left_out_renderings_are_told htexts hoffered {}
  obtain ⟨kept, hkept, -, hpath, -, hself⟩ :=
    htold stubGroup List.mem_cons_self _ hclash.targets 2 (by decide) _ hr'
  cases hselected.symm.trans hrun
  have hnode : kept.node = 1 := congrArg Rendering.node (List.mem_singleton.1 hkept)
  have hne : kept.node ≠ 2 := by
    rw [hnode]
    decide
  refine ⟨_, _, hrun, _, hr', kept, hkept, hpath, hne, ?_⟩
  rcases hself with hself | hsame
  · exact hself.2
  · exact absurd hsame.1 hne

/-- One file for the whole project. -/
def wholeGroup (category : Category) : OutputGroup where
  category
  language := .text "python"
  files := .whole (.text "all.py")

/-- **The file of another category is left out, and nothing is told**, if both files are for the project. -/
theorem file_of_another_category_is_left_out : ∃ tests stubs,
    Design.clash.graph.rendering (wholeGroup .tests) 0 = .ok tests ∧
      Design.clash.graph.rendering (wholeGroup .stubs) 0 = .ok stubs ∧
      tests.sameFile stubs = true ∧ tests.node = stubs.node ∧ tests.category ≠ stubs.category ∧
      (selectRenderings Design.clash.graph [wholeGroup .tests, wholeGroup .stubs]).run.run {} =
        (.ok [tests], {}) := by
  obtain ⟨s, hs⟩ : ∃ s, Design.clash.graph.subject 0 = .ok s := ⟨_, rfl⟩
  have hrendering (category : Category) : ∃ settings description,
      Design.clash.graph.rendering (wholeGroup category) 0 =
        .ok ⟨0, .text "all.py", .text "python", category, settings, description⟩ := by
    unfold Graph.rendering
    rw [hs]
    exact ⟨_, _, rfl⟩
  obtain ⟨settings, description, htests⟩ := hrendering .tests
  obtain ⟨settings', description', hstubs⟩ := hrendering .stubs
  have htargets (category : Category) : Design.clash.graph.targets (wholeGroup category) = .ok [0] := by
    cases category <;> rfl
  refine ⟨_, _, htests, hstubs, rfl, rfl, Category.noConfusion, ?_⟩
  simp only [selectRenderings, keepGroups, htargets, keepAll, htests, hstubs]
  rfl

end Actionbook
