import Actionbook.Output.Rendering
import Actionbook.Proofs.Documents

/-!
# One file for a place

Of the renderings that are offered, the first for a place is kept. Where all files are chosen, a warning
tells of every other one that is about another node; where only those are chosen that changes touch, fewer
are offered and nothing is told.

* `Chosen offered chosen told`: what a choice of all files owes to what is offered. Adding one rendering
  keeps it (`Chosen.keep`), and so does adding those of groups (`Chosen.keepGroups`).
* `exists_changedRenderings`: if all files can be chosen, so can those that changes touch, and all of them
  are among what is offered.
-/

namespace Actionbook

variable {g : Graph} {host : Form.Host} {group : OutputGroup} {groups : List OutputGroup} {a b c r : Rendering}
  {l kept kept' : List Rendering} {ws : List Warning} {start report report' : Report}

/-! ## Places -/

namespace Data

variable {u v w : Data}

theorem sameKey_iff : u.sameKey v = true ↔ ∃ k, u.key? = some k ∧ v.key? = some k := by
  unfold sameKey
  cases u.key? with
  | none => simp
  | some j =>
    cases v.key? with
    | none => simp
    | some k => simpa using eq_comm

theorem sameKey_self (h : u.key?.isSome = true) : u.sameKey u = true := by
  obtain ⟨k, hk⟩ := Option.isSome_iff_exists.1 h
  exact sameKey_iff.2 ⟨k, hk, hk⟩

theorem sameKey_symm (h : u.sameKey v = true) : v.sameKey u = true := by
  obtain ⟨k, hu, hv⟩ := sameKey_iff.1 h
  exact sameKey_iff.2 ⟨k, hv, hu⟩

theorem sameKey_trans (h : u.sameKey v = true) (h' : v.sameKey w = true) : u.sameKey w = true := by
  obtain ⟨k, hu, hv⟩ := sameKey_iff.1 h
  obtain ⟨k', hv', hw⟩ := sameKey_iff.1 h'
  rw [hv] at hv'
  cases hv'
  exact sameKey_iff.2 ⟨k, hu, hw⟩

end Data

namespace Rendering

theorem sameFile_iff :
    a.sameFile b = true ↔ a.language.sameKey b.language = true ∧ a.path.sameKey b.path = true := by
  rw [sameFile, Bool.and_eq_true]

theorem sameFile_self (h : a.isIdentified = true) : a.sameFile a = true := by
  rw [isIdentified, Bool.and_eq_true] at h
  exact sameFile_iff.2 ⟨Data.sameKey_self h.1, Data.sameKey_self h.2⟩

theorem sameFile_symm (h : a.sameFile b = true) : b.sameFile a = true :=
  sameFile_iff.2 ((sameFile_iff.1 h).imp Data.sameKey_symm Data.sameKey_symm)

theorem sameFile_trans (h : a.sameFile b = true) (h' : b.sameFile c = true) : a.sameFile c = true :=
  sameFile_iff.2 ⟨Data.sameKey_trans (sameFile_iff.1 h).1 (sameFile_iff.1 h').1,
    Data.sameKey_trans (sameFile_iff.1 h).2 (sameFile_iff.1 h').2⟩

/-- The warning that the file of a rendering is taken. -/
def collision (r : Rendering) : Warning := ⟨.outputCollision r.path r.language, some r.node⟩

theorem collision_eq_iff :
    a.collision = b.collision ↔ a.path = b.path ∧ a.language = b.language ∧ a.node = b.node := by
  simp [collision, and_assoc]

end Rendering

/-! ## All files -/

/-- A choice among renderings that are offered, and what has been told about the others. -/
structure Chosen (offered chosen : List Rendering) (told : List Warning) : Prop where
  /-- Whatever is offered is for a file, … -/
  identified : ∀ r ∈ offered, r.isIdentified = true
  /-- … which one of those that are chosen has, … -/
  covers : ∀ r ∈ offered, ∃ f ∈ chosen, f.sameFile r = true
  /-- … and no other. -/
  unique : ∀ f ∈ chosen, ∀ f' ∈ chosen, f.sameFile f' = true → f = f'
  /-- The warnings are about those whose file another node has got. -/
  told : ∀ w, w ∈ told ↔
    ∃ r ∈ offered, r.collision = w ∧ ∃ f ∈ chosen, f.sameFile r = true ∧ f.node ≠ r.node

namespace Chosen

theorem nil : Chosen [] [] [] where
  identified := List.forall_mem_nil _
  covers := List.forall_mem_nil _
  unique := List.forall_mem_nil _
  told w := iff_of_false List.not_mem_nil (by rintro ⟨r, hr, -⟩; cases hr)

/-- A rendering for a new file is chosen. -/
theorem add (hc : Chosen l kept ws) (hid : r.isIdentified = true)
    (hnew : ∀ f ∈ kept, ¬ f.sameFile r = true) : Chosen (l ++ [r]) (kept ++ [r]) ws where
  identified a ha := by
    rcases List.mem_append.1 ha with ha | ha
    · exact hc.identified a ha
    · exact List.mem_singleton.1 ha ▸ hid
  covers a ha := by
    rcases List.mem_append.1 ha with ha | ha
    · obtain ⟨f, hf, hfa⟩ := hc.covers a ha
      exact ⟨f, List.mem_append_left _ hf, hfa⟩
    · rw [List.mem_singleton.1 ha]
      exact ⟨r, List.mem_append_right _ List.mem_cons_self, Rendering.sameFile_self hid⟩
  unique f hf f' hf' h := by
    rcases List.mem_append.1 hf with hf | hf <;> rcases List.mem_append.1 hf' with hf' | hf'
    · exact hc.unique f hf f' hf' h
    · exact absurd (List.mem_singleton.1 hf' ▸ h) (hnew f hf)
    · exact absurd (Rendering.sameFile_symm (List.mem_singleton.1 hf ▸ h)) (hnew f' hf')
    · rw [List.mem_singleton.1 hf, List.mem_singleton.1 hf']
  told w := by
    rw [hc.told]
    constructor
    · rintro ⟨a, ha, hw, f, hf, hfa⟩
      exact ⟨a, List.mem_append_left _ ha, hw, f, List.mem_append_left _ hf, hfa⟩
    · rintro ⟨a, ha, hw, f, hf, hfa, hne⟩
      -- the new file is nobody else's, and its own node is no other
      rcases List.mem_append.1 ha with ha | ha <;> rcases List.mem_append.1 hf with hf | hf
      · exact ⟨a, ha, hw, f, hf, hfa, hne⟩
      · obtain ⟨f', hf', hfa'⟩ := hc.covers a ha
        rw [List.mem_singleton.1 hf] at hfa
        exact absurd (Rendering.sameFile_trans hfa' (Rendering.sameFile_symm hfa)) (hnew f' hf')
      · exact absurd (List.mem_singleton.1 ha ▸ hfa) (hnew f hf)
      · exact absurd (by rw [List.mem_singleton.1 ha, List.mem_singleton.1 hf]) hne

/-- A rendering whose file is taken is left out, and told of if it is about another node. -/
theorem leave {other : Rendering} (hc : Chosen l kept ws) (hid : r.isIdentified = true)
    (ho : other ∈ kept) (hsame : other.sameFile r = true) :
    Chosen (l ++ [r]) kept (ws ++ if other.node ≠ r.node then [r.collision] else []) where
  identified a ha := by
    rcases List.mem_append.1 ha with ha | ha
    · exact hc.identified a ha
    · exact List.mem_singleton.1 ha ▸ hid
  covers a ha := by
    rcases List.mem_append.1 ha with ha | ha
    · exact hc.covers a ha
    · rw [List.mem_singleton.1 ha]
      exact ⟨other, ho, hsame⟩
  unique := hc.unique
  told w := by
    have hnew : w ∈ (if other.node ≠ r.node then [r.collision] else []) ↔
        r.collision = w ∧ ∃ f ∈ kept, f.sameFile r = true ∧ f.node ≠ r.node := by
      constructor
      · intro hw
        split at hw
        · rename_i hne
          exact ⟨(List.mem_singleton.1 hw).symm, other, ho, hsame, hne⟩
        · cases hw
      · rintro ⟨rfl, f, hf, hfr, hne⟩
        rw [hc.unique f hf other ho (Rendering.sameFile_trans hfr (Rendering.sameFile_symm hsame))] at hne
        rw [if_pos hne]
        exact List.mem_cons_self
    rw [List.mem_append, hc.told, hnew]
    simp only [List.mem_append, List.mem_singleton, or_and_right, exists_or, exists_eq_left]

/-- One rendering that is chosen has the file of one that is offered; it is about the same node unless that
is told. -/
theorem exists_full (hc : Chosen l kept ws) (hr : r ∈ l) :
    ∃ full ∈ kept, full.sameFile r = true ∧ (∀ f ∈ kept, f.sameFile r = true → f = full) ∧
      (full.node = r.node ↔ r.collision ∉ ws) := by
  obtain ⟨full, hfull, hsame⟩ := hc.covers r hr
  have hunique : ∀ f ∈ kept, f.sameFile r = true → f = full := fun f hf hfr =>
    hc.unique f hf full hfull (Rendering.sameFile_trans hfr (Rendering.sameFile_symm hsame))
  refine ⟨full, hfull, hsame, hunique, ?_⟩
  rw [hc.told]
  constructor
  · rintro hnode ⟨a, -, ha, f, hf, hfa, hne⟩
    obtain ⟨hpath, hlanguage, hnode'⟩ := Rendering.collision_eq_iff.1 ha
    have hfr : f.sameFile r = true := by rwa [Rendering.sameFile, ← hpath, ← hlanguage]
    rw [hunique f hf hfr, hnode'] at hne
    exact hne hnode
  · intro hnot
    by_contra hne
    exact hnot ⟨r, hr, rfl, full, hfull, hsame, hne⟩

end Chosen

/-- A sequence of choices ends well if each of them does. -/
theorem run_bind_eq_ok {ε σ α β : Type} {x : ExceptT ε (StateM σ) α} {f : α → ExceptT ε (StateM σ) β}
    {s t : σ} {b : β} :
    (x >>= f).run.run s = (.ok b, t) ↔
      ∃ a u, x.run.run s = (.ok a, u) ∧ (f a).run.run u = (.ok b, t) := by
  rw [ExceptT.run_bind, StateT.run_bind]
  rcases x.run.run s with ⟨e | a, u⟩
  · refine iff_of_false (fun h => ?_) (by rintro ⟨a, u, h, -⟩; cases h)
    cases h
  · constructor
    · exact fun h => ⟨a, u, rfl, h⟩
    · rintro ⟨a, u, ha, h⟩
      cases ha
      exact h

/-- **Adding a rendering** keeps a choice one. -/
theorem Chosen.keep (hc : Chosen l kept ws)
    (h : (keep kept r).run.run (start.warnAll ws) = (.ok kept', report')) :
    ∃ ws', Chosen (l ++ [r]) kept' ws' ∧ report' = start.warnAll ws' := by
  unfold Actionbook.keep at h
  cases hid : r.isIdentified with
  | false =>
    rw [hid] at h
    cases h
  | true =>
    rw [hid] at h
    cases hfind : kept.find? r.sameFile with
    | none =>
      rw [hfind] at h
      cases h
      refine ⟨ws, hc.add hid fun f hf hsame => ?_, rfl⟩
      exact List.find?_eq_none.1 hfind f hf (Rendering.sameFile_symm hsame)
    | some other =>
      have hleave := hc.leave hid (List.mem_of_find?_eq_some hfind)
        (Rendering.sameFile_symm (List.find?_some hfind))
      rw [hfind] at h
      by_cases hne : other.node ≠ r.node
      · simp only [if_pos hne] at h hleave
        cases h
        exact ⟨_, hleave, (Report.warnAll_append_singleton _ _ _).symm⟩
      · simp only [if_neg hne, List.append_nil] at h hleave
        cases h
        exact ⟨_, hleave, rfl⟩

/-- The renderings of a group, before any is chosen. -/
def Graph.offered (g : Graph) (host : Form.Host) (group : OutputGroup) :
    Except OutputError (List Rendering) :=
  match g.targets group with
  | .error e => .error (.fault e)
  | .ok handles => handles.mapM (g.rendering group · host)

theorem Chosen.keepAll {handles : List Handle} (hc : Chosen l kept ws)
    (h : (keepAll g group host kept handles).run.run (start.warnAll ws) = (.ok kept', report')) :
    ∃ offered ws', handles.mapM (g.rendering group · host) = .ok offered ∧
      Chosen (l ++ offered) kept' ws' ∧ report' = start.warnAll ws' := by
  induction handles generalizing l kept ws with
  | nil =>
    cases h
    exact ⟨[], ws, rfl, by rwa [List.append_nil], rfl⟩
  | cons k handles ih =>
    unfold Actionbook.keepAll at h
    cases hr : g.rendering group k host with
    | error e =>
      rw [hr] at h
      cases h
    | ok r =>
      simp only [hr] at h
      obtain ⟨kept₁, report₁, hkeep, h⟩ := run_bind_eq_ok.1 h
      obtain ⟨ws₁, hc₁, rfl⟩ := hc.keep hkeep
      obtain ⟨offered, ws', hoffered, hc', hreport⟩ := ih hc₁ h
      refine ⟨r :: offered, ws', ?_, by simpa using hc', hreport⟩
      rw [List.mapM_cons, hr, hoffered]
      rfl

/-- **Choosing all files** gives a choice among what all groups offer. -/
theorem Chosen.keepGroups (hc : Chosen l kept ws)
    (h : (keepGroups g host kept groups).run.run (start.warnAll ws) = (.ok kept', report')) :
    ∃ offered ws', groups.mapM (g.offered host) = .ok offered ∧
      Chosen (l ++ offered.flatten) kept' ws' ∧ report' = start.warnAll ws' := by
  induction groups generalizing l kept ws with
  | nil =>
    cases h
    exact ⟨[], ws, rfl, by rwa [List.flatten_nil, List.append_nil], rfl⟩
  | cons group groups ih =>
    unfold Actionbook.keepGroups at h
    cases ht : g.targets group with
    | error e =>
      rw [ht] at h
      cases h
    | ok handles =>
      simp only [ht] at h
      obtain ⟨kept₁, report₁, hall, h⟩ := run_bind_eq_ok.1 h
      obtain ⟨offered, ws₁, hoffered, hc₁, rfl⟩ := hc.keepAll hall
      obtain ⟨rest, ws', hrest, hc', hreport⟩ := ih hc₁ h
      refine ⟨offered :: rest, ws', ?_, by simpa using hc', hreport⟩
      rw [List.mapM_cons, Graph.offered, ht, hrest]
      simp only [hoffered]
      rfl

theorem chosen_of_selectRenderings {chosen : List Rendering}
    (h : (selectRenderings g groups host).run.run report = (.ok chosen, report')) :
    ∃ offered, groups.mapM (g.offered host) = .ok offered ∧
      Chosen offered.flatten chosen (report'.since report.mark) := by
  have hrun : (keepGroups g host [] groups).run.run (report.warnAll []) = (.ok chosen, report') := h
  obtain ⟨offered, ws, hoffered, hc, rfl⟩ := Chosen.nil.keepGroups hrun
  refine ⟨offered, hoffered, ?_⟩
  rwa [Report.since_mark_warnAll]

/-! ## Files that change -/

/-- A rendering is offered, maybe with other settings. -/
def Rendering.AmongIn (r : Rendering) (offered : List Rendering) : Prop :=
  ∃ r' ∈ offered, ∃ settings, r = { r' with settings }

theorem exists_keepFirst {changed : List Rendering} (hid : ∀ r ∈ l, r.isIdentified = true)
    (hchanged : ∀ r ∈ changed, r.AmongIn l) (hkept : ∀ r ∈ kept, r.AmongIn l) :
    ∃ out, changed.foldlM keepFirst kept = .ok out ∧ ∀ r ∈ out, r.AmongIn l := by
  refine Graph.exists_foldlM_inv (fun kept hkept r hr => ?_) hkept
  obtain ⟨r', hr', settings, rfl⟩ := hchanged r hr
  unfold keepFirst
  rw [show ({ r' with settings } : Rendering).isIdentified = true from hid r' hr']
  cases kept.any ({ r' with settings } : Rendering).sameFile with
  | true => exact ⟨kept, rfl, hkept⟩
  | false =>
    refine ⟨_, rfl, fun a ha => ?_⟩
    rcases List.mem_append.1 ha with ha | ha
    · exact hkept a ha
    · exact hchanged a (List.mem_singleton.1 ha ▸ hr)

/-- What changes touch in a group is among what the group offers. -/
theorem exists_changedOf {changed : List Handle} {offered : List Rendering}
    (hoffered : g.offered host group = .ok offered)
    (htargets : group.files.isPerNode = true → ∀ targets, g.targets group = .ok targets →
      ∀ h ∈ changed, h ∈ targets) :
    ∃ l, changedOf g host changed group = .ok l ∧ ∀ r ∈ l, r.AmongIn offered := by
  unfold Graph.offered at hoffered
  cases ht : g.targets group with
  | error e =>
    rw [ht] at hoffered
    cases hoffered
  | ok targets =>
    simp only [ht] at hoffered
    unfold changedOf
    cases hfiles : group.files with
    | each form =>
      have hmem := htargets (by rw [hfiles]; rfl) targets ht
      obtain ⟨l, hl⟩ := exists_mapM_ok fun h hh =>
        (mem_of_mapM_ok hoffered (hmem h hh)).imp fun _ hr => hr.2
      refine ⟨l, hl, fun r hr => ?_⟩
      obtain ⟨h, hh, hrh⟩ := exists_of_mapM_ok hl hr
      obtain ⟨r', hr', hrh'⟩ := mem_of_mapM_ok hoffered (hmem h hh)
      cases hrh.symm.trans hrh'
      exact ⟨r, hr', r.settings, rfl⟩
    | whole filename =>
      obtain ⟨⟨root, p⟩, hp, ht⟩ := bind_eq_ok.1 ht
      rw [hfiles] at ht
      cases ht
      obtain ⟨r', hr', hroot⟩ := mem_of_mapM_ok hoffered List.mem_cons_self
      simp only [hp]
      refine ⟨_, bind_eq_ok.2 ⟨root, rfl, bind_eq_ok.2 ⟨r', hroot, rfl⟩⟩, fun r hr => ?_⟩
      exact ⟨r', hr', _, List.mem_singleton.1 hr⟩

/-- **Choosing the files that changes touch** succeeds if all files can be chosen, and chooses among what
is offered then. -/
theorem exists_changedRenderings {changed : List Handle} {offered : List (List Rendering)}
    (hoffered : groups.mapM (g.offered host) = .ok offered)
    (hid : ∀ r ∈ offered.flatten, r.isIdentified = true)
    (htargets : ∀ group ∈ groups, group.files.isPerNode = true →
      ∀ targets, g.targets group = .ok targets → ∀ h ∈ changed, h ∈ targets) :
    ∃ out, changedRenderings g changed groups host = .ok out ∧ ∀ r ∈ out, r.AmongIn offered.flatten := by
  unfold changedRenderings
  refine Graph.exists_foldlM_inv (fun kept hkept group hgroup => ?_) (List.forall_mem_nil _)
  obtain ⟨part, hpart, hgroupOffered⟩ := mem_of_mapM_ok hoffered hgroup
  obtain ⟨l, hl, hamong⟩ := exists_changedOf hgroupOffered (htargets group hgroup)
  rw [hl]
  refine exists_keepFirst hid (fun r hr => ?_) hkept
  obtain ⟨r', hr', settings, he⟩ := hamong r hr
  exact ⟨r', List.mem_flatten_of_mem hpart hr', settings, he⟩

end Actionbook
