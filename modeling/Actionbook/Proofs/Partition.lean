import Actionbook.Proofs.Differences
import Mathlib.Data.List.Flatten
import Mathlib.Data.List.Perm.Lattice

/-!
# Every name is told once

A difference puts every name of two versions where it belongs, whatever the rule for renamings.

The argument is about the pairs of an old and a new name that count as renamings (`renamings`). A rule may
match any names, but a pair counts only if each of the two is the only match of the other
(`newNameOf?_eq_some`). So neither side repeats a name (`nodup_renamings_fst`, `nodup_renamings_snd`), and
what is left of either side is what has been deleted and created (`filter_not_contains_append_perm`).

* `told_diff_perm`: all names that a difference tells are those of one version only, and the changed ones.
* `diff_partitions`: the whole of it.
-/

namespace Actionbook

variable {rule : RenameRule} {old new : Signatures} {o o' n : String}

/-- The names that an entry tells. -/
def DiffEntry.told (e : DiffEntry) : List String := e.name :: e.newName.toList

/-- A difference between an old and a new version puts every name in exactly one place. -/
structure Diff.Partitions (old new : Signatures) (d : Diff) : Prop where
  /-- An entry stands among those of its kind. -/
  change : ∀ c, ∀ e ∈ d.group c, e.change = c
  /-- What is gone has been deleted or renamed. -/
  gone : (d.deleted.map (·.name) ++ d.renamed.map (·.name)).Perm
    ((old.map (·.1)).filter fun n => n ∉ new.map (·.1))
  /-- What is new has been created or is the new name of something. -/
  come : (d.created.map (·.name) ++ d.renamed.filterMap (·.newName)).Perm
    ((new.map (·.1)).filter fun n => n ∉ old.map (·.1))
  /-- What stays has changed if its signature has, … -/
  changed : ∀ n s t, old.lookup n = some s → new.lookup n = some t →
    (n ∈ d.changed.map (·.name) ↔ s.changedTo t = true)
  /-- … and is told nowhere else. -/
  kept : ∀ n ∈ old.map (·.1), n ∈ new.map (·.1) → ∀ c, c ≠ .signatureChanged →
    ∀ e ∈ d.group c, n ∉ e.told
  /-- Only what stays has changed. -/
  stays : ∀ e ∈ d.changed, e.name ∈ old.map (·.1) ∧ e.name ∈ new.map (·.1)
  /-- No name is told twice. -/
  once : (d.entries.flatMap DiffEntry.told).Nodup
  /-- All entries of one kind are in the order of their names. -/
  sorted : ∀ c, (d.group c).Pairwise fun e e' => e.name ≤ e'.name
  /-- What is renamed has a new name, and nothing else has. -/
  newName : ∀ e ∈ d.entries, e.newName.isSome = true ↔ e.change = .renamed
  /-- What is deleted has no node. -/
  noNode : ∀ e ∈ d.deleted, e.node = none
  /-- All else has the node of the new signature. -/
  node : ∀ e ∈ d.created ++ d.renamed ++ d.changed,
    ∃ t, new.lookup (e.newName.getD e.name) = some t ∧ e.node = t.node

/-! ## Renamings -/

/-- The pairs of an old and a new name that count as renamings. -/
def renamings (rule : RenameRule) (old new : Signatures) : List (String × String) :=
  (namesOnlyIn old new).filterMap fun o => (newNameOf? rule old new o).map (o, ·)

/-- An old name has a new one if each of them is the only match of the other. -/
theorem newNameOf?_eq_some :
    newNameOf? rule old new o = some n ↔
      targetsOf rule old new o = [n] ∧ sourcesOf rule old new n = [o] := by
  unfold newNameOf?
  constructor
  · intro h
    split at h
    · rename_i n' ht
      split at h
      · rename_i hs
        cases h
        exact ⟨ht, hs⟩
      · cases h
    · cases h
  · rintro ⟨ht, hs⟩
    rw [ht]
    exact if_pos hs

theorem newNameOf?_inj (h : newNameOf? rule old new o = some n)
    (h' : newNameOf? rule old new o' = some n) : o = o' := by
  have hs := (newNameOf?_eq_some.1 h).2
  rw [(newNameOf?_eq_some.1 h').2] at hs
  exact (List.cons.inj hs).1.symm

theorem mem_of_newNameOf? (h : newNameOf? rule old new o = some n) : n ∈ namesOnlyIn new old := by
  have ht : n ∈ targetsOf rule old new o := by
    rw [(newNameOf?_eq_some.1 h).1]
    exact List.mem_singleton_self n
  exact List.mem_of_mem_filter ht

theorem mem_renamings {p : String × String} :
    p ∈ renamings rule old new ↔
      p.1 ∈ namesOnlyIn old new ∧ newNameOf? rule old new p.1 = some p.2 := by
  simp only [renamings, List.mem_filterMap, Option.map_eq_some_iff]
  constructor
  · rintro ⟨o, ho, n, hn, rfl⟩
    exact ⟨ho, hn⟩
  · rintro ⟨ho, hn⟩
    exact ⟨p.1, ho, p.2, hn, rfl⟩

theorem renamings_fst :
    (renamings rule old new).map (·.1) =
      (namesOnlyIn old new).filter fun o => (newNameOf? rule old new o).isSome := by
  rw [renamings, List.map_filterMap, ← List.filterMap_eq_filter]
  congr 1
  funext o
  cases h : newNameOf? rule old new o <;> simp [Option.guard, h]

theorem renamings_fst_sublist :
    ((renamings rule old new).map (·.1)).Sublist (namesOnlyIn old new) := by
  rw [renamings_fst]
  exact List.filter_sublist

theorem nodup_renamings_fst (hold : (old.map (·.1)).Nodup) :
    ((renamings rule old new).map (·.1)).Nodup :=
  (nodup_namesOnlyIn hold).sublist renamings_fst_sublist

theorem renamings_snd_subset : (renamings rule old new).map (·.2) ⊆ namesOnlyIn new old := by
  intro n hn
  obtain ⟨p, hp, rfl⟩ := List.mem_map.1 hn
  exact mem_of_newNameOf? (mem_renamings.1 hp).2

/-- A new name belongs to one old one, which is there once. -/
theorem nodup_renamings_snd (hold : (old.map (·.1)).Nodup) :
    ((renamings rule old new).map (·.2)).Nodup := by
  have hn : (renamings rule old new).Nodup := (nodup_renamings_fst hold).of_map _
  refine hn.map_on fun p hp q hq he => ?_
  have h := (mem_renamings.1 hp).2
  have h' := (mem_renamings.1 hq).2
  rw [he] at h
  exact Prod.ext (newNameOf?_inj h h') he

/-! ## What is left -/

/-- Some elements of a list and those that are left make up the list. -/
theorem filter_not_contains_append_perm {l m : List String} (hl : l.Nodup) (hm : m.Nodup)
    (hs : m ⊆ l) : (l.filter (fun a => !m.contains a) ++ m).Perm l := by
  have hd : (l.filter (fun a => !m.contains a)).Disjoint m := by
    intro a ha ha'
    simp only [List.mem_filter, Bool.not_eq_true', List.contains_eq_mem, decide_eq_false_iff_not] at ha
    exact ha.2 ha'
  refine (List.perm_ext_iff_of_nodup ((hl.filter _).append hm hd) hl).2 fun a => ?_
  rw [List.mem_append, List.mem_filter]
  constructor
  · rintro (h | h)
    · exact h.1
    · exact hs h
  · intro h
    by_cases ha : a ∈ m
    · exact .inr ha
    · exact .inl ⟨h, by simpa using ha⟩

/-- The names of some signatures that others have not got, in any order. -/
theorem namesOnlyIn_perm (these those : Signatures) :
    (namesOnlyIn these those).Perm
      ((these.map (·.1)).filter fun n => n ∉ those.map (·.1)) := by
  refine (sortTexts_perm _).trans (.of_eq (List.filter_congr fun n _ => ?_))
  rw [Bool.eq_iff_iff, Option.isNone_iff_eq_none, lookup_eq_none_iff_not_mem, decide_eq_true_iff]

/-! ## The lists of a difference -/

/-- An entry that one kind of change has for the names of an old and a new version. -/
inductive DiffEntry.Fits (old new : Signatures) : Change → DiffEntry → Prop
  | deleted {o : String} (ho : o ∈ namesOnlyIn old new) :
      Fits old new .deleted { change := .deleted, name := o }
  | created {n : String} (hn : n ∈ namesOnlyIn new old) :
      Fits old new .created { change := .created, name := n, node := nodeOf new n }
  | renamed {o n : String} (ho : o ∈ namesOnlyIn old new) (hn : n ∈ namesOnlyIn new old) :
      Fits old new .renamed { change := .renamed, name := o, newName := some n, node := nodeOf new n }
  | changed {n : String} (hn : n ∈ namesInBoth old new) :
      Fits old new .signatureChanged { change := .signatureChanged, name := n, node := nodeOf new n }

theorem fits_of_mem_group {c : Change} {e : DiffEntry} (he : e ∈ (diffSignatures rule old new).group c) :
    e.Fits old new c := by
  cases c with
  | deleted =>
    obtain ⟨o, ho, rfl⟩ := List.mem_map.1 he
    exact .deleted (List.mem_of_mem_filter ho)
  | created =>
    obtain ⟨n, hn, rfl⟩ := List.mem_map.1 he
    exact .created (List.mem_of_mem_filter hn)
  | renamed =>
    obtain ⟨p, hp, rfl⟩ := List.mem_map.1 he
    obtain ⟨ho, hn⟩ := mem_renamings.1 hp
    exact .renamed ho (mem_of_newNameOf? hn)
  | signatureChanged =>
    obtain ⟨n, hn, rfl⟩ := List.mem_map.1 he
    exact .changed (List.mem_of_mem_filter hn)

theorem exists_nodeOf {n : String} (hn : n ∈ new.map (·.1)) :
    ∃ t, new.lookup n = some t ∧ nodeOf new n = t.node := by
  obtain ⟨t, ht⟩ := Option.isSome_iff_exists.1 (mem_names.1 hn)
  exact ⟨t, ht, by rw [nodeOf, ht, Option.bind_some]⟩

namespace DiffEntry.Fits

variable {c : Change} {e : DiffEntry} (h : e.Fits old new c)
include h

theorem change_eq : e.change = c := by cases h <;> rfl

theorem newName_isSome : e.newName.isSome = true ↔ e.change = .renamed := by
  cases h <;> simp

theorem newName_eq_none (hc : c ≠ .renamed) : e.newName = none := by
  cases h with
  | renamed => exact absurd rfl hc
  | _ => rfl

/-- Except for what has changed, an entry tells names of one version only. -/
theorem only_in_one (hc : c ≠ .signatureChanged) {n : String} (hn : n ∈ e.told) :
    n ∈ namesOnlyIn old new ∨ n ∈ namesOnlyIn new old := by
  cases h with
  | deleted ho =>
    rw [List.mem_singleton.1 hn]
    exact .inl ho
  | created ho =>
    rw [List.mem_singleton.1 hn]
    exact .inr ho
  | renamed ho ho' =>
    rcases List.mem_cons.1 hn with rfl | hn
    · exact .inl ho
    · rw [List.mem_singleton.1 hn]
      exact .inr ho'
  | changed => exact absurd rfl hc

/-- Except for what is gone, an entry has the node of the new signature. -/
theorem node_eq (hc : c ≠ .deleted) :
    ∃ t, new.lookup (e.newName.getD e.name) = some t ∧ e.node = t.node := by
  cases h with
  | deleted => exact absurd rfl hc
  | created hn => exact exists_nodeOf (mem_namesOnlyIn.1 hn).1
  | renamed _ hn => exact exists_nodeOf (mem_namesOnlyIn.1 hn).1
  | changed hn => exact exists_nodeOf (mem_namesInBoth.1 hn).2

end DiffEntry.Fits

section
variable (rule old new)

theorem deleted_names :
    (diffSignatures rule old new).deleted.map (·.name) =
      (namesOnlyIn old new).filter fun o => !((renamings rule old new).map (·.1)).contains o := by
  simp only [diffSignatures, List.map_map]
  exact List.map_id _

theorem created_names :
    (diffSignatures rule old new).created.map (·.name) =
      (namesOnlyIn new old).filter fun n => !((renamings rule old new).map (·.2)).contains n := by
  simp only [diffSignatures, List.map_map]
  exact List.map_id _

theorem renamed_names :
    (diffSignatures rule old new).renamed.map (·.name) = (renamings rule old new).map (·.1) := by
  simp only [diffSignatures, List.map_map]
  rfl

theorem renamed_newNames :
    (diffSignatures rule old new).renamed.filterMap (·.newName) =
      (renamings rule old new).map (·.2) := by
  simp only [diffSignatures, List.filterMap_map]
  exact List.filterMap_eq_map.symm ▸ rfl

theorem changed_names_sublist :
    ((diffSignatures rule old new).changed.map (·.name)).Sublist (namesInBoth old new) := by
  rw [changed_diff]
  exact List.filter_sublist

/-- The entries of one kind tell their names in order. -/
theorem group_names_sorted (c : Change) :
    (((diffSignatures rule old new).group c).map (·.name)).Pairwise fun s t => textLe s t := by
  cases c with
  | deleted =>
    rw [Diff.group, deleted_names]
    exact (sortTexts_sorted _).filter _
  | created =>
    rw [Diff.group, created_names]
    exact (sortTexts_sorted _).filter _
  | renamed =>
    rw [Diff.group, renamed_names]
    exact (sortTexts_sorted _).sublist renamings_fst_sublist
  | signatureChanged => exact (sortTexts_sorted _).sublist (changed_names_sublist rule old new)

end

section
variable (hold : (old.map (·.1)).Nodup) (hnew : (new.map (·.1)).Nodup)
include hold

theorem gone_perm (rule : RenameRule) :
    ((diffSignatures rule old new).deleted.map (·.name) ++
      (diffSignatures rule old new).renamed.map (·.name)).Perm (namesOnlyIn old new) := by
  rw [deleted_names, renamed_names]
  exact filter_not_contains_append_perm (nodup_namesOnlyIn hold) (nodup_renamings_fst hold)
    renamings_fst_sublist.subset

include hnew

theorem come_perm (rule : RenameRule) :
    ((diffSignatures rule old new).created.map (·.name) ++
      (diffSignatures rule old new).renamed.filterMap (·.newName)).Perm (namesOnlyIn new old) := by
  rw [created_names, renamed_newNames]
  exact filter_not_contains_append_perm (nodup_namesOnlyIn hnew) (nodup_renamings_snd hold)
    renamings_snd_subset

end

/-! ## All names -/

/-- The names that entries tell are their own and the new ones. -/
theorem flatMap_told_perm (l : List DiffEntry) :
    (l.flatMap DiffEntry.told).Perm (l.map (·.name) ++ l.filterMap (·.newName)) := by
  rw [List.map_eq_flatMap, List.filterMap_eq_flatMap_toList]
  exact (List.flatMap_append_perm l (fun e => [e.name]) fun e => e.newName.toList).symm

theorem mem_entries {d : Diff} {e : DiffEntry} : e ∈ d.entries ↔ ∃ c, e ∈ d.group c := by
  rw [Diff.entries, List.mem_flatMap]
  constructor
  · rintro ⟨c, -, he⟩
    exact ⟨c, he⟩
  · rintro ⟨c, he⟩
    exact ⟨c, by cases c <;> simp [Change.all], he⟩

theorem entries_newNames (rule : RenameRule) (old new : Signatures) :
    (diffSignatures rule old new).entries.filterMap (·.newName) =
      (diffSignatures rule old new).renamed.filterMap (·.newName) := by
  have hnone {c : Change} (hc : c ≠ .renamed) :
      ((diffSignatures rule old new).group c).filterMap (·.newName) = [] :=
    List.filterMap_eq_nil_iff.2 fun e he => (fits_of_mem_group he).newName_eq_none hc
  simp only [Diff.entries, Change.all, List.flatMap_cons, List.flatMap_nil, List.filterMap_append]
  rw [hnone (c := .deleted) nofun, hnone (c := .created) nofun, hnone (c := .signatureChanged) nofun]
  exact List.append_nil _

section
variable (hold : (old.map (·.1)).Nodup) (hnew : (new.map (·.1)).Nodup)
include hold hnew

/-- A difference tells the names of one version only, and those that have changed. -/
theorem told_diff_perm (rule : RenameRule) :
    ((diffSignatures rule old new).entries.flatMap DiffEntry.told).Perm
      (namesOnlyIn old new ++ namesOnlyIn new old ++
        (diffSignatures rule old new).changed.map (·.name)) := by
  refine (flatMap_told_perm _).trans (.trans ?_
    (((gone_perm hold rule).append (come_perm hold hnew rule)).append_right _))
  rw [entries_newNames, List.perm_iff_count]
  intro n
  simp only [Diff.entries, Change.all, List.flatMap_cons, List.flatMap_nil, Diff.group,
    List.map_append, List.map_nil, List.count_append, List.count_nil]
  omega

theorem nodup_told (rule : RenameRule) :
    ((diffSignatures rule old new).entries.flatMap DiffEntry.told).Nodup := by
  rw [(told_diff_perm hold hnew rule).nodup_iff]
  have hstays : ∀ n ∈ (diffSignatures rule old new).changed.map (·.name),
      n ∈ old.map (·.1) ∧ n ∈ new.map (·.1) := fun n hn =>
    mem_namesInBoth.1 ((changed_names_sublist rule old new).subset hn)
  refine ((nodup_namesOnlyIn hold).append (nodup_namesOnlyIn hnew) ?_).append
    ((nodup_namesInBoth hold).sublist (changed_names_sublist rule old new)) ?_
  · intro n hn hn'
    exact (mem_namesOnlyIn.1 hn).2 (mem_namesOnlyIn.1 hn').1
  · intro n hn hn'
    rcases List.mem_append.1 hn with hn | hn
    · exact (mem_namesOnlyIn.1 hn).2 (hstays n hn').2
    · exact (mem_namesOnlyIn.1 hn).2 (hstays n hn').1

/-- **Every name is told once**: whatever counts as a renaming, a difference puts each name of an old and
a new version where it belongs and nowhere else. -/
theorem diff_partitions (rule : RenameRule) : (diffSignatures rule old new).Partitions old new where
  change c e he := (fits_of_mem_group he).change_eq
  gone := (gone_perm hold rule).trans (namesOnlyIn_perm old new)
  come := (come_perm hold hnew rule).trans (namesOnlyIn_perm new old)
  changed n s t hs ht := by
    have hin : n ∈ namesInBoth old new :=
      mem_namesInBoth.2 ⟨mem_names.2 (by rw [hs]; rfl), mem_names.2 (by rw [ht]; rfl)⟩
    rw [changed_diff, List.mem_filter, and_iff_right hin]
    simp only [matchesUnder, hs, ht]
  kept n hn hn' c hc e he ht := by
    rcases (fits_of_mem_group he).only_in_one hc ht with h | h
    · exact (mem_namesOnlyIn.1 h).2 hn'
    · exact (mem_namesOnlyIn.1 h).2 hn
  stays e he :=
    mem_namesInBoth.1 ((changed_names_sublist rule old new).subset (List.mem_map_of_mem he))
  once := nodup_told hold hnew rule
  sorted c := (List.pairwise_map.1 (group_names_sorted rule old new c)).imp textLe_iff.1
  newName e he := by
    obtain ⟨c, he⟩ := mem_entries.1 he
    exact (fits_of_mem_group he).newName_isSome
  noNode e he := by
    cases fits_of_mem_group (c := .deleted) he with
    | deleted => rfl
  node e he := by
    rcases List.mem_append.1 he with he | he
    · rcases List.mem_append.1 he with he | he
      · exact (fits_of_mem_group (c := .created) he).node_eq nofun
      · exact (fits_of_mem_group (c := .renamed) he).node_eq nofun
    · exact (fits_of_mem_group (c := .signatureChanged) he).node_eq nofun

end

/-- An action word of every kind: it goes, gets another name, changes or stays. -/
def formerWords : Signatures :=
  [("stop", { name := "stop" }), ("enter", { name := "enter", uid := some "1" }),
    ("close", { name := "close", uid := some "2" }), ("click", { name := "click" })]

/-- The same action words later, and one that has come. -/
def laterWords : Signatures :=
  [("click", { name := "click", parameters := [⟨"target", none⟩], node := some 7 }),
    ("type", { name := "type", uid := some "1", node := some 8 }),
    ("close", { name := "close", uid := some "2", node := some 9 }),
    ("wait", { name := "wait", node := some 10 })]

theorem words_partition :
    ((formerWords.map (·.1)).Nodup ∧ (laterWords.map (·.1)).Nodup) ∧
      (diffSignatures RenameMatch.uid.rule formerWords laterWords).Partitions formerWords laterWords ∧
      diffSignatures RenameMatch.uid.rule formerWords laterWords =
        { deleted := [{ change := .deleted, name := "stop" }]
          created := [{ change := .created, name := "wait", node := some 10 }]
          renamed := [{ change := .renamed, name := "enter", newName := some "type", node := some 8 }]
          changed := [{ change := .signatureChanged, name := "click", node := some 7 }] } := by
  refine ⟨⟨by decide, by decide⟩, ?_, by decide +kernel⟩
  exact diff_partitions (by decide) (by decide) RenameMatch.uid.rule

end Actionbook
