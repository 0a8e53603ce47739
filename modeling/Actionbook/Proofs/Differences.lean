import Actionbook.Diff
import Actionbook.Proofs.Snapshots

/-!
# Differences

What a difference says is seen from the names of the signatures and what is found under them
(`mem_namesOnlyIn`, `mem_namesInBoth`, `changed_diff`). Where only one name has gone and only one is new
the rule for renamings decides between them (`diff_of_single`).
-/

namespace Actionbook

variable {these those old new : Signatures} {rule : RenameRule} {a b n : String}

theorem mem_names : n ∈ these.map (·.1) ↔ (these.lookup n).isSome := by
  rw [← not_iff_not, ← lookup_eq_none_iff_not_mem, Option.not_isSome_iff_eq_none]

/-! ## Names -/

theorem mem_namesOnlyIn :
    n ∈ namesOnlyIn these those ↔ n ∈ these.map (·.1) ∧ n ∉ those.map (·.1) := by
  rw [namesOnlyIn, mem_sortTexts, List.mem_filter, Option.isNone_iff_eq_none,
    lookup_eq_none_iff_not_mem]

theorem mem_namesInBoth :
    n ∈ namesInBoth these those ↔ n ∈ these.map (·.1) ∧ n ∈ those.map (·.1) := by
  rw [namesInBoth, mem_sortTexts, List.mem_filter, ← mem_names]

theorem nodup_namesOnlyIn (hn : (these.map (·.1)).Nodup) : (namesOnlyIn these those).Nodup :=
  (sortTexts_perm _).nodup_iff.2 (hn.filter _)

theorem nodup_namesInBoth (hn : (these.map (·.1)).Nodup) : (namesInBoth these those).Nodup :=
  (sortTexts_perm _).nodup_iff.2 (hn.filter _)

/-- A list without repetitions has one entry if one thing is in it. -/
theorem eq_singleton_iff {l : List String} (hl : l.Nodup) : l = [a] ↔ ∀ n, n ∈ l ↔ n = a := by
  constructor
  · intro h n
    rw [h, List.mem_singleton]
  · intro h
    apply List.perm_singleton.1
    apply (List.perm_ext_iff_of_nodup hl (List.nodup_singleton a)).2
    intro n
    rw [h, List.mem_singleton]

/-- The list of the one name that is among some signatures only. -/
theorem namesOnlyIn_eq_singleton (hn : (these.map (·.1)).Nodup)
    (h : ∀ n, n ∈ these.map (·.1) ∧ n ∉ those.map (·.1) ↔ n = a) : namesOnlyIn these those = [a] := by
  apply (eq_singleton_iff (nodup_namesOnlyIn hn)).2
  intro n
  rw [mem_namesOnlyIn, h]

/-! ## Changes -/

theorem changed_diff (rule : RenameRule) (old new : Signatures) :
    (diffSignatures rule old new).changed.map (·.name) =
      (namesInBoth old new).filter fun n => matchesUnder Signature.changedTo old new n n := by
  simp only [diffSignatures, List.map_map]
  exact List.map_id _

/-- The names that have changed are told in order, once each. -/
theorem changed_diff_eq_sortTexts (hn : (old.map (·.1)).Nodup) {l : List String} (hl : l.Nodup)
    (h : ∀ n, n ∈ l ↔ (n ∈ old.map (·.1) ∧ n ∈ new.map (·.1)) ∧
      matchesUnder Signature.changedTo old new n n = true) :
    (diffSignatures rule old new).changed.map (·.name) = sortTexts l := by
  rw [changed_diff]
  refine sortTexts_eq_of_perm ((sortTexts_sorted _).filter _)
    ((List.perm_ext_iff_of_nodup ((nodup_namesInBoth hn).filter _) hl).2 fun n => ?_)
  rw [List.mem_filter, mem_namesInBoth, h]

/-! ## One name for another -/

/-- Where one name has gone and one is new, they are a renaming if the rule takes them for it. -/
theorem diff_of_single (rule : RenameRule) (hold : namesOnlyIn old new = [a]) (hnew : namesOnlyIn new old = [b]) :
    let δ := diffSignatures rule old new
    if matchesUnder rule old new a b then
      δ.renamed.map (fun e => (e.name, e.newName)) = [(a, some b)] ∧ δ.deleted = [] ∧ δ.created = []
    else δ.deleted.map (·.name) = [a] ∧ δ.created.map (·.name) = [b] ∧ δ.renamed = [] := by
  by_cases hm : matchesUnder rule old new a b
  · simp [diffSignatures, hold, hnew, newNameOf?, targetsOf, sourcesOf, hm]
  · simp [diffSignatures, hold, hnew, newNameOf?, targetsOf, hm]

end Actionbook
