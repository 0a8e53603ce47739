import Actionbook.Proofs.Pairing
import Mathlib.Data.Prod.Basic

/-!
# Differences read backwards

A difference treats its two versions differently: the new names are sought for the old ones, and the old
names are only counted. All the same, if the versions change places, and the two sides of the rule with
them, it says the same the other way round: what has been created has been deleted, a renaming goes from
the new name to the old one, and what has changed has changed.

The reason is that the two lists of a rule change places as well (`targetsOf_flip`, `sourcesOf_flip`), and a
name is told if both have one entry (`mem_renamings_flip`). The rules that a configuration can name do not
look at the direction at all (`RenameMatch.flip_rule`).

* `difference_mirrored`: the whole of it.
-/

namespace Actionbook

variable {rule : RenameRule} {old new : Signatures}

/-- A rule with its two sides changed. -/
def RenameRule.flip (rule : RenameRule) : RenameRule := fun s t => rule t s

/-- One difference says the same as another, the other way round. -/
structure Diff.Mirrors (d' d : Diff) : Prop where
  deleted : d'.deleted.map (·.name) = d.created.map (·.name)
  created : d'.created.map (·.name) = d.deleted.map (·.name)
  renamed : d'.renamedPairs.Perm (d.renamedPairs.map Prod.swap)
  changed : d'.changed.map (·.name) = d.changed.map (·.name)

/-! ## Rules -/

/-- Whether parameters or bodies differ does not depend on which of them are the new ones. -/
theorem Signature.changedTo_comm (s t : Signature) : s.changedTo t = t.changedTo s := by
  unfold Signature.changedTo
  rw [bne_comm (a := s.shape), bne_comm (a := s.bodyHash), Bool.and_comm s.bodyHash.isSome]

theorem RenameMatch.rule_symm (m : RenameMatch) {s t : Signature} (h : m.rule s t = true) :
    m.rule t s = true := by
  cases m with
  | shapeAndBody =>
    simp only [rule, Bool.and_eq_true, beq_iff_eq] at h ⊢
    obtain ⟨⟨hshape, hsome⟩, hbody⟩ := h
    exact ⟨⟨hshape.symm, hbody ▸ hsome⟩, hbody.symm⟩
  | uid =>
    simp only [rule, Bool.and_eq_true, beq_iff_eq] at h ⊢
    obtain ⟨hsome, huid⟩ := h
    exact ⟨huid ▸ hsome, huid.symm⟩

theorem RenameMatch.flip_rule (m : RenameMatch) : m.rule.flip = m.rule := by
  funext s t
  exact Bool.eq_iff_iff.2 ⟨m.rule_symm, m.rule_symm⟩

theorem matchesUnder_flip (rule : RenameRule) (old new : Signatures) (a b : String) :
    matchesUnder rule.flip new old b a = matchesUnder rule old new a b := by
  unfold matchesUnder
  cases old.lookup a <;> cases new.lookup b <;> rfl

/-! ## Candidates -/

/-- The targets of the one direction are the sources of the other. -/
theorem targetsOf_flip (rule : RenameRule) (old new : Signatures) (n : String) :
    targetsOf rule.flip new old n = sourcesOf rule old new n :=
  List.filter_congr fun _ _ => matchesUnder_flip rule old new _ _

theorem sourcesOf_flip (rule : RenameRule) (old new : Signatures) (o : String) :
    sourcesOf rule.flip new old o = targetsOf rule old new o :=
  List.filter_congr fun _ _ => matchesUnder_flip rule old new _ _

theorem mem_of_newNameOf?_left {o n : String} (h : newNameOf? rule old new o = some n) :
    o ∈ namesOnlyIn old new := by
  have hs : o ∈ sourcesOf rule old new n := by
    rw [(newNameOf?_eq_some.1 h).2]
    exact List.mem_singleton_self o
  exact List.mem_of_mem_filter hs

/-- A clear renaming is clear from either side. -/
theorem newNameOf?_flip {o n : String} :
    newNameOf? rule.flip new old n = some o ↔ newNameOf? rule old new o = some n := by
  rw [newNameOf?_eq_some, newNameOf?_eq_some, targetsOf_flip, sourcesOf_flip, and_comm]

theorem mem_renamings_flip {p : String × String} :
    p ∈ renamings rule.flip new old ↔ p.swap ∈ renamings rule old new := by
  rw [mem_renamings, mem_renamings, newNameOf?_flip, Prod.fst_swap, Prod.snd_swap]
  constructor
  · intro hm
    obtain ⟨-, h⟩ := hm
    exact ⟨mem_of_newNameOf?_left h, h⟩
  · intro hm
    obtain ⟨-, h⟩ := hm
    exact ⟨mem_of_newNameOf? h, h⟩

/-- The names on one side of the renamings are those on the other side of the mirrored ones. -/
theorem mem_renamings_flip_fst {n : String} :
    n ∈ (renamings rule.flip new old).map (·.1) ↔ n ∈ (renamings rule old new).map (·.2) := by
  rw [List.mem_map, List.mem_map]
  constructor
  · intro hm
    obtain ⟨p, hp, h⟩ := hm
    exact ⟨p.swap, mem_renamings_flip.1 hp, h⟩
  · intro hm
    obtain ⟨p, hp, h⟩ := hm
    refine ⟨p.swap, mem_renamings_flip.2 ?_, h⟩
    rwa [Prod.swap_swap]

/-! ## Differences -/

/-- What is deleted in the one direction is created in the other. -/
theorem deleted_flip (rule : RenameRule) (old new : Signatures) :
    (diffSignatures rule.flip new old).deleted.map (·.name) =
      (diffSignatures rule old new).created.map (·.name) := by
  rw [deleted_names, created_names]
  refine List.filter_congr fun n _ => congrArg _ ?_
  rw [Bool.eq_iff_iff, List.contains_iff_mem, List.contains_iff_mem]
  exact mem_renamings_flip_fst

section
variable (hold : (old.map (·.1)).Nodup) (hnew : (new.map (·.1)).Nodup)
include hold hnew

theorem renamings_flip_perm (rule : RenameRule) :
    (renamings rule.flip new old).Perm ((renamings rule old new).map Prod.swap) := by
  have hflip : (renamings rule.flip new old).Nodup := (nodup_renamings_fst hnew).of_map _
  have hpairs : (renamings rule old new).Nodup := (nodup_renamings_fst hold).of_map _
  apply (List.perm_ext_iff_of_nodup hflip (hpairs.map Prod.swap_injective)).2
  intro p
  rw [mem_renamings_flip, List.mem_map]
  constructor
  · intro h
    exact ⟨p.swap, h, p.swap_swap⟩
  · intro hm
    obtain ⟨q, hq, h⟩ := hm
    rwa [← h, Prod.swap_swap]

theorem namesInBoth_comm : namesInBoth new old = namesInBoth old new := by
  apply sortTexts_eq_of_perm (sortTexts_sorted _)
  apply (List.perm_ext_iff_of_nodup (nodup_namesInBoth hnew) (hold.filter _)).2
  intro n
  rw [mem_namesInBoth, List.mem_filter, mem_names, mem_names, and_comm]

theorem changed_flip (rule rule' : RenameRule) :
    (diffSignatures rule' new old).changed.map (·.name) =
      (diffSignatures rule old new).changed.map (·.name) := by
  have hflip : RenameRule.flip Signature.changedTo = Signature.changedTo := by
    funext s t
    exact t.changedTo_comm s
  rw [changed_diff, changed_diff, namesInBoth_comm hold hnew]
  refine List.filter_congr fun n _ => ?_
  rw [← matchesUnder_flip, hflip]

theorem mirrors_flip (rule : RenameRule) :
    (diffSignatures rule.flip new old).Mirrors (diffSignatures rule old new) where
  deleted := deleted_flip rule old new
  created := (deleted_flip rule.flip new old).symm
  renamed := by
    rw [renamedPairs_diff, renamedPairs_diff]
    exact renamings_flip_perm hold hnew rule
  changed := changed_flip hold hnew rule rule.flip

/-- **Differences can be read backwards**: if the two versions change places, and the sides of the rule with
them, the difference is the mirror image. The rules that a configuration can name stay as they are. -/
theorem difference_mirrored :
    (∀ rule : RenameRule, (diffSignatures rule.flip new old).Mirrors (diffSignatures rule old new)) ∧
      ∀ m : RenameMatch, m.rule.flip = m.rule ∧
        (diffSignatures m.rule new old).Mirrors (diffSignatures m.rule old new) := by
  refine ⟨mirrors_flip hold hnew, fun m => ⟨m.flip_rule, ?_⟩⟩
  have h := mirrors_flip hold hnew m.rule
  rwa [m.flip_rule] at h

end

theorem words_mirrored :
    let d := diffSignatures RenameMatch.uid.rule formerWords laterWords
    ((formerWords.map (·.1)).Nodup ∧ (laterWords.map (·.1)).Nodup) ∧
      (diffSignatures RenameMatch.uid.rule laterWords formerWords).Mirrors d ∧
      d.renamedPairs = [("enter", "type")] ∧
      (diffSignatures RenameMatch.uid.rule laterWords formerWords).renamedPairs = [("type", "enter")] := by
  refine ⟨⟨by decide, by decide⟩, ?_, by decide +kernel, by decide +kernel⟩
  exact ((difference_mirrored (by decide) (by decide)).2 .uid).2

end Actionbook
