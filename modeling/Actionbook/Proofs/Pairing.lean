import Actionbook.Proofs.Partition

/-!
# Which names are a renaming

A rule is any relation between old and new signatures. Seen from the names that only one version has
(`RenameRule.Takes`), two of them are told as a renaming if neither is taken with any other, and every pair
that is taken but not told is warned of.

The argument goes through the two lists that a difference makes of a rule, the new names for an old one and
the old names for a new one (`mem_targetsOf`, `mem_sourcesOf`). No name stands twice in them, so that a
list has one entry if the rule has one match (`eq_singleton_iff`).

* `ambiguity_founded`: there is no warning without a pair that is taken and not told.
* `renamings_exact`: the whole of it.
-/

namespace Actionbook

variable {rule : RenameRule} {old new : Signatures} {a b : String} {w : Warning}

/-- A rule takes a name that only the old version has and one that only the new version has for names of
one action word. -/
def RenameRule.Takes (rule : RenameRule) (old new : Signatures) (a b : String) : Prop :=
  ∃ s t, old.lookup a = some s ∧ new.lookup b = some t ∧ new.lookup a = none ∧ old.lookup b = none ∧
    rule s t = true

/-- The old and new names that are told as renamings. -/
def Diff.renamedPairs (d : Diff) : List (String × String) :=
  d.renamed.filterMap fun e => e.newName.map (e.name, ·)

/-- The renamings that are told are those that are clear, and what is not clear is warned of. -/
structure RenameRule.Settles (rule : RenameRule) (old new : Signatures) (d : Diff)
    (warnings : List Warning) : Prop where
  /-- Two names are a renaming if each is the only one that is taken with the other. -/
  renamed : ∀ a b, (a, b) ∈ d.renamedPairs ↔ rule.Takes old new a b ∧
    (∀ b', rule.Takes old new a b' → b' = b) ∧ ∀ a', rule.Takes old new a' b → a' = a
  /-- If two names are taken but no renaming, a warning has all that are taken with the old one. -/
  warned : ∀ a b, rule.Takes old new a b → (a, b) ∉ d.renamedPairs → ∃ candidates,
    { concern := .ambiguousTarget a candidates } ∈ warnings ∧ b ∈ candidates ∧
      ∀ n, n ∈ candidates ↔ rule.Takes old new a n
  /-- There are no other warnings. -/
  code : ∀ w ∈ warnings, w.concern.code = "AMBIGUOUS_RENAME"
  /-- There are none at all if all that is taken is a renaming, and only then. -/
  silent : warnings = [] ↔ ∀ a b, rule.Takes old new a b → (a, b) ∈ d.renamedPairs

/-! ## What a rule takes -/

theorem matchesUnder_eq_true : matchesUnder rule old new a b = true ↔
    ∃ s t, old.lookup a = some s ∧ new.lookup b = some t ∧ rule s t = true := by
  unfold matchesUnder
  constructor
  · intro h
    split at h
    · rename_i s t hs ht
      exact ⟨s, t, hs, ht, h⟩
    · cases h
  · intro hm
    obtain ⟨s, t, hs, ht, h⟩ := hm
    rw [hs, ht]
    exact h

theorem mem_namesOnlyIn_iff_lookup {these those : Signatures} {n : String} :
    n ∈ namesOnlyIn these those ↔ (∃ s, these.lookup n = some s) ∧ those.lookup n = none := by
  rw [mem_namesOnlyIn, mem_names, Option.isSome_iff_exists, lookup_eq_none_iff_not_mem]

theorem takes_iff : rule.Takes old new a b ↔
    a ∈ namesOnlyIn old new ∧ b ∈ namesOnlyIn new old ∧ matchesUnder rule old new a b = true := by
  rw [mem_namesOnlyIn_iff_lookup, mem_namesOnlyIn_iff_lookup, matchesUnder_eq_true]
  constructor
  · intro hm
    obtain ⟨s, t, hs, ht, ha, hb, h⟩ := hm
    exact ⟨⟨⟨s, hs⟩, ha⟩, ⟨⟨t, ht⟩, hb⟩, s, t, hs, ht, h⟩
  · intro hm
    obtain ⟨⟨-, ha⟩, ⟨-, hb⟩, s, t, hs, ht, h⟩ := hm
    exact ⟨s, t, hs, ht, ha, hb, h⟩

theorem mem_targetsOf (ha : a ∈ namesOnlyIn old new) :
    b ∈ targetsOf rule old new a ↔ rule.Takes old new a b := by
  rw [takes_iff, and_iff_right ha, targetsOf, List.mem_filter]

theorem mem_sourcesOf (hb : b ∈ namesOnlyIn new old) :
    a ∈ sourcesOf rule old new b ↔ rule.Takes old new a b := by
  rw [takes_iff, and_iff_right hb, sourcesOf, List.mem_filter]

/-! ## What is told -/

theorem renamedPairs_diff (rule : RenameRule) (old new : Signatures) :
    (diffSignatures rule old new).renamedPairs = renamings rule old new := by
  simp only [Diff.renamedPairs, diffSignatures, List.filterMap_map]
  exact List.filterMap_some

/-- What is taken but not told has an old name without a new one. -/
theorem newNameOf?_eq_none (h : rule.Takes old new a b) (hn : (a, b) ∉ renamings rule old new) :
    newNameOf? rule old new a = none := by
  have ha := (takes_iff.1 h).1
  cases hc : newNameOf? rule old new a with
  | none => rfl
  | some c =>
    -- the one match of the old name is the name that is taken with it
    have hb : b ∈ targetsOf rule old new a := (mem_targetsOf ha).2 h
    rw [(newNameOf?_eq_some.1 hc).1, List.mem_singleton] at hb
    subst hb
    exact absurd (mem_renamings.2 ⟨ha, hc⟩) hn

/-- What is told is taken with nothing else. -/
theorem mem_renamings_iff_takes (hold : (old.map (·.1)).Nodup) (hnew : (new.map (·.1)).Nodup) :
    (a, b) ∈ renamings rule old new ↔ rule.Takes old new a b ∧
      (∀ b', rule.Takes old new a b' → b' = b) ∧ ∀ a', rule.Takes old new a' b → a' = a := by
  have htargets : (targetsOf rule old new a).Nodup := (nodup_namesOnlyIn hnew).filter _
  have hsources : (sourcesOf rule old new b).Nodup := (nodup_namesOnlyIn hold).filter _
  rw [mem_renamings, newNameOf?_eq_some, eq_singleton_iff htargets, eq_singleton_iff hsources]
  constructor
  · intro hm
    obtain ⟨ha, ht, hs⟩ := hm
    have h : rule.Takes old new a b := (mem_targetsOf ha).1 ((ht b).2 rfl)
    have hb := (takes_iff.1 h).2.1
    refine ⟨h, fun b' hb' => ?_, fun a' ha' => ?_⟩
    · exact (ht b').1 ((mem_targetsOf ha).2 hb')
    · exact (hs a').1 ((mem_sourcesOf hb).2 ha')
  · intro hm
    obtain ⟨h, ht, hs⟩ := hm
    obtain ⟨ha, hb, -⟩ := takes_iff.1 h
    refine ⟨ha, fun n => ?_, fun n => ?_⟩
    · rw [mem_targetsOf ha]
      exact ⟨ht n, fun e => e ▸ h⟩
    · rw [mem_sourcesOf hb]
      exact ⟨hs n, fun e => e ▸ h⟩

/-! ## What is warned of -/

theorem ambiguousTarget_mem (h : rule.Takes old new a b) (hn : (a, b) ∉ renamings rule old new) :
    { concern := .ambiguousTarget a (targetsOf rule old new a) } ∈ ambiguities rule old new := by
  have ha := (takes_iff.1 h).1
  have hne : targetsOf rule old new a ≠ [] := List.ne_nil_of_mem ((mem_targetsOf ha).2 h)
  apply List.mem_append_left
  apply List.mem_filterMap.2
  refine ⟨a, ha, ?_⟩
  rw [newNameOf?_eq_none h hn, if_neg]
  simpa using hne

/-- A warning is about a pair that is taken and not told. -/
theorem ambiguity_founded (hw : w ∈ ambiguities rule old new) :
    w.concern.code = "AMBIGUOUS_RENAME" ∧
      ∃ a b, rule.Takes old new a b ∧ (a, b) ∉ renamings rule old new := by
  rcases List.mem_append.1 hw with hw | hw
  · obtain ⟨a, ha, hw⟩ := List.mem_filterMap.1 hw
    dsimp only at hw
    split at hw
    · cases hw
    · rename_i hc
      cases hw
      simp only [Bool.or_eq_true, List.isEmpty_iff, not_or] at hc
      obtain ⟨b, hb⟩ := List.exists_mem_of_ne_nil _ hc.1
      refine ⟨rfl, a, b, (mem_targetsOf ha).1 hb, fun hm => hc.2 ?_⟩
      rw [(mem_renamings.1 hm).2]
      rfl
  · obtain ⟨b, hb, hw⟩ := List.mem_filterMap.1 hw
    dsimp only at hw
    split at hw
    · cases hw
    · rename_i hc
      cases hw
      simp only [Bool.or_eq_true, List.contains_iff_mem, decide_eq_true_eq, not_or] at hc
      obtain ⟨a, ha⟩ := List.exists_mem_of_length_pos (l := sourcesOf rule old new b) (by omega)
      -- the new name would count as taken if it were told with any old one
      refine ⟨rfl, a, b, (mem_sourcesOf hb).1 ha, fun hm => hc.1 ?_⟩
      exact List.mem_filterMap.2 ⟨a, mem_renamings.1 hm⟩

/-- **Renamings are exact**: whatever a rule takes for one action word, the renamings that are told are those
between names that are taken with nothing else, and all else that is taken is warned of. -/
theorem renamings_exact (hold : (old.map (·.1)).Nodup) (hnew : (new.map (·.1)).Nodup)
    (rule : RenameRule) :
    rule.Settles old new (diffSignatures rule old new) (ambiguities rule old new) where
  renamed a b := by
    rw [renamedPairs_diff]
    exact mem_renamings_iff_takes hold hnew
  warned a b h hn := by
    rw [renamedPairs_diff] at hn
    have ha := (takes_iff.1 h).1
    exact ⟨_, ambiguousTarget_mem h hn, (mem_targetsOf ha).2 h, fun n => mem_targetsOf ha⟩
  code w hw := (ambiguity_founded hw).1
  silent := by
    rw [renamedPairs_diff]
    constructor
    · intro hnil a b h
      by_contra hn
      have hw := ambiguousTarget_mem h hn
      rw [hnil] at hw
      cases hw
    · intro hall
      apply List.eq_nil_iff_forall_not_mem.2
      intro w hw
      obtain ⟨-, a, b, h, hn⟩ := ambiguity_founded hw
      exact hn (hall a b h)

/-- Two words with one identity each, and two that share one. -/
def doubtfulWords : Signatures :=
  [("enter", { name := "enter", uid := some "1" }), ("close", { name := "close", uid := some "2" }),
    ("shut", { name := "shut", uid := some "2" })]

/-- The same words later: the shared identity has one word left. -/
def laterDoubtfulWords : Signatures :=
  [("type", { name := "type", uid := some "1" }), ("leave", { name := "leave", uid := some "2" })]

theorem doubtful_words_settled :
    let rule := RenameMatch.uid.rule
    let d := diffSignatures rule doubtfulWords laterDoubtfulWords
    ((doubtfulWords.map (·.1)).Nodup ∧ (laterDoubtfulWords.map (·.1)).Nodup) ∧
      rule.Settles doubtfulWords laterDoubtfulWords d (ambiguities rule doubtfulWords laterDoubtfulWords) ∧
      d.renamedPairs = [("enter", "type")] ∧
      (ambiguities rule doubtfulWords laterDoubtfulWords).map (·.concern) =
        [.ambiguousTarget "close" ["leave"], .ambiguousTarget "shut" ["leave"],
          .ambiguousSource "leave" ["close", "shut"]] := by
  refine ⟨⟨by decide, by decide⟩, ?_, by decide +kernel, by rfl⟩
  exact renamings_exact (by decide) (by decide) RenameMatch.uid.rule

end Actionbook
