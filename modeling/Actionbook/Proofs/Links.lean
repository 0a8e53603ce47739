import Actionbook.Proofs.Linking
import Actionbook.Proofs.Progress

/-!
# Linking a sound graph

In a sound graph all nodes are below the root, and no child is listed twice: linking ends without a
fault (`ensures_linkParents`) and every node is linked.
-/

namespace Actionbook

open Work (Ensures)

namespace Graph

variable {g g' : Graph} {root h k : Handle} {r : Report}

namespace Sound

variable (hs : g.Sound)
include hs

/-- Every node is below the root: by induction from the root downwards. -/
theorem reaches (hl : g.Listed root) (hk : k ∈ g.handles) : g.Reaches root k := by
  generalize hd : 3 - g.rank k = d
  induction d using Nat.strongRecOn generalizing k with
  | ind d ih =>
    by_cases e : k = root
    · exact e ▸ .refl
    · obtain ⟨q, hq, hkq⟩ := hl.exists_parent hk e
      have hlow := hs.lower q k hkq
      have hle := g.rank_le q
      exact (ih (3 - g.rank q) (by omega) hq rfl).tail hkq

theorem arena : ∃ root, g.Arena root ∧ g.root = some root ∧ g.Listed root := by
  obtain ⟨root, p, hp, hroot, hproject, -⟩ := hs.project_ok
  obtain ⟨root', p', hroot', -, hl⟩ := hs.rooted
  rw [hroot] at hroot'
  cases hroot'
  exact ⟨root, ⟨⟨p, hp⟩, fun h => hs.kind_ne_blank, fun h _ k hk => hl.kid_mem hk⟩, hroot, hl⟩

end Sound

theorem Listed.not_tangled (hl : g.Listed root) : ¬ g.Tangled root := by
  rintro ⟨p, -, hroot | htwice | ⟨q, -, hne, k, hkp, hkq⟩⟩
  · exact hl.root_not_mem hroot
  · exact htwice hl.nodup_kids
  · exact hne (hl.eq_of_mem hkq hkp)

/-- A parent that a node is linked to lists it. -/
theorem Hung.honest (hu : g.Hung root g') {p : Handle} (hp : g'.parent? k = some p) : k ∈ g.kids p := by
  by_cases hr : g.Reaches root k
  · have hne : k ≠ root := by
      rintro rfl
      rw [hu.top] at hp
      cases hp
    obtain ⟨q, hq, -, hcount, -⟩ := hu.inside k hr hne
    rw [hp] at hq
    cases hq
    exact List.count_pos_iff.1 (by omega)
  · rw [hu.outside k hr] at hp
    cases hp

/-- **Linking a sound graph** ends without a fault, and every node is linked to its parent. -/
theorem ensures_linkParents (hs : g.Sound) : Ensures linkParents ⟨g, r⟩ fun _ s =>
    g.Follows s.graph ∧ s.graph.Linked ∧ g.Relinked s.graph := by
  obtain ⟨root, ha, hroot, hl⟩ := hs.arena
  obtain ⟨out, hrun, -, hends⟩ := linkParents_outcome ha r
  cases hends with
  | tangled ht => exact absurd ht hl.not_tangled
  | @hung s _ hu =>
    have hres := hu.relinked.resembles
    have hlinked : s.graph.Linked := by
      intro k hk hne
      rw [hres.handles] at hk
      have hr : k ≠ root := fun e => hne (by rw [hu.relinked.root, hroot, e])
      obtain ⟨p, hp, -⟩ := hu.inside k (hs.reaches hl hk) hr
      exact ⟨p, hp⟩
    have hsound : s.graph.Sound := hres.sound hs fun k p hp => hu.honest hp
    exact ⟨(), s, hrun, ⟨hu.relinked.root, hres.fixed, hsound, fun _ => hlinked⟩, hlinked, hu.relinked⟩

/-! ## The report -/

theorem silent_linkChildren (p : Handle) (l reached stack : List Handle) :
    Work.Silent (linkChildren p l reached stack) := by
  induction l generalizing reached stack with
  | nil => exact .pure _
  | cons c l ih =>
    have hrest : Work.Silent (do
        let _ ← Work.read (·.node c)
        Work.change (·.setParent c (some p))
        linkChildren p l (c :: reached) (c :: stack)) :=
      .bind (.read _) fun _ => .bind (.change _) fun _ => ih _ _
    unfold linkChildren
    dsimp only
    split
    · exact .bind (.throw _) fun _ => hrest
    · exact hrest

theorem silent_linkStack (fuel : Nat) (reached stack : List Handle) :
    Work.Silent (linkStack fuel reached stack) := by
  induction fuel generalizing reached stack with
  | zero => exact .pure _
  | succ fuel ih =>
    cases stack with
    | nil => exact .pure _
    | cons h stack =>
      exact .bind (.read _) fun _ => .bind (silent_linkChildren h _ _ _) fun _ => ih _ _

/-- Linking reports nothing. -/
theorem silent_linkParents : Work.Silent linkParents :=
  .bind (.read _) fun _ => .bind (.change _) fun _ => .bind .get fun _ => silent_linkStack _ _ _

end Graph

end Actionbook
