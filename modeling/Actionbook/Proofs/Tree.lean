import Actionbook.Proofs.Walks
import Mathlib.Data.List.Pairwise

/-!
# Trees

`Graph.Listed`: every node is the root or listed as a child, and only once in all. With children of
lower rank than their parents (`Graph.Tree`) this is all that makes a tree: `Tree.walk_perm` shows that
the walk from the root visits every node exactly once. In a tree the pre-order is `below`, the document
order by recursion on a depth; `below_perm` counts its visits by the nodes that list them.
-/

namespace Actionbook.Graph

variable {g : Graph} {root h k : Handle} {rank : Handle → Nat}

/-- Every node is the root or listed as a child, and only once in all. -/
def Listed (g : Graph) (root : Handle) : Prop := (root :: g.handles.flatMap g.kids).Perm g.handles

/-- What is in two of the lists that make up one without repetition is in the same list. -/
theorem eq_of_nodup_flatMap {f : Handle → List Handle} {l : List Handle} {p q : Handle}
    (hn : (l.flatMap f).Nodup) (hp : p ∈ l) (hq : q ∈ l) (hkp : k ∈ f p) (hkq : k ∈ f q) : p = q := by
  apply Classical.byContradiction
  intro hne
  have : Std.Symm (Function.onFun List.Disjoint f) := ⟨fun _ _ hxy _ hx hy => hxy hy hx⟩
  exact (List.nodup_flatMap.1 hn).2.forall hp hq hne hkp hkq

namespace Listed

theorem nodup (hl : g.Listed root) : (root :: g.handles.flatMap g.kids).Nodup :=
  hl.nodup_iff.2 g.nodup_handles

theorem root_mem (hl : g.Listed root) : root ∈ g.handles := hl.subset List.mem_cons_self

theorem root_not_mem (hl : g.Listed root) : root ∉ g.kids h := fun hm =>
  (List.nodup_cons.1 hl.nodup).1
    (List.mem_flatMap.2 ⟨h, mem_handles_of_mem_kids hm, hm⟩)

theorem kid_mem (hl : g.Listed root) (hk : k ∈ g.kids h) : k ∈ g.handles :=
  hl.subset (List.mem_cons_of_mem _ (List.mem_flatMap.2 ⟨h, mem_handles_of_mem_kids hk, hk⟩))

theorem nodup_kids (hl : g.Listed root) : (g.kids h).Nodup := by
  by_cases hh : h ∈ g.handles
  · exact (List.nodup_flatMap.1 (List.nodup_cons.1 hl.nodup).2).1 h hh
  · rw [kids_eq_nil hh]
    exact List.nodup_nil

/-- No two nodes list the same child. -/
theorem eq_of_mem {p q : Handle} (hl : g.Listed root) (hp : k ∈ g.kids p) (hq : k ∈ g.kids q) :
    p = q :=
  eq_of_nodup_flatMap (List.nodup_cons.1 hl.nodup).2 (mem_handles_of_mem_kids hp)
    (mem_handles_of_mem_kids hq) hp hq

/-- Different nodes list different children. -/
theorem nodup_flatMap {l : List Handle} (hl : g.Listed root) (hn : l.Nodup) :
    (l.flatMap g.kids).Nodup := by
  refine List.nodup_flatMap.2 ⟨fun h _ => hl.nodup_kids, hn.imp fun {a b} hne => ?_⟩
  exact fun k ha hb => hne (hl.eq_of_mem ha hb)

theorem exists_parent (hl : g.Listed root) (hk : k ∈ g.handles) (hr : k ≠ root) :
    ∃ p ∈ g.handles, k ∈ g.kids p := by
  rcases List.mem_cons.1 (hl.symm.subset hk) with rfl | hm
  · exact absurd rfl hr
  · simpa using hm

/-- How often nodes list a child. -/
theorem count_kids {p : Handle} (hl : g.Listed root) (hp : k ∈ g.kids p) (h : Handle) :
    (g.kids h).count k = if h = p then 1 else 0 := by
  split
  · rename_i e
    exact List.count_eq_one_of_mem hl.nodup_kids (e ▸ hp)
  · rename_i e
    exact List.count_eq_zero_of_not_mem fun hm => e (hl.eq_of_mem hm hp)

end Listed

/-- A tree: every node is listed once, and children have a lower rank than their parents. -/
structure Tree (g : Graph) (root : Handle) (rank : Handle → Nat) : Prop where
  listed : g.Listed root
  lower : ∀ h, ∀ k ∈ g.kids h, rank k < rank h
  open_ : ∀ h ∈ g.handles, g.childHandles h = .ok (g.kids h)

/-! ## Document order -/

/-- A node and what is below it on the next levels, in document order. -/
def below (g : Graph) : Nat → Handle → List Handle
  | 0, _ => []
  | n + 1, h => h :: (g.kids h).flatMap (g.below n)

/-- What only one of the lists has, and once, is there as often as that list is. -/
theorem count_flatMap_indicator {f : Handle → List Handle} {k p : Handle} (l : List Handle)
    (hf : ∀ h, (f h).count k = if h = p then 1 else 0) : (l.flatMap f).count k = l.count p := by
  induction l with
  | nil => rfl
  | cons h l ih =>
    rw [List.flatMap_cons, List.count_append, ih, hf, List.count_cons]
    by_cases e : h = p <;> simp [e, Nat.add_comm]

section
variable (ht : g.Tree root rank)
include ht

theorem Tree.kids_rank {n : Nat} (hr : rank h < n + 1) : ∀ k ∈ g.kids h, rank k < n := fun k hk => by
  have := ht.lower h k hk
  omega

/-- The children visited below a node are those of the nodes visited there. -/
theorem Tree.below_perm (n : Nat) (hr : rank h < n) :
    (g.below n h).Perm (h :: (g.below n h).flatMap g.kids) := by
  induction n generalizing h with
  | zero => omega
  | succ n ih =>
    -- children are visited as a list, so the induction goes over lists of them
    have step : ∀ l : List Handle, (∀ k ∈ l, rank k < n) →
        (l.flatMap (g.below n)).Perm (l ++ (l.flatMap (g.below n)).flatMap g.kids) := by
      intro l
      induction l with
      | nil => simp
      | cons k l ihl =>
        intro hl
        have h1 := ih (hl k List.mem_cons_self)
        have h2 := ihl fun j hj => hl j (List.mem_cons_of_mem _ hj)
        calc (g.below n k ++ l.flatMap (g.below n)).Perm
              (k :: (g.below n k).flatMap g.kids ++ (l ++ (l.flatMap (g.below n)).flatMap g.kids)) :=
              h1.append h2
          _ = k :: ((g.below n k).flatMap g.kids ++ l ++ (l.flatMap (g.below n)).flatMap g.kids) := by
              simp
          List.Perm _ (k :: (l ++ (g.below n k).flatMap g.kids ++
              (l.flatMap (g.below n)).flatMap g.kids)) :=
              (List.perm_append_comm.append_right _).cons k
          _ = k :: l ++ ((k :: l).flatMap (g.below n)).flatMap g.kids := by simp
    simp only [below, List.flatMap_cons]
    exact (step _ (ht.kids_rank hr)).cons h

theorem Tree.mem_of_mem_below (n : Nat) (hh : h ∈ g.handles) (hk : k ∈ g.below n h) :
    k ∈ g.handles := by
  induction n generalizing h with
  | zero => cases hk
  | succ n ih =>
    rcases List.mem_cons.1 hk with rfl | hk
    · exact hh
    · obtain ⟨c, hc, hkc⟩ := List.mem_flatMap.1 hk
      exact ih (ht.listed.kid_mem hc) hkc

/-- Below the root every node is visited once: as often as the node that lists it, by induction from
the root downwards. -/
theorem Tree.count_below (n : Nat) (hr : rank root < n) (hb : ∀ h ∈ g.handles, rank h ≤ rank root)
    (hk : k ∈ g.handles) : (g.below n root).count k = 1 := by
  have hperm := ht.below_perm n hr
  generalize hd : rank root - rank k = d
  induction d using Nat.strongRecOn generalizing k with
  | ind d ih =>
    rw [hperm.count_eq, List.count_cons]
    by_cases e : k = root
    · subst e
      have hnone : k ∉ (g.below n k).flatMap g.kids := fun hm => by
        obtain ⟨v, -, hv⟩ := List.mem_flatMap.1 hm
        exact ht.listed.root_not_mem hv
      rw [List.count_eq_zero_of_not_mem hnone]
      simp
    · obtain ⟨p, hp, hkp⟩ := ht.listed.exists_parent hk e
      have hlow := ht.lower p k hkp
      have hbp := hb p hp
      have hone := ih (rank root - rank p) (by omega) hp rfl
      rw [count_flatMap_indicator _ (ht.listed.count_kids hkp), hone]
      simp [Ne.symm e]

/-- Every node is below the root, once. -/
theorem Tree.below_root_perm (n : Nat) (hr : rank root < n)
    (hb : ∀ h ∈ g.handles, rank h ≤ rank root) : (g.below n root).Perm g.handles := by
  rw [List.perm_iff_count]
  intro k
  by_cases hk : k ∈ g.handles
  · rw [ht.count_below n hr hb hk, List.count_eq_one_of_mem g.nodup_handles hk]
  · rw [List.count_eq_zero_of_not_mem hk, List.count_eq_zero_of_not_mem]
    exact fun hm => hk (ht.mem_of_mem_below n ht.listed.root_mem hm)

/-! ## The walk -/

/-- In a tree, the nodes below a node in document order are its pre-order. -/
theorem Tree.preOrder_below (n : Nat) (hh : h ∈ g.handles) (hr : rank h < n) :
    g.PreOrder h (g.below n h) := by
  induction n generalizing h with
  | zero => omega
  | succ n ih =>
    exact .node (g.below n) (ht.open_ h hh) fun k hk => ih (ht.listed.kid_mem hk) (ht.kids_rank hr k hk)

/-- The walk from the root is the document order of a tree. -/
theorem Tree.walk_eq (hroot : g.root = some root) : g.walk = .ok (g.below (rank root + 1) root) :=
  (ht.preOrder_below _ ht.listed.root_mem (Nat.lt_succ_self _)).walk hroot

/-- The walk from the root visits every node once. -/
theorem Tree.walk_perm (hroot : g.root = some root) (hb : ∀ h ∈ g.handles, rank h ≤ rank root) :
    ∃ visits, g.walk = .ok visits ∧ visits.Perm g.handles :=
  ⟨_, ht.walk_eq hroot, ht.below_root_perm (rank root + 1) (by omega) hb⟩

/-- Where the nodes below a node come in ascending order, parents come before their children. -/
theorem Tree.lt_of_below_ascending (n : Nat) (hr : rank h < n)
    (hasc : (g.below n h).Pairwise (· < ·)) : ∀ p ∈ g.below n h, ∀ k ∈ g.kids p, p < k := by
  induction n generalizing h with
  | zero => omega
  | succ n ih =>
    obtain ⟨hfirst, hrest⟩ := List.pairwise_cons.1 hasc
    have hbranches := (List.pairwise_flatMap.1 hrest).1
    intro p hp k hk
    rcases List.mem_cons.1 hp with rfl | hp
    · have hdeep := ht.kids_rank hr k hk
      obtain ⟨m, rfl⟩ := Nat.exists_eq_succ_of_ne_zero (Nat.ne_zero_of_lt hdeep)
      exact hfirst k (List.mem_flatMap.2 ⟨k, hk, List.mem_cons_self⟩)
    · obtain ⟨c, hc, hpc⟩ := List.mem_flatMap.1 hp
      exact ih (ht.kids_rank hr c hc) (hbranches c hc) p hpc k hk

end

end Actionbook.Graph
