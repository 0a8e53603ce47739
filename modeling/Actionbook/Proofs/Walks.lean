import Actionbook.Proofs.Views
import Mathlib.Data.Finset.Card
import Mathlib.Logic.Relation

/-!
# Walks in any graph

The walk goes through a graph with a stack of nodes still to visit. `Graph.PreOrder` says without a stack what
it should find: a node, and after it what is found at its children, one after the other. Nodes may be listed by
several others, and are found as often.

* `walkLoop_singleton`: the loop, with no bound on its rounds, finds the pre-order.
* `walkable_iff_preOrder`: a node has a pre-order exactly if no node below it is missing or lies below itself.
* `PreOrder.walkFrom`: then the walk comes to the end of its stack before the bound on its visits.

For the last two, the nodes below a node are counted (`descendants`): children have fewer of them than their
parents, and a pre-order is not longer than the graph is broad to the power of that number.
-/

namespace Actionbook

namespace Graph

variable {g : Graph} {h k : Handle} {children stack visits found : List Handle}

/-- There is a way down from a node to another, from nodes to their children. -/
def Reaches (g : Graph) : Handle → Handle → Prop := Relation.ReflTransGen fun p k => k ∈ g.kids p

/-- All nodes at and below a node are there and have lists of children, and none of them lies below itself. -/
structure Walkable (g : Graph) (h : Handle) : Prop where
  present : ∀ k, g.Reaches h k → ∃ children, g.childHandles k = .ok children
  acyclic : ∀ k, g.Reaches h k → ¬ Relation.TransGen (fun p k => k ∈ g.kids p) k k

/-- The recursive pre-order: a node, and then the pre-orders of its children, one after the other. -/
inductive PreOrder (g : Graph) : Handle → List Handle → Prop
  | node {h : Handle} {children : List Handle} (order : Handle → List Handle) :
      g.childHandles h = .ok children → (∀ k ∈ children, PreOrder g k (order k)) →
      PreOrder g h (h :: children.flatMap order)

/-- The loop over a stack with no bound on its rounds, and what it visits until the stack is empty. -/
inductive WalkLoop (g : Graph) : List Handle → List Handle → Prop
  | ended : WalkLoop g [] []
  | round {h : Handle} {children stack visits : List Handle} : g.childHandles h = .ok children →
      WalkLoop g (children ++ stack) visits → WalkLoop g (h :: stack) (h :: visits)

/-! ## Children -/

theorem node?_of_childHandles (hc : g.childHandles h = .ok children) :
    ∃ n, g.node? h = some n ∧ n.content.children? = some children := by
  unfold childHandles node at hc
  cases hn : g.node? h with
  | none => simp [hn, bind, Except.bind] at hc
  | some n =>
    cases hl : n.content.children? with
    | none => simp [hn, hl, bind, Except.bind] at hc
    | some l => exact ⟨n, rfl, by simpa [hn, hl, bind, Except.bind, pure, Except.pure] using hc⟩

theorem kids_of_childHandles (hc : g.childHandles h = .ok children) : g.kids h = children := by
  obtain ⟨n, hn, hl⟩ := node?_of_childHandles hc
  simp [kids, content?, hn, hl]

theorem mem_handles_of_childHandles (hc : g.childHandles h = .ok children) : h ∈ g.handles := by
  obtain ⟨n, hn, -⟩ := node?_of_childHandles hc
  exact isSome_node?.1 (Option.isSome_of_eq_some hn)

/-- What a running maximum takes in, it is not less than. -/
theorem le_foldl_max {α : Type} (f : α → Nat) (l : List α) (n : Nat) :
    n ≤ l.foldl (fun m a => max m (f a)) n ∧ ∀ a ∈ l, f a ≤ l.foldl (fun m a => max m (f a)) n := by
  induction l generalizing n with
  | nil => exact ⟨Nat.le_refl n, nofun⟩
  | cons b l ih =>
    obtain ⟨hstart, hmem⟩ := ih (max n (f b))
    exact ⟨Nat.le_trans (Nat.le_max_left n _) hstart,
      List.forall_mem_cons.2 ⟨Nat.le_trans (Nat.le_max_right n _) hstart, hmem⟩⟩

theorem length_le_breadth (hc : g.childHandles h = .ok children) : children.length ≤ g.breadth := by
  obtain ⟨n, hn, hl⟩ := node?_of_childHandles hc
  have hmem : n ∈ g.nodes.toList := by
    unfold node? at hn
    split at hn
    · exact Array.mem_toList_iff.2 (Array.mem_of_getElem? hn)
    · cases hn
  have hle := (le_foldl_max (fun n : Node => (n.content.children?.getD []).length) _ 0).2 n hmem
  rw [hl, Option.getD_some, Array.foldl_toList] at hle
  exact hle

/-! ## The loop and the pre-order -/

theorem PreOrder.unique (hv : g.PreOrder h visits) (hf : g.PreOrder h found) : visits = found := by
  induction hv generalizing found with
  | node order hc _ ih =>
    cases hf with
    | node order' hc' horder' =>
      cases hc.symm.trans hc'
      exact congrArg (List.cons _) (List.flatMap_congr fun k hk => ih k hk (horder' k hk))

/-- Two stacks, one on the other, are gone through one after the other. -/
theorem WalkLoop.append {stack' found : List Handle} (hv : g.WalkLoop stack visits)
    (hf : g.WalkLoop stack' found) : g.WalkLoop (stack ++ stack') (visits ++ found) := by
  induction hv with
  | ended => exact hf
  | @round h children stack visits hc _ ih =>
    rw [List.append_assoc] at ih
    exact .round hc ih

theorem walkLoop_flatMap {order : Handle → List Handle}
    (h : ∀ k ∈ stack, g.WalkLoop [k] (order k)) : g.WalkLoop stack (stack.flatMap order) := by
  induction stack with
  | nil => exact .ended
  | cons k stack ih =>
    exact (h k List.mem_cons_self).append (ih fun j hj => h j (List.mem_cons_of_mem _ hj))

theorem PreOrder.walkLoop (hv : g.PreOrder h visits) : g.WalkLoop [h] visits := by
  induction hv with
  | node order hc _ ih => exact .round hc (by rw [List.append_nil]; exact walkLoop_flatMap ih)

/-- What the loop visits are the pre-orders of the nodes on the stack. The induction is on the rounds: the node
on top has its pre-order from its children, which are on the stack in the next round. -/
theorem WalkLoop.exists_preOrder (hv : g.WalkLoop stack visits) :
    ∃ order : Handle → List Handle, (∀ k ∈ stack, g.PreOrder k (order k)) ∧
      visits = stack.flatMap order := by
  induction hv with
  | ended => exact ⟨fun _ => [], nofun, rfl⟩
  | @round h children stack visits hc _ ih =>
    obtain ⟨order, horder, rfl⟩ := ih
    have hnode : g.PreOrder h (h :: children.flatMap order) :=
      .node order hc fun k hk => horder k (List.mem_append_left _ hk)
    -- the same node may be further down on the stack, with the pre-order that it has there
    have hagree : ∀ k ∈ stack, Function.update order h (h :: children.flatMap order) k = order k :=
      fun k hk => by
        by_cases e : k = h
        · subst e
          rw [Function.update_self]
          exact hnode.unique (horder k (List.mem_append_right _ hk))
        · exact Function.update_of_ne e _ _
    refine ⟨Function.update order h (h :: children.flatMap order), ?_, ?_⟩
    · refine List.forall_mem_cons.2 ⟨by rwa [Function.update_self], fun k hk => ?_⟩
      rw [hagree k hk]
      exact horder k (List.mem_append_right _ hk)
    · rw [List.flatMap_cons, Function.update_self, List.flatMap_congr hagree, List.flatMap_append]
      rfl

/-- **The loop finds the pre-order** of the node that it starts with, if it ends. -/
theorem walkLoop_singleton : g.WalkLoop [h] visits ↔ g.PreOrder h visits := by
  refine ⟨fun hv => ?_, PreOrder.walkLoop⟩
  obtain ⟨order, horder, rfl⟩ := hv.exists_preOrder
  rw [List.flatMap_singleton]
  exact horder h List.mem_cons_self

/-- The walk goes as far as the loop if it may make that many visits. -/
theorem WalkLoop.walkStack {fuel : Nat} (hv : g.WalkLoop stack visits) (hf : visits.length ≤ fuel) :
    g.walkStack fuel stack = .ok visits := by
  induction hv generalizing fuel with
  | ended => cases fuel <;> rfl
  | round hc _ ih =>
    obtain ⟨n, rfl⟩ := Nat.exists_eq_add_of_le' hf
    rw [List.length_cons, ← Nat.add_assoc, Graph.walkStack, hc]
    simp only [bind, Except.bind, ih (Nat.le_add_left _ n)]
    rfl

/-! ## Nodes below a node -/

theorem Walkable.of_mem_kids (hw : g.Walkable h) (hk : k ∈ g.kids h) : g.Walkable k :=
  ⟨fun j hj => hw.present j (hj.head hk), fun j hj => hw.acyclic j (hj.head hk)⟩

/-- A node has a pre-order only if all nodes below it are there and none lies below itself: by induction on the
pre-order, as what lies below a node is a child or below one. -/
theorem PreOrder.walkable (hv : g.PreOrder h visits) : g.Walkable h := by
  induction hv with
  | @node h children order hc _ ih =>
    have hkids := kids_of_childHandles hc
    refine ⟨fun k hk => ?present, fun k hk => ?acyclic⟩
    case present =>
      rcases hk.cases_head with rfl | ⟨c, hch, hck⟩
      · exact ⟨children, hc⟩
      · exact (ih c (hkids ▸ hch)).present k hck
    case acyclic =>
      rcases hk.cases_head with rfl | ⟨c, hch, hck⟩
      · -- a way from a node back to it leads through a child, which then lies below itself
        intro hcycle
        obtain ⟨c, hch, hback⟩ := Relation.TransGen.head'_iff.1 hcycle
        exact (ih c (hkids ▸ hch)).acyclic c .refl (Relation.TransGen.tail' hback hch)
      · exact (ih c (hkids ▸ hch)).acyclic k hck

open Classical in
/-- The nodes below a node. -/
noncomputable def descendants (g : Graph) (h : Handle) : Finset Handle :=
  g.handles.toFinset.filter fun k => Relation.TransGen (fun p k => k ∈ g.kids p) h k

theorem mem_descendants : k ∈ g.descendants h ↔
    k ∈ g.handles ∧ Relation.TransGen (fun p k => k ∈ g.kids p) h k := by
  classical
  unfold descendants
  rw [Finset.mem_filter, List.mem_toFinset]

theorem card_descendants_le (g : Graph) (h : Handle) : (g.descendants h).card ≤ g.size := by
  classical
  calc (g.descendants h).card ≤ g.handles.toFinset.card := Finset.card_filter_le _ _
    _ ≤ g.handles.length := List.toFinset_card_le _
    _ = g.size := by simp [handles]

/-- A child has fewer nodes below it than its parent, for which it is one itself. -/
theorem Walkable.card_descendants_lt (hw : g.Walkable h) (hk : k ∈ g.kids h) :
    (g.descendants k).card < (g.descendants h).card := by
  have hwk := hw.of_mem_kids hk
  obtain ⟨children, hc⟩ := hwk.present k .refl
  have hmem : k ∈ g.descendants h := mem_descendants.2 ⟨mem_handles_of_childHandles hc, .single hk⟩
  refine Finset.card_lt_card ⟨fun j hj => ?_, fun hsub => ?_⟩
  · obtain ⟨hj, hkj⟩ := mem_descendants.1 hj
    exact mem_descendants.2 ⟨hj, .head hk hkj⟩
  · exact hwk.acyclic k .refl (mem_descendants.1 (hsub hmem)).2

/-! ## The bound -/

theorem length_flatMap_le {order : Handle → List Handle} {n : Nat}
    (h : ∀ k ∈ children, (order k).length ≤ n) : (children.flatMap order).length ≤ children.length * n := by
  induction children with
  | nil => exact Nat.zero_le _
  | cons k children ih =>
    rw [List.flatMap_cons, List.length_append, List.length_cons, Nat.succ_mul, Nat.add_comm]
    exact Nat.add_le_add (ih fun j hj => h j (List.mem_cons_of_mem _ hj)) (h k List.mem_cons_self)

/-- A node has a pre-order, and the number of nodes below it bounds the number of levels of that. -/
theorem Walkable.exists_preOrder (hw : g.Walkable h) : ∃ visits, g.PreOrder h visits ∧
    visits.length ≤ Nat.pow (g.breadth + 1) ((g.descendants h).card + 1) := by
  induction hn : (g.descendants h).card using Nat.strongRecOn generalizing h with
  | ind n ih =>
    subst hn
    obtain ⟨children, hc⟩ := hw.present h .refl
    have hbelow : ∀ k ∈ children, ∃ visits, g.PreOrder k visits ∧
        visits.length ≤ Nat.pow (g.breadth + 1) (g.descendants h).card := fun k hk => by
      rw [← kids_of_childHandles hc] at hk
      have hlt := hw.card_descendants_lt hk
      obtain ⟨visits, hv, hlen⟩ := ih _ hlt (hw.of_mem_kids hk) rfl
      exact ⟨visits, hv, Nat.le_trans hlen (Nat.pow_le_pow_right (Nat.succ_pos _) hlt)⟩
    choose! order horder hlen using hbelow
    have hpos : 0 < Nat.pow (g.breadth + 1) (g.descendants h).card := Nat.pow_pos (Nat.succ_pos _)
    have hchildren := Nat.le_trans (length_flatMap_le hlen) (Nat.mul_le_mul_right _ (length_le_breadth hc))
    refine ⟨h :: children.flatMap order, .node order hc horder, ?_⟩
    calc (h :: children.flatMap order).length = (children.flatMap order).length + 1 := rfl
      _ ≤ g.breadth * Nat.pow (g.breadth + 1) (g.descendants h).card +
          Nat.pow (g.breadth + 1) (g.descendants h).card := Nat.add_le_add hchildren hpos
      _ = (g.breadth + 1) * Nat.pow (g.breadth + 1) (g.descendants h).card := (Nat.succ_mul _ _).symm
      _ = Nat.pow (g.breadth + 1) ((g.descendants h).card + 1) := Nat.pow_succ'.symm

/-- **A node has a pre-order exactly if** all nodes below it are there and none lies below itself. -/
theorem walkable_iff_preOrder : g.Walkable h ↔ ∃ visits, g.PreOrder h visits :=
  ⟨fun hw => hw.exists_preOrder.imp fun _ hv => hv.1, fun ⟨_, hv⟩ => hv.walkable⟩

theorem PreOrder.length_le_visitBound (hv : g.PreOrder h visits) : visits.length ≤ g.visitBound := by
  obtain ⟨found, hf, hlen⟩ := hv.walkable.exists_preOrder
  rw [hv.unique hf]
  have hcard := g.card_descendants_le h
  calc found.length ≤ Nat.pow (g.breadth + 1) ((g.descendants h).card + 1) := hlen
    _ ≤ Nat.pow (g.breadth + 2) ((g.descendants h).card + 1) := Nat.pow_le_pow_left (Nat.le_succ _) _
    _ ≤ Nat.pow (g.breadth + 2) (g.size + 2) := Nat.pow_le_pow_right (Nat.succ_pos _) (by omega)

/-- The walk visits the pre-order. -/
theorem PreOrder.walkFrom (hv : g.PreOrder h visits) : g.walkFrom h = .ok visits :=
  hv.walkLoop.walkStack hv.length_le_visitBound

theorem PreOrder.walk (hv : g.PreOrder h visits) (hroot : g.root = some h) : g.walk = .ok visits := by
  rw [Graph.walk, hroot]
  exact hv.walkFrom

end Graph

/-- **Walks are pre-orders.** In any graph, at any node below which (itself included) all nodes are there and
none lies below itself, the loop of the walk comes to an end, and the walk visits what the loop visits: the one
recursive pre-order of the node, with a node that several others list as often as it is listed. -/
theorem walks_are_pre_orders {g : Graph} {h : Handle} (hw : g.Walkable h) :
    ∃ visits, g.WalkLoop [h] visits ∧ g.walkFrom h = .ok visits ∧
      (g.root = some h → g.walk = .ok visits) ∧
      ∀ order, g.PreOrder h order ↔ order = visits := by
  obtain ⟨visits, hv⟩ := Graph.walkable_iff_preOrder.1 hw
  refine ⟨visits, hv.walkLoop, hv.walkFrom, hv.walk, fun order => ⟨fun ho => ho.unique hv, ?_⟩⟩
  rintro rfl
  exact hv

/-- A project with two scenarios that share a call, which the second one lists twice. -/
def sharing : Graph where
  nodes := #[
    { content := .project { name := "p", scenarios := [1, 2] } },
    { content := .scenario { name := "s", steps := [3] } },
    { content := .scenario { name := "t", steps := [3, 3] } },
    { content := .call { actionWord := "w", arguments := [4] } },
    { content := .argument {} }]
  root := some 0

theorem walkLoop_sharing : sharing.WalkLoop [0] [0, 1, 3, 4, 2, 3, 4, 3, 4] :=
  .round rfl (.round rfl (.round rfl (.round rfl (.round rfl (.round rfl (.round rfl (.round rfl
    (.round rfl .ended))))))))

theorem walk_of_sharing_is_pre_order : sharing.Walkable 0 ∧
    sharing.WalkLoop [0] [0, 1, 3, 4, 2, 3, 4, 3, 4] ∧
    sharing.walkFrom 0 = .ok [0, 1, 3, 4, 2, 3, 4, 3, 4] ∧
    sharing.walk = .ok [0, 1, 3, 4, 2, 3, 4, 3, 4] ∧
    ∀ order, sharing.PreOrder 0 order ↔ order = [0, 1, 3, 4, 2, 3, 4, 3, 4] := by
  have hpre := Graph.walkLoop_singleton.1 walkLoop_sharing
  have hw := hpre.walkable
  obtain ⟨visits, hloop, hfrom, hwalk, horder⟩ := walks_are_pre_orders hw
  obtain rfl := (horder _).1 hpre
  exact ⟨hw, hloop, hfrom, hwalk rfl, horder⟩

end Actionbook
