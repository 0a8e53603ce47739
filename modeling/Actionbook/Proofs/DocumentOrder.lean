import Actionbook.Proofs.Passes

/-!
# Document order

The graph of a design numbers its nodes as the document has them. What lies below the first node of a
block (`Graph.Holds`) is the block itself, handle after handle: this is shown for steps
(`Graph.below_step`), for definitions (`Graph.below_definition`) and then for the project
(`Design.below_root`). So the walk goes through the handles in ascending order, and a parent has a
smaller handle than its children (`nodes_in_document_order`).
-/

namespace Actionbook

open Work (Ensures)

namespace Graph

variable {g : Graph} {n : Nat} {l : List Content}

/-! ## Below a block -/

theorem kids_of_content? {h : Handle} {c : Content} (hc : g.content? h = some c) :
    g.kids h = c.kids := by
  simp [Graph.kids, hc, Content.kids]

/-- Nothing lies below nodes without children. -/
theorem below_leaves (depth : Nat) (hh : g.Holds n l) (hl : ∀ c ∈ l, c.kids = []) :
    (handlesFrom n l.length).flatMap (g.below (depth + 1)) = handlesFrom n l.length := by
  induction l generalizing n with
  | nil => rfl
  | cons c l ih =>
    obtain ⟨hc, hrest⟩ := holds_cons.1 hh
    have hleaf : g.below (depth + 1) n = [(n : Handle)] := by
      rw [below, kids_of_content? hc, hl c List.mem_cons_self, List.flatMap_nil]
    rw [List.length_cons, handlesFrom_succ, List.flatMap_cons, hleaf,
      ih hrest fun c hc => hl c (List.mem_cons_of_mem _ hc)]
    rfl

/-- What lies below parts that are laid out one after the other, if each of them covers its block. -/
theorem below_layOutAll {α : Type} {contents : Nat → α → List Content} {as : List α} {depth : Nat}
    (hh : g.Holds n (layOutAll contents n as).2)
    (hpart : ∀ (m : Nat) a, g.Holds m (contents m a) →
      g.below depth m = handlesFrom m (contents m a).length) :
    (layOutAll contents n as).1.flatMap (g.below depth) =
      handlesFrom n (layOutAll contents n as).2.length := by
  induction as generalizing n with
  | nil => rfl
  | cons a as ih =>
    obtain ⟨ha, hrest⟩ := holds_append.1 hh
    simp only [layOutAll, List.flatMap_cons, List.length_append, handlesFrom_add, hpart n a ha, ih hrest]

theorem below_step {s : WrittenStep} (depth : Nat) (hh : g.Holds n (s.contents n)) :
    g.below (depth + 2) n = handlesFrom n (s.contents n).length := by
  cases s with
  | plain key value =>
    obtain ⟨hc, -⟩ := holds_cons.1 hh
    rw [below, kids_of_content? hc]
    rfl
  | call actionWord keyword args =>
    obtain ⟨hc, hargs⟩ := holds_cons.1 hh
    have hleaves := below_leaves depth hargs (by
      intro c hc
      obtain ⟨a, -, rfl⟩ := List.mem_map.1 hc
      rfl)
    rw [List.length_map] at hleaves
    rw [below, kids_of_content? hc, WrittenStep.contents, List.length_cons, List.length_map,
      handlesFrom_succ]
    exact congrArg (List.cons (n : Handle)) hleaves

theorem below_definition {wrap : Definition → Content} (hwrap : ∀ d, (wrap d).definition? = some d)
    {d : WrittenDefinition} (depth : Nat) (hh : g.Holds n (d.contents wrap n)) :
    g.below (depth + 3) n = handlesFrom n (d.contents wrap n).length := by
  obtain ⟨hself, hrest⟩ := holds_cons.1 hh
  obtain ⟨hparams, hsteps⟩ := holds_append.1 hrest
  rw [List.length_map] at hsteps
  have hleaves := below_leaves (depth + 1) hparams (by
    intro c hc
    obtain ⟨p, -, rfl⟩ := List.mem_map.1 hc
    rfl)
  rw [List.length_map] at hleaves
  have hblocks := below_layOutAll hsteps fun m s hm => below_step depth hm
  rw [below, kids_of_content? hself, (content_of_definition? (hwrap _)).1, List.flatMap_append,
    hleaves, hblocks]
  simp only [WrittenDefinition.contents, List.cons_append, List.length_cons, List.length_append,
    List.length_map, handlesFrom_succ, handlesFrom_add]

end Graph

/-! ## The whole document -/

namespace Design

open Actionbook.Graph

variable (d : Design)

/-- All nodes lie below the project, in the order of their handles. -/
theorem below_root : d.graph.below 4 0 = d.graph.handles := by
  obtain ⟨hroot, hstories, hwords⟩ := d.holds_parts
  have hstories' := below_layOutAll hstories fun m s hm => below_definition (fun _ => rfl) 0 hm
  have hwords' := below_layOutAll hwords fun m w hm => below_definition (fun _ => rfl) 0 hm
  have hkids : (Content.project d.project).kids = d.storyBlock.1 ++ d.wordBlock.1 := rfl
  rw [below, kids_of_content? hroot, hkids, List.flatMap_append, handles_eq_handlesFrom, size_graph,
    contents_eq, List.length_cons, List.length_append, handlesFrom_succ, handlesFrom_add]
  exact congrArg (List.cons 0) (congrArg₂ (· ++ ·) hstories' hwords')

theorem exists_tree_graph : d.graph.Tree 0 d.graph.rank ∧ d.graph.rank 0 = 3 := by
  obtain ⟨r, p, hr, hp, ht, -⟩ := d.graph_sound.exists_tree
  cases hr
  exact ⟨ht, rank_eq (kind_eq hp)⟩

theorem walk_graph : d.graph.walk = .ok d.graph.handles := by
  obtain ⟨ht, hrank⟩ := d.exists_tree_graph
  rw [ht.walk_eq rfl, hrank, below_root]

/-- A node has a smaller handle than its children. -/
theorem lt_of_mem_kids {h k : Handle} (hk : k ∈ d.graph.kids h) : h < k := by
  obtain ⟨ht, hrank⟩ := d.exists_tree_graph
  have hascending : (d.graph.below 4 0).Pairwise (· < ·) := by
    rw [below_root, handles, List.pairwise_map]
    exact List.pairwise_lt_range.imp Int.ofNat_lt.2
  refine ht.lt_of_below_ascending 4 (by omega) hascending h ?_ k hk
  rw [below_root]
  exact mem_handles_of_mem_kids hk

end Design

/-- **The nodes of a document stand in document order.** The walk from the root goes through all handles
in ascending order, each once, and no node has a parent yet. Linking ends without a fault and changes
nothing but the parents: each node but the root gets the one node that lists it, which has a smaller
handle. -/
theorem nodes_in_document_order {text : String} {strict : Bool} {g : Graph}
    (hg : Design.readGraph text strict = .ok g) (r : Report) :
    g.root = some 0 ∧ g.walk = .ok (handlesFrom 0 g.size) ∧
      (∀ h n, g.node h = .ok n → n.parent = none) ∧
      Ensures linkParents ⟨g, r⟩ fun _ s => g.Relinked s.graph ∧ s.graph.ParentsAgree ∧
        ∀ h n p, s.graph.node h = .ok n → n.parent = some p → p < h := by
  obtain ⟨d, -, rfl⟩ := Design.exists_of_readGraph hg
  refine ⟨rfl, ?walk, fun h n hn => ?parent, ?link⟩
  case walk => rw [d.walk_graph, Graph.handles_eq_handlesFrom]
  case parent => rw [← Graph.parent?_of_node hn, d.parent?_graph]
  case link =>
    refine (Graph.ensures_linkParents d.graph_sound).mono ?_
    rintro - ⟨g', r'⟩ ⟨hfollows, hlinked, hrel⟩
    refine ⟨hrel, hfollows.sound.parentsAgree hlinked, fun h n p hn hp => ?_⟩
    have hkid := hfollows.sound.honest h p ((Graph.parent?_of_node hn).trans hp)
    rw [Graph.kids_congr (congrFun hrel.content p)] at hkid
    exact d.lt_of_mem_kids hkid

theorem nodes_of_sample_in_document_order :
    Design.readGraph Design.sampleText true = .ok Design.sample.graph ∧
      Design.sample.graph.root = some 0 ∧
      Design.sample.graph.walk = .ok (handlesFrom 0 Design.sample.graph.size) ∧
      (∀ h n, Design.sample.graph.node h = .ok n → n.parent = none) ∧
      Ensures linkParents ⟨Design.sample.graph, {}⟩ fun _ s =>
        Design.sample.graph.Relinked s.graph ∧ s.graph.ParentsAgree ∧
          ∀ h n p, s.graph.node h = .ok n → n.parent = some p → p < h :=
  ⟨Design.readGraph_sample, nodes_in_document_order Design.readGraph_sample {}⟩

end Actionbook
