import Actionbook.Proofs.Sound
import Actionbook.Proofs.Reports

/-!
# Linking any graph

Linking goes down from the root with a stack of nodes whose children are still to be linked. It is asked
of any graph here, with nodes that several others list and with nodes below themselves. The invariant of
its loop is `Graph.Linking g root done reached stack g'`: `done` are the nodes whose children have been
linked, the nodes reached are the root and those children, and they are the nodes done and those on the
stack.

A child that has been reached before is the root or the child of a node done, which is not the node on
top of the stack; so the loop stops at a tangle only. When it ends, what is done is closed under
children, so that every node below the root has been looked at and no tangle can have been missed.

* `linkParents_outcome`: the loop comes to an end, by a fault if there is a tangle below the root, with
  every node below the root hanging from it if not.
* `linkParents_decides_tree`: the same as an equivalence.
-/

namespace Actionbook

open Work (Ensures Stops)

namespace Graph

variable {g g' g'' : Graph} {root h k : Handle} {r : Report} {done reached stack l : List Handle}

/-! ## Below the root -/

/-- Some node below the root is listed twice: the root is the child of a node, a node lists a child
twice, or two nodes list one child. -/
def Tangled (g : Graph) (root : Handle) : Prop :=
  ∃ p, g.Reaches root p ∧ (root ∈ g.kids p ∨ ¬ (g.kids p).Nodup ∨
    ∃ q, g.Reaches root q ∧ q ≠ p ∧ ∃ k ∈ g.kids p, k ∈ g.kids q)

/-- A graph to be linked: its root is a project, no node is blank, and the children of nodes are there.
Nodes may have any number of parents, and may be below themselves. -/
structure Arena (g : Graph) (root : Handle) : Prop where
  project : ∃ p, g.project = .ok (root, p)
  kinds : ∀ h ∈ g.handles, g.kind? h ≠ some .blank
  present : ∀ h ∈ g.handles, ∀ k ∈ g.kids h, k ∈ g.handles

theorem root_eq_of_project {p : Project} (hp : g.project = .ok (root, p)) : g.root = some root := by
  unfold project at hp
  cases hr : g.root with
  | none => simp [hr] at hp
  | some h =>
    simp only [hr, bind, Except.bind] at hp
    split at hp
    · cases hp
    · cases hp
      rfl

/-- A project is read at a node that is there. -/
theorem mem_handles_of_project {p : Project} (hp : g.project = .ok (root, p)) : root ∈ g.handles := by
  have hroot := root_eq_of_project hp
  refine isSome_node?.1 (Option.isSome_iff_ne_none.2 fun hnone => ?_)
  simp [project, hroot, get, node, hnone, bind, Except.bind] at hp

namespace Arena

variable (ha : g.Arena root)
include ha

theorem root_mem : root ∈ g.handles := ha.project.elim fun _ hp => mem_handles_of_project hp

theorem childHandles_ok (hh : h ∈ g.handles) : g.childHandles h = .ok (g.kids h) :=
  childHandles_of_kind hh (ha.kinds h hh)

theorem mem_of_reaches (hr : g.Reaches root h) : h ∈ g.handles := by
  induction hr with
  | refl => exact ha.root_mem
  | tail _ hk ih => exact ha.present _ ih _ hk

end Arena

/-! ## Writing links -/

theorem node?_unlinked : g.unlinked.node? k = (g.node? k).map fun n => { n with parent := none } := by
  unfold node?
  split
  · simp [unlinked]
  · rfl

theorem content?_unlinked : g.unlinked.content? = g.content? := by
  funext k
  unfold content?
  rw [node?_unlinked]
  cases g.node? k <;> rfl

theorem parent?_unlinked : g.unlinked.parent? k = none := by
  unfold parent?
  rw [node?_unlinked]
  cases g.node? k <;> rfl

theorem childHandles_congr (hc : g'.content? h = g.content? h) :
    g'.childHandles h = g.childHandles h := by
  cases hh : g.content? h with
  | some c => simp only [childHandles, node_ok hh, node_ok (hc.trans hh), bind, Except.bind]
  | none =>
    have none_of : ∀ x : Graph, x.content? h = none → x.node h = .error (.unknownHandle h) := by
      intro x hx
      simp only [content?, Option.map_eq_none_iff] at hx
      simp [node, hx]
    simp only [childHandles, none_of g hh, none_of g' (hc.trans hh), bind, Except.bind]

/-- Only parent links have changed. -/
structure Relinked (g g' : Graph) : Prop where
  root : g'.root = g.root
  size : g'.size = g.size
  content : g'.content? = g.content?

theorem Relinked.trans (hr : g.Relinked g') (hr' : g'.Relinked g'') : g.Relinked g'' :=
  ⟨hr'.root.trans hr.root, hr'.size.trans hr.size, hr'.content.trans hr.content⟩

theorem Relinked.resembles (hr : g.Relinked g') : g.Resembles g' :=
  ⟨hr.root, hr.size, fun k => by rw [hr.content]⟩

theorem relinked_setParent {p : Option Handle} : g.Relinked (g.setParent h p) :=
  ⟨root_setParent, size_setParent, content?_setParent⟩

theorem relinked_unlinked : g.Relinked g.unlinked :=
  ⟨rfl, by simp [size, unlinked], content?_unlinked⟩

/-- What linking leaves: the nodes below the root are linked to the one node among them that lists them,
once, so that they lead back to the root, and no other node is linked. -/
structure Hung (g : Graph) (root : Handle) (g' : Graph) : Prop where
  relinked : g.Relinked g'
  top : g'.parent? root = none
  outside : ∀ h, ¬ g.Reaches root h → g'.parent? h = none
  inside : ∀ h, g.Reaches root h → h ≠ root → ∃ p, g'.parent? h = some p ∧ g.Reaches root p ∧
    (g.kids p).count h = 1 ∧ ∀ q, g.Reaches root q → h ∈ g.kids q → q = p
  upward : ∀ h, g.Reaches root h → Relation.ReflTransGen (fun k p => g'.parent? k = some p) h root

/-! ## One round -/

/-- The children of a node are linked to it, one after the other. -/
theorem ensures_linkChildren {p : Handle} (hn : l.Nodup) (hnew : ∀ k ∈ l, k ∉ reached)
    (hh : ∀ k ∈ l, k ∈ g.handles) :
    Ensures (linkChildren p l reached stack) ⟨g, r⟩ fun out s =>
      out = (l.reverse ++ reached, l.reverse ++ stack) ∧ g.Relinked s.graph ∧
      ∀ k, s.graph.parent? k = if k ∈ l then some p else g.parent? k := by
  induction l generalizing g reached stack with
  | nil => exact Work.ensures_pure.2 ⟨rfl, ⟨rfl, rfl, rfl⟩, fun k => by simp⟩
  | cons c l ih =>
    obtain ⟨hnot, hn⟩ := List.nodup_cons.1 hn
    have hc := hh c List.mem_cons_self
    obtain ⟨content, hcontent⟩ := content?_of_mem hc
    have hfree : reached.contains c = false := by simpa using hnew c List.mem_cons_self
    unfold linkChildren
    simp only [hfree, Bool.false_eq_true, if_false, Work.ensures_bind,
      Work.ensures_read, Work.ensures_change]
    refine ⟨_, node_ok hcontent, ?_⟩
    refine (ih hn (fun k hk => ?_) fun k hk => ?_).mono ?_
    · rw [List.mem_cons, not_or]
      exact ⟨fun e => hnot (e ▸ hk), hnew k (List.mem_cons_of_mem _ hk)⟩
    · rw [handles_setParent]
      exact hh k (List.mem_cons_of_mem _ hk)
    · rintro out s ⟨rfl, hrel, hpar⟩
      refine ⟨by simp, relinked_setParent.trans hrel, fun k => ?_⟩
      rw [hpar, parent?_setParent hc]
      by_cases e : k = c
      · simp [e]
      · simp [e]

/-- A child that has been reached, be it just before, stops the round. -/
theorem stops_linkChildren {p : Handle} (htwice : ¬ (l.Nodup ∧ ∀ k ∈ l, k ∉ reached))
    (hh : ∀ k ∈ l, k ∈ g.handles) :
    Stops (linkChildren p l reached stack) ⟨g, r⟩ fun e _ => ∃ c ∈ l, e = .cycle c p := by
  induction l generalizing g reached stack with
  | nil => exact absurd ⟨List.nodup_nil, nofun⟩ htwice
  | cons c l ih =>
    unfold linkChildren
    dsimp only
    by_cases hc : c ∈ reached
    · rw [if_pos (by simpa using hc)]
      exact ⟨_, _, rfl, c, List.mem_cons_self, rfl⟩
    · rw [if_neg (by simpa using hc)]
      have hrest : ¬ (l.Nodup ∧ ∀ k ∈ l, k ∉ c :: reached) := by
        rintro ⟨hn, hnew⟩
        simp only [List.mem_cons, not_or] at hnew
        exact htwice ⟨List.nodup_cons.2 ⟨fun hm => (hnew c hm).1 rfl, hn⟩,
          List.forall_mem_cons.2 ⟨hc, fun k hk => (hnew k hk).2⟩⟩
      obtain ⟨content, hcontent⟩ := content?_of_mem (hh c List.mem_cons_self)
      refine .bind (Work.ensures_read.2 ⟨_, node_ok hcontent, .bind (Work.ensures_change.2 ?_)⟩)
      have hthere : ∀ k ∈ l, k ∈ (g.setParent c (some p)).handles := fun k hk => by
        rw [handles_setParent]
        exact hh k (List.mem_cons_of_mem _ hk)
      obtain ⟨e, s, hr, d, hd, he⟩ := @ih (g.setParent c (some p)) _ (c :: stack) hrest hthere
      exact ⟨e, s, hr, d, List.mem_cons_of_mem _ hd, he⟩

/-! ## The loop -/

/-- The invariant of linking (module doc). -/
structure Linking (g : Graph) (root : Handle) (done reached stack : List Handle) (g' : Graph) :
    Prop where
  relinked : g.Relinked g'
  handled : (done ++ stack).Perm reached
  listed : (root :: done.flatMap g.kids).Perm reached
  fresh : reached.Nodup
  below : ∀ h ∈ reached, g.Reaches root h
  parent : ∀ k p, g'.parent? k = some p ↔ p ∈ done ∧ k ∈ g.kids p

theorem linking_unlinked : g.Linking root [] [root] [root] g.unlinked where
  relinked := relinked_unlinked
  handled := .refl _
  listed := .refl _
  fresh := List.nodup_singleton root
  below h hh := List.mem_singleton.1 hh ▸ .refl
  parent k p := by simp [parent?_unlinked]

namespace Linking

theorem mem_reached (hi : g.Linking root done reached stack g') :
    k ∈ reached ↔ k = root ∨ ∃ p ∈ done, k ∈ g.kids p := by
  rw [← hi.listed.mem_iff, List.mem_cons, List.mem_flatMap]

theorem reaches_done (hi : g.Linking root done reached stack g') (hh : h ∈ done) : g.Reaches root h :=
  hi.below h (hi.handled.subset (List.mem_append_left _ hh))

/-- The node on top of the stack. -/
theorem reaches_top (hi : g.Linking root done reached (h :: stack) g') : g.Reaches root h :=
  hi.below h (hi.handled.subset (List.mem_append_right _ List.mem_cons_self))

/-- The node on top of the stack is not done. -/
theorem top_not_done (hi : g.Linking root done reached (h :: stack) g') : h ∉ done := fun hm =>
  (List.nodup_append.1 (hi.handled.nodup_iff.2 hi.fresh)).2.2 h hm h List.mem_cons_self rfl

/-- One round: the children of the node on top of the stack take its place. -/
theorem round (hi : g.Linking root done reached (h :: stack) g') (hn : (g.kids h).Nodup)
    (hnew : ∀ k ∈ g.kids h, k ∉ reached) (hrel : g'.Relinked g'')
    (hpar : ∀ k, g''.parent? k = if k ∈ g.kids h then some h else g'.parent? k) :
    g.Linking root (h :: done) ((g.kids h).reverse ++ reached) ((g.kids h).reverse ++ stack) g'' where
  relinked := hi.relinked.trans hrel
  handled := by
    refine List.perm_iff_count.2 fun a => ?_
    have := hi.handled.count_eq a
    simp only [List.cons_append, List.count_append, List.count_cons, List.count_reverse] at this ⊢
    omega
  listed := by
    refine List.perm_iff_count.2 fun a => ?_
    have := hi.listed.count_eq a
    simp only [List.flatMap_cons, List.count_append, List.count_cons, List.count_reverse] at this ⊢
    omega
  fresh := List.nodup_append.2 ⟨List.nodup_reverse.2 hn, hi.fresh,
    fun a ha b hb e => hnew a (List.mem_reverse.1 ha) (e ▸ hb)⟩
  below k hk := by
    rcases List.mem_append.1 hk with hk | hk
    · exact hi.reaches_top.tail (List.mem_reverse.1 hk)
    · exact hi.below k hk
  parent k p := by
    rw [hpar, List.mem_cons]
    split
    · rename_i hk
      constructor
      · rintro ⟨⟩
        exact ⟨.inl rfl, hk⟩
      · rintro ⟨rfl | hp, hkp⟩
        · rfl
        · exact absurd (hi.mem_reached.2 (.inr ⟨p, hp, hkp⟩)) (hnew k hk)
    · rename_i hk
      rw [hi.parent]
      constructor
      · exact fun ⟨hp, hkp⟩ => ⟨.inr hp, hkp⟩
      · rintro ⟨rfl | hp, hkp⟩
        · exact absurd hkp hk
        · exact ⟨hp, hkp⟩

/-- A child of the node on top of the stack that has been reached, or is listed again, is a tangle. -/
theorem tangled (hi : g.Linking root done reached (h :: stack) g')
    (htwice : ¬ ((g.kids h).Nodup ∧ ∀ k ∈ g.kids h, k ∉ reached)) : g.Tangled root := by
  refine ⟨h, hi.reaches_top, ?_⟩
  by_cases hn : (g.kids h).Nodup
  · simp only [hn, true_and, not_forall, not_not] at htwice
    obtain ⟨k, hk, hreached⟩ := htwice
    rcases hi.mem_reached.1 hreached with rfl | ⟨q, hq, hkq⟩
    · exact .inl hk
    · have hne : q ≠ h := fun e => hi.top_not_done (e ▸ hq)
      exact .inr (.inr ⟨q, hi.reaches_done hq, hne, k, hk, hkq⟩)
  · exact .inr (.inl hn)

/-- At the end all nodes below the root are done: they are closed under children. -/
theorem mem_done_iff (hi : g.Linking root done reached [] g') : h ∈ done ↔ g.Reaches root h := by
  have hdone : ∀ k, k ∈ done ↔ k ∈ reached := fun k => by
    rw [← hi.handled.mem_iff, List.append_nil]
  refine ⟨hi.reaches_done, fun hr => ?_⟩
  induction hr with
  | refl => exact (hdone root).2 (hi.mem_reached.2 (.inl rfl))
  | tail _ hk ih => exact (hdone _).2 (hi.mem_reached.2 (.inr ⟨_, ih, hk⟩))

/-- Nodes done list no child twice in all, and not the root. -/
theorem nodup_listed (hi : g.Linking root done reached stack g') :
    (root :: done.flatMap g.kids).Nodup := hi.listed.nodup_iff.2 hi.fresh

theorem not_tangled (hi : g.Linking root done reached [] g') : ¬ g.Tangled root := by
  obtain ⟨hnot, hn⟩ := List.nodup_cons.1 hi.nodup_listed
  rintro ⟨p, hp, hroot | htwice | ⟨q, hq, hne, k, hkp, hkq⟩⟩
  · exact hnot (List.mem_flatMap.2 ⟨p, hi.mem_done_iff.2 hp, hroot⟩)
  · exact htwice ((List.nodup_flatMap.1 hn).1 p (hi.mem_done_iff.2 hp))
  · exact hne (eq_of_nodup_flatMap hn (hi.mem_done_iff.2 hq) (hi.mem_done_iff.2 hp) hkq hkp)

/-- At the end the nodes below the root hang from it. -/
theorem hung (hi : g.Linking root done reached [] g') : g.Hung root g' where
  relinked := hi.relinked
  top := by
    refine Option.eq_none_iff_forall_ne_some.2 fun p hp => ?_
    obtain ⟨hdone, hk⟩ := (hi.parent root p).1 hp
    exact (List.nodup_cons.1 hi.nodup_listed).1 (List.mem_flatMap.2 ⟨p, hdone, hk⟩)
  outside h hno := by
    refine Option.eq_none_iff_forall_ne_some.2 fun p hp => hno ?_
    obtain ⟨hdone, hk⟩ := (hi.parent h p).1 hp
    exact (hi.reaches_done hdone).tail hk
  inside h hr hne := by
    have hreached : h ∈ reached := by
      rw [← hi.handled.mem_iff, List.append_nil]
      exact hi.mem_done_iff.2 hr
    obtain ⟨p, hp, hk⟩ := (hi.mem_reached.1 hreached).resolve_left hne
    have hparent := (hi.parent h p).2 ⟨hp, hk⟩
    have hkids := (List.nodup_flatMap.1 (List.nodup_cons.1 hi.nodup_listed).2).1 p hp
    refine ⟨p, hparent, hi.reaches_done hp, List.count_eq_one_of_mem hkids hk, fun q hq hkq => ?_⟩
    have := (hi.parent h q).2 ⟨hi.mem_done_iff.2 hq, hkq⟩
    rw [hparent] at this
    exact (Option.some.inj this).symm
  upward h hr := by
    induction hr with
    | refl => exact .refl
    | tail hp hk ih => exact .head ((hi.parent _ _).2 ⟨hi.mem_done_iff.2 hp, hk⟩) ih

end Linking

/-- What is done with the node on top of the stack. -/
def linkRound (h : Handle) (reached stack : List Handle) : Work (List Handle × List Handle) := do
  linkChildren h (← Work.read (·.childHandles h)) reached stack

/-- The loop with no bound on its rounds: it ends when the stack is empty or a round stops. -/
inductive LinkLoop :
    List Handle × List Handle → Workspace → Except Fault Unit × Workspace → Prop
  | ended {reached : List Handle} {s : Workspace} : LinkLoop (reached, []) s (.ok (), s)
  | stopped {reached stack : List Handle} {h : Handle} {s t : Workspace} {e : Fault} :
      (linkRound h reached stack).run.run s = (.error e, t) →
      LinkLoop (reached, h :: stack) s (.error e, t)
  | round {reached stack : List Handle} {h : Handle} {s t : Workspace}
      {next : List Handle × List Handle} {out : Except Fault Unit × Workspace} :
      (linkRound h reached stack).run.run s = (.ok next, t) → LinkLoop next t out →
      LinkLoop (reached, h :: stack) s out

theorem linkStack_cons {fuel : Nat} : linkStack (fuel + 1) reached (h :: stack) =
    linkRound h reached stack >>= fun next => linkStack fuel next.1 next.2 := by
  rw [linkStack, linkRound, bind_assoc]

/-- How linking ends: with the nodes below the root hanging from it, or at a tangle. -/
inductive LinkOutcome (g : Graph) (root : Handle) : Except Fault Unit × Workspace → Prop
  | hung {s : Workspace} : ¬ g.Tangled root → g.Hung root s.graph → LinkOutcome g root (.ok (), s)
  | tangled {child parent : Handle} {s : Workspace} :
      g.Tangled root → g.Reaches root parent → child ∈ g.kids parent →
      LinkOutcome g root (.error (.cycle child parent), s)

/-- The loop ends before its bound is reached: in every round another node is done. -/
theorem linkStack_outcome (ha : g.Arena root) {fuel : Nat}
    (hi : g.Linking root done reached stack g') (hfuel : g.size < fuel + done.length) :
    ∃ out, (linkStack fuel reached stack).run.run ⟨g', r⟩ = out ∧
      LinkLoop (reached, stack) ⟨g', r⟩ out ∧ LinkOutcome g root out := by
  induction fuel generalizing done reached stack g' r with
  | zero =>
    have hthere : ∀ k ∈ done, k ∈ g.handles := fun k hk => ha.mem_of_reaches (hi.reaches_done hk)
    have hnodup : done.Nodup := (List.nodup_append.1 (hi.handled.nodup_iff.2 hi.fresh)).1
    have hle : done.length ≤ g.handles.length := (List.subperm_of_subset hnodup hthere).length_le
    have hlen : g.handles.length = g.size := by simp [handles]
    omega
  | succ fuel ih =>
    cases stack with
    | nil => exact ⟨_, rfl, .ended, .hung hi.not_tangled hi.hung⟩
    | cons h stack =>
      have hh := ha.mem_of_reaches hi.reaches_top
      have hchildren : g'.childHandles h = .ok (g.kids h) := by
        rw [childHandles_congr (congrFun hi.relinked.content h), ha.childHandles_ok hh]
      have hthere : ∀ k ∈ g.kids h, k ∈ g'.handles := fun k hk => by
        rw [hi.relinked.resembles.handles]
        exact ha.present h hh k hk
      rw [linkStack_cons]
      by_cases hfresh : (g.kids h).Nodup ∧ ∀ k ∈ g.kids h, k ∉ reached
      · have hround : Ensures (linkRound h reached stack) ⟨g', r⟩ _ := Work.ensures_bind.2
          (Work.ensures_read.2 ⟨_, hchildren, ensures_linkChildren hfresh.1 hfresh.2 hthere⟩)
        obtain ⟨next, ⟨g'', r''⟩, hrun, rfl, hrel, hpar⟩ := hround
        have hlinking := hi.round hfresh.1 hfresh.2 hrel hpar
        obtain ⟨out, hout, hloop, houtcome⟩ := ih (r := r'') hlinking
          (by rw [List.length_cons]; omega)
        exact ⟨out, (Work.run_bind_of_ok hrun).trans hout, .round hrun hloop, houtcome⟩
      · have hround : Stops (linkRound h reached stack) ⟨g', r⟩ _ :=
          .bind (Work.ensures_read.2 ⟨_, hchildren, stops_linkChildren hfresh hthere⟩)
        obtain ⟨e, t, hrun, c, hc, rfl⟩ := hround
        exact ⟨_, Work.run_bind_of_error hrun, .stopped hrun,
          .tangled (hi.tangled hfresh) hi.reaches_top hc⟩

/-- Linking comes to an end, in one of two ways. -/
theorem linkParents_outcome (ha : g.Arena root) (r : Report) : ∃ out,
    linkParents.run.run ⟨g, r⟩ = out ∧ LinkLoop ([root], [root]) ⟨g.unlinked, r⟩ out ∧
      LinkOutcome g root out := by
  obtain ⟨p, hp⟩ := ha.project
  have hsize : g.unlinked.size = g.size := relinked_unlinked.size
  have hfuel : g.size < g.unlinked.size + 1 + ([] : List Handle).length := by
    rw [hsize, List.length_nil]
    omega
  obtain ⟨out, hout, hends⟩ := linkStack_outcome (r := r) ha linking_unlinked hfuel
  refine ⟨out, ?_, hends⟩
  unfold linkParents
  rw [Work.run_bind_of_ok (Work.run_read_of_ok hp)]
  exact hout

end Graph

/-- **Linking decides whether what is below the root is a tree.** In a graph whose root is a project,
without blank nodes and with all children there, however they are shared, the loop of linking comes to
an end. It stops at a node met twice if and only if the nodes below the root are tangled. Otherwise the
root and the nodes that are not below it are left without a parent, every other node is linked to the one
node below the root that lists it, which does so once, and parents lead from every node below the root
to the root. -/
theorem linkParents_decides_tree {g : Graph} {root : Handle} (ha : g.Arena root) (r : Report) :
    ∃ outcome s, linkParents.run.run ⟨g, r⟩ = (outcome, s) ∧
      Graph.LinkLoop ([root], [root]) ⟨g.unlinked, r⟩ (outcome, s) ∧
      (outcome = .ok () ∨ ∃ child parent, outcome = .error (.cycle child parent)) ∧
      ((∃ child parent, outcome = .error (.cycle child parent)) ↔ g.Tangled root) ∧
      (outcome = .ok () → g.Hung root s.graph) := by
  obtain ⟨⟨outcome, s⟩, hrun, hloop, hends⟩ := Graph.linkParents_outcome ha r
  refine ⟨outcome, s, hrun, hloop, ?_⟩
  cases hends with
  | hung hno hhung =>
    refine ⟨.inl rfl, ⟨?_, fun ht => absurd ht hno⟩, fun _ => hhung⟩
    rintro ⟨child, parent, h⟩
    cases h
  | tangled ht => exact ⟨.inr ⟨_, _, rfl⟩, ⟨fun _ => ht, fun _ => ⟨_, _, rfl⟩⟩, nofun⟩

/-- A project with a scenario that lists itself as a step, and a call apart that lists the scenario as an
argument. -/
def knot : Graph where
  nodes := #[
    { content := .project { name := "p", scenarios := [1] } },
    { content := .scenario { name := "s", steps := [1] } },
    { content := .call { actionWord := "w", arguments := [1] } }]
  root := some 0

theorem arena_knot : knot.Arena 0 where
  project := ⟨_, rfl⟩
  kinds := by decide
  present := by decide

theorem linkParents_decides_knot : knot.Arena 0 ∧ knot.Tangled 0 ∧
    ∃ outcome s, linkParents.run.run ⟨knot, {}⟩ = (outcome, s) ∧
      Graph.LinkLoop ([0], [0]) ⟨knot.unlinked, {}⟩ (outcome, s) ∧
      (outcome = .ok () ∨ ∃ child parent, outcome = .error (.cycle child parent)) ∧
      ((∃ child parent, outcome = .error (.cycle child parent)) ↔ knot.Tangled 0) ∧
      (outcome = .ok () → knot.Hung 0 s.graph) :=
  ⟨arena_knot, ⟨1, .single (by decide), .inr (.inr ⟨0, .refl, by decide, 1, by decide, by decide⟩)⟩,
    linkParents_decides_tree arena_knot {}⟩

end Actionbook
