import Actionbook.Proofs.Layout

/-!
# Graphs are built node by node

The graph of a design is laid out at once, with handles that are offsets. It is also built by adding one
node after the other: a node is added without children, then its children are added in document order, and
at last it is told their handles (`Design.built`). Both graphs are the same (`Design.built_eq_graph`).

Adding a part puts its block behind all nodes and gives the handle of the first of its nodes
(`Graph.Appends`). This is shown for steps and definitions, from what adding parts one after the other appends
(`Graph.addAll_eq`).
-/

namespace Actionbook

namespace Graph

variable {α : Type} {g : Graph} {c : Content} {l l' : List Content}

/-! ## Adding parts -/

/-- Adds parts one after the other: the graph and the handles of the parts. -/
def addAll (add : Graph → α → Graph × Handle) : Graph → List α → Graph × List Handle
  | g, [] => (g, [])
  | g, a :: as =>
    let (g, h) := add g a
    let (g, handles) := addAll add g as
    (g, h :: handles)

def addStep (g : Graph) : WrittenStep → Graph × Handle
  | .call actionWord keyword written =>
    let (g, h) := g.add (.call { actionWord, keyword })
    let (g, arguments) := addAll (fun g a => g.add (WrittenArgument.content a)) g written
    (g.updateCall h fun c => { c with arguments }, h)
  | .plain key value => g.add (.step { key, value })

/-- Adds a scenario or an action word; `wrap` makes its node. -/
def addDefinition (wrap : Definition → Content) (g : Graph) (d : WrittenDefinition) : Graph × Handle :=
  let own : Definition := { name := d.name, uid := d.uid, description := d.description, tags := d.tags }
  let (g, h) := g.add (wrap own)
  let (g, parameters) := addAll (fun g p => g.add (WrittenParameter.content p)) g d.parameters
  let (g, steps) := addAll addStep g d.steps
  (g.updateContent h fun _ => wrap { own with parameters, steps }, h)

def addScenario (g : Graph) (s : WrittenScenario) : Graph × Handle :=
  addDefinition (fun d => .scenario { toDefinition := d, rows := s.rows }) g s.toWrittenDefinition

def addActionWord (g : Graph) (d : WrittenDefinition) : Graph × Handle :=
  addDefinition (fun d => .actionWord { toDefinition := d }) g d

def rootedAt (g : Graph) (h : Handle) : Graph := { g with root := some h }

/-! ## What is appended -/

/-- The graph with further contents behind all nodes. -/
def appendContents (g : Graph) (l : List Content) : Graph := g.append (l.map fun content => { content })

/-- Adding a part appends its block. -/
def Appends (add : Graph → α → Graph × Handle) (contents : Nat → α → List Content) : Prop :=
  ∀ g a, add g a = (g.appendContents (contents g.size a), (g.size : Handle))

theorem add_eq (g : Graph) (c : Content) : g.add c = (g.appendContents [c], (g.size : Handle)) := by
  simp [add, appendContents, append]

@[simp] theorem size_appendContents : (g.appendContents l).size = g.size + l.length := by
  simp [appendContents]

theorem appendContents_append :
    (g.appendContents l).appendContents l' = g.appendContents (l ++ l') := by
  simp [appendContents, append]

theorem rootedAt_appendContents {h : Handle} :
    (g.appendContents l).rootedAt h = (g.rootedAt h).appendContents l := rfl

/-- The first node of what has been appended can be changed before or after. -/
theorem updateContent_appendContents (f : Content → Content) :
    (g.appendContents (c :: l)).updateContent g.size f = g.appendContents (f c :: l) := by
  have hnonneg : (0 : Handle) ≤ (g.size : Handle) := Int.natCast_nonneg _
  simp only [updateContent, update, if_pos hnonneg, Int.toNat_natCast, appendContents, append]
  refine congrArg (Graph.mk · g.root) (Array.ext_getElem? fun i => ?_)
  rw [Array.getElem?_modify, Array.getElem?_append, Array.getElem?_append]
  by_cases hi : g.size = i
  · subst hi
    simp [size]
  · rw [if_neg hi]
    by_cases hlt : i < g.nodes.size
    · rw [if_pos hlt, if_pos hlt]
    · obtain ⟨k, hk⟩ : ∃ k, i - g.nodes.size = k + 1 :=
        ⟨i - g.nodes.size - 1, by unfold size at hi; omega⟩
      rw [if_neg hlt, if_neg hlt, hk]
      simp

/-- **Parts that are added one after the other** are laid out one after the other. -/
theorem addAll_eq {add : Graph → α → Graph × Handle} {contents : Nat → α → List Content}
    (hadd : Appends add contents) (g : Graph) (as : List α) : addAll add g as =
      (g.appendContents (layOutAll contents g.size as).2, (layOutAll contents g.size as).1) := by
  induction as generalizing g with
  | nil => simp [addAll, layOutAll, appendContents, append]
  | cons a as ih =>
    simp only [addAll, layOutAll, hadd g a, ih, size_appendContents, appendContents_append]

theorem layOutAll_single (content : α → Content) (n : Nat) (as : List α) :
    layOutAll (fun _ a => [content a]) n as = (handlesFrom n as.length, as.map content) := by
  induction as generalizing n with
  | nil => rfl
  | cons a as ih => simp [layOutAll, ih, handlesFrom_succ]

theorem addAll_single (content : α → Content) (g : Graph) (as : List α) :
    addAll (fun g a => g.add (content a)) g as =
      (g.appendContents (as.map content), handlesFrom g.size as.length) := by
  have hadd : Appends (fun g a => g.add (content a)) fun _ a => [content a] := fun g a =>
    add_eq g (content a)
  rw [addAll_eq hadd, layOutAll_single]

theorem appends_addStep : Appends addStep WrittenStep.contents := by
  intro g s
  cases s with
  | plain key value => exact add_eq g _
  | call actionWord keyword written =>
    simp only [addStep, addAll_single]
    simp only [add_eq, size_appendContents, List.length_singleton]
    simp only [updateCall, appendContents_append, List.singleton_append, updateContent_appendContents]
    rfl

theorem appends_addDefinition (wrap : Definition → Content) :
    Appends (addDefinition wrap) (WrittenDefinition.contents wrap) := by
  intro g d
  simp only [addDefinition, addAll_single, addAll_eq appends_addStep]
  simp only [add_eq, size_appendContents, List.length_singleton, List.length_map]
  simp only [appendContents_append, List.cons_append, List.nil_append, updateContent_appendContents]
  rfl

theorem appends_addScenario : Appends addScenario WrittenScenario.contents := fun g s =>
  appends_addDefinition _ g s.toWrittenDefinition

theorem appends_addActionWord : Appends addActionWord WrittenDefinition.wordContents :=
  appends_addDefinition _

end Graph

/-! ## Designs -/

namespace Design

/-- The graph of a design, built node by node. -/
def built (d : Design) : Graph :=
  let own : Project := { name := d.name, description := d.description }
  let (g, root) := Graph.add {} (.project own)
  let (g, scenarios) := Graph.addAll Graph.addScenario (g.rootedAt root) d.scenarios
  let (g, actionWords) := Graph.addAll Graph.addActionWord g d.actionWords
  g.updateContent root fun _ => .project { own with scenarios, actionWords }

/-- **Building a graph node by node lays out the design.** -/
theorem built_eq_graph (d : Design) : d.built = d.graph := by
  simp only [built, Graph.addAll_eq Graph.appends_addScenario, Graph.addAll_eq Graph.appends_addActionWord,
    Graph.add_eq, Graph.rootedAt_appendContents, Graph.size_appendContents, List.length_singleton]
  simp only [Graph.appendContents_append, List.cons_append, List.nil_append]
  -- the empty graph has the same size with a root
  refine (Graph.updateContent_appendContents (g := Graph.rootedAt {} 0) _).trans ?_
  simp [Graph.appendContents, Graph.append, Graph.rootedAt, Graph.size, graph, contents]

end Design

end Actionbook
