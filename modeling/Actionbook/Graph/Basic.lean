import Actionbook.Graph.Fault

/-!
# Graphs

A graph keeps its nodes in the order in which they were added; the handle of a node is its place.
Nodes are never removed: a node that is replaced hands its place and its parent to the new one.

All readers go through `Graph.node?`; `node?_add` and `node?_update` say what the two basic writers
do to it.
-/

namespace Actionbook

/-- The nodes of a test design and the handle of the root. -/
structure Graph where
  nodes : Array Node := #[]
  root : Option Handle := none

namespace Graph

/-- The number of nodes, which is the handle of the next one. -/
def size (g : Graph) : Nat := g.nodes.size

def node? (g : Graph) (h : Handle) : Option Node :=
  if 0 ≤ h then g.nodes[h.toNat]? else none

theorem node?_ofNat (g : Graph) (n : Nat) : g.node? n = g.nodes[n]? := by
  simp [node?]

def handles (g : Graph) : List Handle := (List.range g.size).map Int.ofNat

/-- Adds a node without a parent. -/
def add (g : Graph) (content : Content) : Graph × Handle :=
  ({ g with nodes := g.nodes.push { content } }, g.size)

/-- An added node is found under the next handle, and all others stay. -/
theorem node?_add (g : Graph) (content : Content) (h : Handle) :
    (g.add content).1.node? h = if h = g.size then some { content } else g.node? h := by
  by_cases h0 : 0 ≤ h
  · obtain ⟨n, rfl⟩ := Int.eq_ofNat_of_zero_le h0
    rw [node?_ofNat, node?_ofNat]
    simp only [add, size, Array.getElem?_push, Int.natCast_inj]
  · have : h ≠ g.size := by intro e; simp [e] at h0
    simp [node?, h0, this]

/-- Changes a node; nothing happens if there is none with this handle. -/
def update (g : Graph) (h : Handle) (f : Node → Node) : Graph :=
  if 0 ≤ h then { g with nodes := g.nodes.modify h.toNat f } else g

/-- A change shows at its own handle only. -/
theorem node?_update (g : Graph) (h k : Handle) (f : Node → Node) :
    (g.update h f).node? k = if k = h then (g.node? k).map f else g.node? k := by
  unfold update
  by_cases h0 : 0 ≤ h
  · rw [if_pos h0]
    obtain ⟨n, rfl⟩ := Int.eq_ofNat_of_zero_le h0
    by_cases k0 : 0 ≤ k
    · obtain ⟨m, rfl⟩ := Int.eq_ofNat_of_zero_le k0
      rw [node?_ofNat, node?_ofNat]
      simp only [Int.toNat_natCast, Array.getElem?_modify, Int.natCast_inj]
      grind
    · have : k ≠ n := fun e => k0 (e ▸ Int.natCast_nonneg n)
      simp [node?, k0, this]
  · rw [if_neg h0]
    by_cases e : k = h
    · simp [e, node?, h0]
    · simp [e]

/-- Changes what a node is. -/
def updateContent (g : Graph) (h : Handle) (f : Content → Content) : Graph :=
  g.update h fun n => { n with content := f n.content }

/-- Changes a node that is a call. -/
def updateCall (g : Graph) (h : Handle) (f : Call → Call) : Graph :=
  g.updateContent h fun
    | .call c => .call (f c)
    | other => other

/-- Changes a node that is an argument. -/
def updateArgument (g : Graph) (h : Handle) (f : Argument → Argument) : Graph :=
  g.updateContent h fun
    | .argument a => .argument (f a)
    | other => other

/-- Changes a node that is a parameter. -/
def updateParameter (g : Graph) (h : Handle) (f : Parameter → Parameter) : Graph :=
  g.updateContent h fun
    | .parameter p => .parameter (f p)
    | other => other

/-- Changes a node that is an action word. -/
def updateActionWord (g : Graph) (h : Handle) (f : ActionWord → ActionWord) : Graph :=
  g.updateContent h fun
    | .actionWord w => .actionWord (f w)
    | other => other

/-- Changes a node that is a plain step. -/
def updateStep (g : Graph) (h : Handle) (f : Step → Step) : Graph :=
  g.updateContent h fun
    | .step s => .step (f s)
    | other => other

/-- Makes a node the child of another, as far as its parent link goes. -/
def setParent (g : Graph) (h : Handle) (parent : Option Handle) : Graph :=
  g.update h fun n => { n with parent }

/-! ## Reading -/

def node (g : Graph) (h : Handle) : Except Fault Node :=
  match g.node? h with
  | some n => .ok n
  | none => .error (.unknownHandle h)

/-- The node with a handle, seen as one of the kind that `view` accepts. -/
def get {α : Type} (g : Graph) (h : Handle) (expected : NodeKind) (view : Content → Option α) :
    Except Fault α := do
  let n ← g.node h
  match view n.content with
  | some a => return a
  | none => throw (.wrongKind h expected.title n.content.kind)

def scenario (g : Graph) (h : Handle) : Except Fault Scenario := g.get h .scenario Content.scenario?

def actionWord (g : Graph) (h : Handle) : Except Fault ActionWord :=
  g.get h .actionWord Content.actionWord?

def parameter (g : Graph) (h : Handle) : Except Fault Parameter :=
  g.get h .parameter Content.parameter?

def call (g : Graph) (h : Handle) : Except Fault Call := g.get h .call Content.call?

def argument (g : Graph) (h : Handle) : Except Fault Argument := g.get h .argument Content.argument?

/-- A node that is used as a call. -/
def callPart (g : Graph) (h : Handle) : Except Fault Call := do
  match (← g.node h).content.call? with
  | some c => return c
  | none => throw .missingPart

/-- The root and the project that it is. -/
def project (g : Graph) : Except Fault (Handle × Project) :=
  match g.root with
  | none => throw .noRoot
  | some h => do return (h, ← g.get h .project Content.project?)

def childHandles (g : Graph) (h : Handle) : Except Fault (List Handle) := do
  match (← g.node h).content.children? with
  | some children => return children
  | none => throw .blankChildren

/-- The children of a node, all of which must be there. -/
def children (g : Graph) (h : Handle) : Except Fault (List Handle) := do
  let children ← g.childHandles h
  for child in children do
    let _ ← g.node child
  return children

def parentOf (g : Graph) (h : Handle) : Except Fault (Option (Handle × Node)) := do
  match (← g.node h).parent with
  | none => return none
  | some p => return some (p, ← g.node p)

/-- Looks for an ancestor of a kind, at most `fuel` levels up; `none` accepts any kind. -/
def enclosingWithin (g : Graph) (kind : Option NodeKind) : Nat → Handle → Except Fault (Option Handle)
  | 0, _ => return none
  | fuel + 1, h => do
    match ← g.parentOf h with
    | none => return none
    | some (p, n) =>
      if kind = none ∨ kind = some n.content.kind then return some p
      else g.enclosingWithin kind fuel p

/-- The nearest ancestor of a kind. A chain of parents without repetition is not longer than the
graph is large. -/
def enclosing (g : Graph) (kind : Option NodeKind) (h : Handle) : Except Fault (Option Handle) :=
  g.enclosingWithin kind (g.size + 1) h

/-- The nodes with the given handles, all of one kind. -/
def getAll {α : Type} (read : Handle → Except Fault α) (handles : List Handle) :
    Except Fault (List (Handle × α)) :=
  handles.mapM fun h => do return (h, ← read h)

def scenarios (g : Graph) : Except Fault (List (Handle × Scenario)) := do
  getAll g.scenario (← g.project).2.scenarios

def actionWords (g : Graph) : Except Fault (List (Handle × ActionWord)) := do
  getAll g.actionWord (← g.project).2.actionWords

/-- The action words by name: of several with one name the first. -/
def actionWordIndex (g : Graph) : Except Fault (List (String × Handle)) := do
  let words ← g.actionWords
  return words.foldl (fun index (h, w) =>
    if (index.lookup w.name).isSome then index else index ++ [(w.name, h)]) []

def parametersAt (g : Graph) (handles : List Handle) : Except Fault (List (Handle × Parameter)) :=
  getAll g.parameter handles

def argumentsOf (g : Graph) (c : Call) : Except Fault (List (Handle × Argument)) :=
  getAll g.argument c.arguments

/-- The parameters of a scenario or an action word. -/
def parametersOf (g : Graph) (h : Handle) : Except Fault (List (Handle × Parameter)) := do
  match (← g.node h).content.definition? with
  | some d => g.parametersAt d.parameters
  | none => throw .missingPart

/-! ## Replacing -/

/-- Links nodes to a parent, one after the other, up to the first that is not there. -/
def adopt (parent : Handle) : List Handle → Graph → Graph × Except Fault Unit
  | [], g => (g, .ok ())
  | child :: l, g =>
    match g.node? child with
    | none => (g, .error (.unknownHandle child))
    | some _ => adopt parent l (g.setParent child (some parent))

/-- Puts a new node into the place of another. It keeps the parent, and its children become linked to
it; if one of them is not there, the children before it stay linked. -/
def replace (g : Graph) (h : Handle) (content : Content) : Graph × Except Fault Unit :=
  match g.node? h with
  | none => (g, .error (.unknownHandle h))
  | some _ =>
    let g := g.updateContent h fun _ => content
    match content.children? with
    | none => (g, .error .blankChildren)
    | some children => adopt h children g

end Graph

end Actionbook
