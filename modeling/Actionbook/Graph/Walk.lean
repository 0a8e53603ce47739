import Actionbook.Graph.Basic

/-!
# Walking a graph

`Graph.walkFrom` visits a node and all nodes below it in document order, with a stack of nodes still
to visit. A node that is reached twice is visited twice.
-/

namespace Actionbook.Graph

/-- The length of the longest list of children. -/
def breadth (g : Graph) : Nat :=
  g.nodes.foldl (fun n node => max n ((node.content.children?.getD []).length)) 0

/-- A bound for the number of visits below a node from which no path repeats a node: there are at
most as many levels as nodes, and on each level at most `breadth` times as many visits as above. -/
def visitBound (g : Graph) : Nat := Nat.pow (g.breadth + 2) (g.size + 2)

/-- Visits the nodes on the stack and whatever lies below them. -/
def walkStack (g : Graph) : Nat → List Handle → Except Fault (List Handle)
  | 0, _ => return []
  | _ + 1, [] => return []
  | fuel + 1, h :: stack => do
    let children ← g.childHandles h
    let rest ← walkStack g fuel (children ++ stack)
    return h :: rest

/-- The nodes at and below a node, in document order. -/
def walkFrom (g : Graph) (h : Handle) : Except Fault (List Handle) := g.walkStack g.visitBound [h]

/-- All nodes at and below the root. -/
def walk (g : Graph) : Except Fault (List Handle) :=
  match g.root with
  | none => return []
  | some h => g.walkFrom h

/-- The calls at and below the root. -/
def calls (g : Graph) : Except Fault (List Handle) := do
  return (← g.walk).filter fun h => ((g.node? h).bind (·.content.call?)).isSome

/-- The parameters at and below the root. -/
def parameters (g : Graph) : Except Fault (List Handle) := do
  return (← g.walk).filter fun h => ((g.node? h).bind (·.content.parameter?)).isSome

end Actionbook.Graph
