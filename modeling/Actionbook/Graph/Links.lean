import Actionbook.Workspace

/-!
# Parent links

Linking gives every node below the root its parent, from the root downwards. A graph in which a node
is reached twice is no tree, and linking stops there.
-/

namespace Actionbook

/-- Takes all parent links away. -/
def Graph.unlinked (g : Graph) : Graph :=
  { g with nodes := g.nodes.map fun n => { n with parent := none } }

/-- Links the children of `parent` that are left, and adds them to the handles reached so far and to
the stack of nodes to go on with. -/
def linkChildren (parent : Handle) :
    List Handle → List Handle → List Handle → Work (List Handle × List Handle)
  | [], reached, stack => return (reached, stack)
  | child :: l, reached, stack => do
    if reached.contains child then throw (.cycle child parent)
    let _ ← Work.read (·.node child)
    Work.change (·.setParent child (some parent))
    linkChildren parent l (child :: reached) (child :: stack)

/-- Links the nodes below those on the stack. Every round takes another node from the stack, so there
are not more rounds than nodes. -/
def linkStack : Nat → List Handle → List Handle → Work Unit
  | 0, _, _ => return
  | _ + 1, _, [] => return
  | fuel + 1, reached, h :: stack => do
    let children ← Work.read (·.childHandles h)
    let (reached, stack) ← linkChildren h children reached stack
    linkStack fuel reached stack

/-- Gives every node below the root its parent. -/
def linkParents : Work Unit := do
  let (root, _) ← Work.read Graph.project
  Work.change Graph.unlinked
  linkStack ((← get).graph.size + 1) [root] [root]

end Actionbook
