import Actionbook.Yaml.Error

/-!
# Nodes of data documents

A document is a tree of tagged nodes. An alias of a node that is complete is that node again; an alias
of a collection around it would make the tree infinite, and stays a reference.
-/

namespace Actionbook.Yaml

inductive Node where
  | scalar (tag text : String)
  | sequence (tag : String) (items : List Node)
  | mapping (tag : String) (entries : List (Node × Node))
  /-- A collection that can be referred to from inside. -/
  | anchored (name : String) (inner : Node)
  /-- A collection around this place. -/
  | enclosing (name : String)
deriving Repr

instance : Inhabited Node := ⟨.scalar "" ""⟩

/-- The tag with the given name in the namespace of the format. -/
def standardTag (name : String) : String := "tag:yaml.org,2002:" ++ name

namespace Node

def tag : Node → String
  | scalar t _ => t
  | sequence t _ => t
  | mapping t _ => t
  | anchored _ n => n.tag
  | enclosing _ => ""

mutual

/-- Whether a node refers to a collection around it by the given name. -/
def mentions (name : String) : Node → Bool
  | .scalar _ _ => false
  | .sequence _ items => mentionsItems name items
  | .mapping _ entries => mentionsEntries name entries
  | .anchored _ n => mentions name n
  | .enclosing other => other == name

/-- Whether one of some nodes refers to a collection around it by the given name. -/
def mentionsItems (name : String) : List Node → Bool
  | [] => false
  | n :: l => mentions name n || mentionsItems name l

/-- Whether a key or a value refers to a collection around it by the given name. -/
def mentionsEntries (name : String) : List (Node × Node) → Bool
  | [] => false
  | (k, v) :: l => mentions name k || mentions name v || mentionsEntries name l

end

/-- The scalar that says nothing. -/
def empty : Node := .scalar (standardTag "null") ""

mutual

/-- The node in which references to collections around it are replaced: by those that `outer` holds,
and for collections inside of the node by themselves, `depth` times over. -/
def unrolled (depth : Nat) (outer : List (String × Node)) : Node → Node
  | .scalar t s => .scalar t s
  | .sequence t items => .sequence t (unrolledItems depth outer items)
  | .mapping t entries => .mapping t (unrolledEntries depth outer entries)
  | .anchored name inner => Nat.repeat (fun n => unrolled depth ((name, n) :: outer) inner) depth empty
  | .enclosing name => (outer.lookup name).getD empty

/-- The nodes with references replaced. -/
def unrolledItems (depth : Nat) (outer : List (String × Node)) : List Node → List Node
  | [] => []
  | n :: l => unrolled depth outer n :: unrolledItems depth outer l

/-- The entries with references replaced. -/
def unrolledEntries (depth : Nat) (outer : List (String × Node)) :
    List (Node × Node) → List (Node × Node)
  | [] => []
  | (k, v) :: l =>
    (unrolled depth outer k, unrolled depth outer v) :: unrolledEntries depth outer l

end

mutual

/-- The number of nodes in a tree. -/
def count : Node → Nat
  | .scalar _ _ => 1
  | .sequence _ items => 1 + countItems items
  | .mapping _ entries => 1 + countEntries entries
  | .anchored _ n => 1 + count n
  | .enclosing _ => 1

/-- The number of nodes in trees. -/
def countItems : List Node → Nat
  | [] => 0
  | n :: l => count n + countItems l

/-- The number of nodes in keys and values. -/
def countEntries : List (Node × Node) → Nat
  | [] => 0
  | (k, v) :: l => count k + count v + countEntries l

end

end Node

end Actionbook.Yaml
