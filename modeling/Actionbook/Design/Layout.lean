import Actionbook.Design.Reader
import Actionbook.Graph.Basic

/-!
# The graph of a test design

The nodes of a design are laid out in document order: the project, then every scenario and every
action word, each followed by its parameters and its steps, and every call followed by its arguments.
So a node's place says where it stands in the document.
-/

namespace Actionbook

/-- The handles of `count` nodes from `first` on. -/
def handlesFrom (first : Nat) (count : Nat) : List Handle :=
  (List.range count).map fun i => ((first + i : Nat) : Handle)

def WrittenArgument.content (a : WrittenArgument) : Content :=
  .argument { name := a.name, value := a.value }

def WrittenParameter.content (p : WrittenParameter) : Content :=
  .parameter { name := p.name, declaredType := p.type, default := p.default }

/-- The nodes of a step whose first one is at `place`. -/
def WrittenStep.contents (place : Nat) : WrittenStep → List Content
  | .call actionWord keyword arguments =>
    .call { actionWord, keyword, arguments := handlesFrom (place + 1) arguments.length } ::
      arguments.map WrittenArgument.content
  | .plain key value => [.step { key, value }]

/-- Lays parts out one after the other from `place` on: their handles and all their nodes. -/
def layOutAll {α : Type} (contents : Nat → α → List Content) :
    Nat → List α → List Handle × List Content
  | _, [] => ([], [])
  | place, a :: l =>
    let here := contents place a
    let (handles, others) := layOutAll contents (place + here.length) l
    ((place : Handle) :: handles, here ++ others)

/-- The nodes of a scenario or an action word at `place`; `wrap` makes its own node. -/
def WrittenDefinition.contents (wrap : Definition → Content) (place : Nat) (d : WrittenDefinition) :
    List Content :=
  let count := d.parameters.length
  let (steps, nodes) := layOutAll WrittenStep.contents (place + 1 + count) d.steps
  let own : Definition := {
    name := d.name, uid := d.uid, description := d.description, tags := d.tags,
    parameters := handlesFrom (place + 1) count, steps }
  wrap own :: d.parameters.map WrittenParameter.content ++ nodes

/-- The nodes of a scenario at `place`. -/
def WrittenScenario.contents (place : Nat) (s : WrittenScenario) : List Content :=
  s.toWrittenDefinition.contents (fun d => .scenario { toDefinition := d, rows := s.rows }) place

/-- The nodes of an action word at `place`. -/
def WrittenDefinition.wordContents (place : Nat) (d : WrittenDefinition) : List Content :=
  d.contents (fun d => .actionWord { toDefinition := d }) place

namespace Design

def contents (d : Design) : List Content :=
  let (scenarios, first) := layOutAll WrittenScenario.contents 1 d.scenarios
  let (actionWords, second) :=
    layOutAll WrittenDefinition.wordContents (1 + first.length) d.actionWords
  .project { name := d.name, description := d.description, scenarios, actionWords } :: first ++ second

def graph (d : Design) : Graph :=
  { nodes := (d.contents.map fun content => { content }).toArray, root := some 0 }

/-- The first call of something that is no action word of the design. -/
def unknownCall? (d : Design) : Option (Handle × String) :=
  d.contents.zipIdx.findSome? fun (c, i) =>
    match c.call? with
    | some c => if d.actionWords.any (·.name == c.actionWord) then none else some ((i : Handle), c.actionWord)
    | none => none

/-- The graph of the design that a text describes; if `strict`, calls must name its action words. -/
def readGraph (text : String) (strict : Bool) : Except DesignError Graph := do
  let d ← ofText text
  if strict then
    match d.unknownCall? with
    | some (call, name) => throw (.unknownActionWord call name)
    | none => pure ()
  return d.graph

end Design

end Actionbook
