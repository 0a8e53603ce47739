import Actionbook.Value
import Actionbook.Diagnostic

/-!
# Nodes

A test design is a tree of nodes: a project holds scenarios and action words, these hold parameters
and steps, and a step is either a plain text under a key or a call with arguments. A node refers to
its children, its parent and the nodes it means by their handles.
-/

namespace Actionbook

/-- A row of a scenario's data table: the values for parameters, by name. -/
structure Row where
  name : String
  arguments : List (String × Value)
deriving DecidableEq, Repr

/-- What scenarios and action words have in common: a name and a body of steps over parameters. -/
structure Definition where
  name : String := ""
  uid : Option String := none
  description : String := ""
  tags : List String := []
  parameters : List Handle := []
  steps : List Handle := []
deriving Repr

/-- The root of a test design. -/
structure Project where
  name : String := ""
  description : String := ""
  scenarios : List Handle := []
  actionWords : List Handle := []
deriving Repr

/-- A test, run once for each row of its data table. -/
structure Scenario extends Definition where
  rows : List Row := []
deriving Repr

/-- A reusable step. Enrichment fills in the keywords under which it is called and the pattern of its
sentences. -/
structure ActionWord extends Definition where
  keywords : List String := []
  pattern : Option String := none
deriving Repr

/-- A parameter of a scenario or an action word. Enrichment fills in its type. -/
structure Parameter where
  name : String := ""
  declaredType : Option String := none
  default : Option Value := none
  type : Option String := none
deriving Repr

/-- A call of an action word. Enrichment fills in whether the action word is known, which one it is,
the arguments in the order of its parameters, the effective keyword and the sentence. -/
structure Call where
  actionWord : String := ""
  arguments : List Handle := []
  keyword : Option String := none
  resolved : Option Bool := none
  target : Option Handle := none
  ordered : List Handle := []
  effective : Option String := none
  sentence : Option String := none
deriving Repr

/-- An argument of a call, by name or by position. Enrichment fills in the parameter it is bound to,
or that there is none. A synthesized argument stands for the default of its parameter. -/
structure Argument where
  value : Value := .null ""
  name : Option String := none
  parameter : Option Handle := none
  unresolved : Bool := false
  synthesized : Bool := false
deriving Repr

/-- What an argument is called: its name, or its position where it has none. -/
def Argument.label (a : Argument) (position : Nat) : String :=
  a.name.getD ("#" ++ Decimal.integerText position)

/-- A plain step. Enrichment fills in the effective keyword. -/
structure Step where
  key : String := "action"
  value : Value := .string ""
  effective : Option String := none
deriving Repr

/-- What a node is. -/
inductive Content where
  /-- A node that is nothing in particular; it has not even an empty list of children. -/
  | blank
  | project (p : Project)
  | scenario (s : Scenario)
  | actionWord (w : ActionWord)
  | parameter (p : Parameter)
  | call (c : Call)
  | argument (a : Argument)
  | step (s : Step)
deriving Repr

inductive NodeKind where
  | blank
  | project
  | scenario
  | actionWord
  | parameter
  | call
  | argument
  | step
deriving DecidableEq, Repr

/-- The name of a kind in messages. -/
def NodeKind.title : NodeKind → String
  | .blank => "Node"
  | .project => "Project"
  | .scenario => "Scenario"
  | .actionWord => "ActionWord"
  | .parameter => "Parameter"
  | .call => "Call"
  | .argument => "Argument"
  | .step => "Step"

namespace Content

def kind : Content → NodeKind
  | .blank => .blank
  | .project _ => .project
  | .scenario _ => .scenario
  | .actionWord _ => .actionWord
  | .parameter _ => .parameter
  | .call _ => .call
  | .argument _ => .argument
  | .step _ => .step

/-- The children of a node, in document order. -/
def children? : Content → Option (List Handle)
  | .blank => none
  | .project p => some (p.scenarios ++ p.actionWords)
  | .scenario s => some (s.parameters ++ s.steps)
  | .actionWord w => some (w.parameters ++ w.steps)
  | .call c => some c.arguments
  | .parameter _ => some []
  | .argument _ => some []
  | .step _ => some []

def project? : Content → Option Project
  | .project p => some p
  | _ => none

def scenario? : Content → Option Scenario
  | .scenario s => some s
  | _ => none

def actionWord? : Content → Option ActionWord
  | .actionWord w => some w
  | _ => none

def parameter? : Content → Option Parameter
  | .parameter p => some p
  | _ => none

def call? : Content → Option Call
  | .call c => some c
  | _ => none

def argument? : Content → Option Argument
  | .argument a => some a
  | _ => none

/-- The name, parameters and steps of a scenario or an action word. -/
def definition? : Content → Option Definition
  | .scenario s => some s.toDefinition
  | .actionWord w => some w.toDefinition
  | _ => none

/-- The name of a node that has one; a positional argument has one that is not given. -/
def name? : Content → Option (Option String)
  | .project p => some (some p.name)
  | .scenario s => some (some s.name)
  | .actionWord w => some (some w.name)
  | .parameter p => some (some p.name)
  | .argument a => some a.name
  | _ => none

end Content

/-- A node: its parent, if it has been linked, and what it is. -/
structure Node where
  content : Content
  parent : Option Handle := none
deriving Repr

end Actionbook
