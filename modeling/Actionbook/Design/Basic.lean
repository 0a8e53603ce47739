import Actionbook.Graph.Node

/-!
# Test designs

A test design as it is written: scenarios and action words with their parameters and steps. Calls
refer to action words by name only.
-/

namespace Actionbook

structure WrittenArgument where
  name : Option String
  value : Value
deriving DecidableEq, Repr

inductive WrittenStep where
  | call (actionWord : String) (keyword : Option String) (arguments : List WrittenArgument)
  | plain (key : String) (value : Value)
deriving DecidableEq, Repr

structure WrittenParameter where
  name : String
  type : Option String
  default : Option Value
deriving DecidableEq, Repr

/-- The name, the body and the descriptions of a scenario or an action word as they are written. -/
structure WrittenDefinition where
  name : String
  uid : Option String
  description : String
  tags : List String
  parameters : List WrittenParameter
  steps : List WrittenStep
deriving DecidableEq, Repr

structure WrittenScenario extends WrittenDefinition where
  rows : List Row
deriving DecidableEq, Repr

/-- A test design. -/
structure Design where
  name : String
  description : String
  scenarios : List WrittenScenario
  actionWords : List WrittenDefinition
deriving DecidableEq, Repr

end Actionbook
