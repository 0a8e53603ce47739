import Actionbook.Graph.Node

/-!
# Faults of a graph

A graph built by hand may refer to nodes that are not there or not of the kind that is needed. Every
operation that meets such a reference stops with a fault.
-/

namespace Actionbook

/-- Why an operation on a graph stops. -/
inductive Fault where
  /-- No node has this handle. -/
  | unknownHandle (h : Handle)
  /-- The graph has no root. -/
  | noRoot
  /-- The node is not of the kind that is needed. -/
  | wrongKind (h : Handle) (expected : String) (actual : NodeKind)
  /-- A node is reached a second time, as a child of `parent`. -/
  | cycle (child parent : Handle)
  /-- The children of a blank node are undefined. -/
  | blankChildren
  /-- The node has no such part. -/
  | missingPart
  /-- An argument is bound to a parameter, or stands in an order, that its call does not have. -/
  | foreignArgument
deriving DecidableEq, Repr

/-- The report of a fault that breaks an invariant of graphs. -/
def Fault.diagnostic? : Fault → Option Diagnostic
  | .unknownHandle h => some { code := "GRAPH_UNKNOWN_HANDLE", node := some h }
  | .noRoot =>
    some { code := "GRAPH_UNKNOWN_HANDLE", context := [("reason", .text "graph has no root")] }
  | .wrongKind h expected actual =>
    some {
      code := "GRAPH_WRONG_KIND"
      node := some h
      context := [("expected", .text expected), ("actual", .text actual.title)] }
  | .cycle child parent =>
    some { code := "GRAPH_CYCLE", node := some child, context := [("parent", .integer parent)] }
  | _ => none

end Actionbook
