import Actionbook.Graph.Walk
import Actionbook.Report

/-!
# Work on a graph

Enrichment changes a graph and reports warnings. A step of it may stop with a fault; what was changed
and reported before stays.
-/

namespace Actionbook

/-- A graph under work and the report on it. -/
structure Workspace where
  graph : Graph := {}
  report : Report := {}

/-- A step of work on a graph. -/
abbrev Work := ExceptT Fault (StateM Workspace)

namespace Work

def read {α : Type} (f : Graph → Except Fault α) : Work α := do
  match f (← get).graph with
  | .ok a => return a
  | .error e => throw e

def change (f : Graph → Graph) : Work Unit := modify fun w => { w with graph := f w.graph }

/-- Adds a node. -/
def add (content : Content) : Work Handle := modifyGet fun w =>
  let (g, h) := w.graph.add content
  (h, { w with graph := g })

/-- Puts a new node into the place of another. -/
def replace (h : Handle) (content : Content) : Work Unit := do
  let (g, outcome) := (← get).graph.replace h content
  change fun _ => g
  match outcome with
  | .ok () => return
  | .error e => throw e

def warn (concern : Concern) (node : Handle) : Work Unit :=
  modify fun w => { w with report := w.report.warn ⟨concern, some node⟩ }

end Work

end Actionbook
