import Actionbook.Graph.Links
import Actionbook.Typing
import Actionbook.Sentence.Rewriting

/-!
# Enrichment

A graph as it is read has names only. Five passes over it, in a fixed order, find out what they mean:
who is whose parent, what types parameters have, which arguments belong to which parameters, which
defaults complete a call, and which sentences are calls.
-/

namespace Actionbook

/-- The passes over a graph. -/
inductive Pass where
  | link
  | type
  | bind
  | complete
  | normalize
deriving DecidableEq, Repr

def Pass.run : Pass → Work Unit
  | .link => linkParents
  | .type => addTypes
  | .bind => bindCalls
  | .complete => completeCalls
  | .normalize => normalizeSentences

def Pass.all : List Pass := [.link, .type, .bind, .complete, .normalize]

/-- Tells listeners of a fault that breaks an invariant of graphs. -/
def Work.announcing {α : Type} (work : Work α) : Work α :=
  tryCatch work fun e => do
    match e.diagnostic? with
    | some d => modify fun w => { w with report := w.report.fail d }
    | none => pure ()
    throw e

/-- Runs all passes; the result is the warnings of this run. -/
def enrich : Work (List Warning) := do
  let mark := (← get).report.mark
  Pass.all.forM fun pass => pass.run.announcing
  return (← get).report.since mark

end Actionbook
