import Actionbook.Config.Basic
import Actionbook.Design.Layout
import Actionbook.Enrichment
import Actionbook.Output.Rendering
import Actionbook.Signature.Export
import Actionbook.Snapshot.File

/-!
# Publishers

A publisher works for one language with one configuration and one report: it reads test designs,
exports the signatures of their action words, compares them with earlier ones and says which files are
to be written.
-/

namespace Actionbook

/-- A configuration, a language and the report on all that is done. -/
structure Publisher where
  config : Data
  language : String
  report : Report := {}

/-- Why a publisher stops. -/
inductive PublishError where
  | design (e : DesignError)
  | fault (e : Fault)
  | snapshot (e : SnapshotError)
  | write (e : Snapshot.WriteError)
  | config (e : ConfigError)
  | output (e : OutputError)

/-- Work of a publisher. -/
abbrev Publishing := ExceptT PublishError (StateM Publisher)

namespace Publisher

/-- A publisher with a configuration; one that is empty or null counts as none. -/
def make (config : Data) (language : String) (listeners : List String) : Publisher where
  config := Config.orNothing config
  language := language
  report := { listeners }

/-- The result of a computation, whose error is a cause to stop. -/
def check {ε α : Type} (cause : ε → PublishError) : Except ε α → Publishing α
  | .ok a => return a
  | .error e => throw (cause e)

/-- Works on a graph; warnings and errors go into the report. -/
def workOn {α : Type} (g : Graph) (work : Work α) : Publishing (α × Graph) := do
  let (outcome, w) := work.run { graph := g, report := (← get).report }
  modify fun p => { p with report := w.report }
  return (← check .fault outcome, w.graph)

/-- Reads and enriches a test design. -/
def build (text : String) (strict : Bool) : Publishing Graph := do
  match Design.readGraph text strict with
  | .ok g => return (← workOn g enrich).2
  | .error e =>
    modify fun p => { p with report := p.report.fail e.diagnostic }
    throw (.design e)

/-- The signatures of the action words of a graph. -/
def signatures (g : Graph) (options : ExportOptions) : Publishing Signatures := do
  return (← workOn g (exportSignatures options)).1

def exportSnapshot (g : Graph) (format : Snapshot.Format := Snapshot.format) : Publishing String := do
  check .write (format.dump (← signatures g {}))

/-- The difference of a graph from an earlier snapshot. -/
def diff (previous : String) (g : Graph) (format : Snapshot.Format := Snapshot.format) :
    Publishing Diff := do
  let old ← match format.load previous with
    | .ok s => pure s
    | .error e => do
      match e.diagnostic? with
      | some d => modify fun p => { p with report := p.report.fail d }
      | none => pure ()
      throw (.snapshot e)
  let new ← signatures g { attachNodes := true }
  let rule := (← check .config (Config.renameMatch (← get).config)).rule
  modify fun p => { p with report := (ambiguities rule old new).foldl Report.warn p.report }
  return diffSignatures rule old new

def groups (category : Option Data) : Publishing (List OutputGroup) := do
  let p ← get
  check .config (Config.outputGroups p.config p.language category)

/-- The files to write for a graph. -/
def renderings (g : Graph) (category : Option Data) (host : Form.Host := {}) :
    Publishing (List Rendering) := do
  let groups ← groups category
  let (outcome, report) := (selectRenderings g groups host).run (← get).report
  modify fun p => { p with report }
  check .output outcome

/-- The stubs to write for the action words that are new or have changed. -/
def changedStubs (g : Graph) (d : Diff) (host : Form.Host := {}) : Publishing (List Rendering) := do
  let groups ← groups (some (.text Category.stubs.name))
  let changed := (d.created ++ d.changed).filterMap (·.node)
  if changed.isEmpty then return []
  check .output (changedRenderings g changed groups host)

end Publisher

end Actionbook
