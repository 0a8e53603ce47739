import Actionbook.Warning

/-!
# Reports

A report collects the warnings of a run and passes warnings and errors on to its listeners. Every
listener is told of every event in turn, and nothing is dropped.
-/

namespace Actionbook

/-- Whether an event is a warning or an error. -/
inductive Severity where
  | warning
  | error
deriving DecidableEq, Repr

def Severity.name : Severity → String
  | .warning => "warning"
  | .error => "error"

/-- What a listener is told. -/
structure Event where
  listener : String
  severity : Severity
  code : String
  node : Option Handle
deriving DecidableEq, Repr

/-- The listeners, the warnings so far and what the listeners have been told. -/
structure Report where
  listeners : List String := []
  warnings : List Warning := []
  events : List Event := []

namespace Report

/-- Tells all listeners of something. -/
def announce (r : Report) (severity : Severity) (code : String) (node : Option Handle) : Report :=
  { r with events := r.events ++ r.listeners.map fun l => ⟨l, severity, code, node⟩ }

/-- Adds a listener, who is told of everything from now on. -/
def listen (r : Report) (listener : String) : Report :=
  { r with listeners := r.listeners ++ [listener] }

def warn (r : Report) (w : Warning) : Report :=
  { r with warnings := r.warnings ++ [w] }.announce .warning w.concern.code w.node

def fail (r : Report) (d : Diagnostic) : Report := r.announce .error d.code d.node

/-- The number of warnings so far. -/
def mark (r : Report) : Nat := r.warnings.length

/-- The warnings after the first `mark`; a negative mark counts from the end. -/
def since (r : Report) (mark : Int) : List Warning :=
  r.warnings.drop (if mark < 0 then mark + r.warnings.length else mark).toNat

end Report

end Actionbook
