import Actionbook.Data.Text

/-!
# Diagnostics

An error is reported by a code, the place it concerns and a context of named values. The message
shows the code in brackets, then the context, and the place last.
-/

namespace Actionbook

/-- The number by which a node of a graph is known. -/
abbrev Handle := Int

/-- A report of an error. -/
structure Diagnostic where
  code : String
  node : Option Handle := none
  context : List (String × Data) := []

namespace Diagnostic

def message (d : Diagnostic) : String :=
  let node := match d.node with
    | some h => [("node", Data.integer h)]
    | none => []
  let fields := (d.context ++ node).map fun (name, v) => name ++ "=" ++ v.literal
  if fields.isEmpty then "[" ++ d.code ++ "]" else "[" ++ d.code ++ "] " ++ Data.joined fields

/-- The report as data: code, node and context. -/
def detail (d : Diagnostic) : List (String × Data) :=
  [("code", .text d.code), ("node", .ofInt? d.node)] ++ d.context

end Diagnostic

end Actionbook
