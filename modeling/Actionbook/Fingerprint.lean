import Actionbook.Graph.Basic
import Actionbook.Digest.Sha256
import Actionbook.Json.Writer

/-!
# Fingerprints of bodies

A body is fingerprinted by what it says, not by how it is stored: steps become JSON values in which
arguments stand under the names of their parameters, in the order of the parameters, and arguments
that stand for defaults are left out. The fingerprint is the digest of the canonical text.
-/

namespace Actionbook

def fingerprint (v : Json) : String := Sha256.hexDigest v.canonicalText.toUTF8.toList

/-- The name under which an argument is fingerprinted: that of its parameter, else its own, else its
position. -/
def Graph.argumentKey (g : Graph) (a : Argument) (position : Nat) : Except Fault String :=
  match a.parameter with
  | some p => do return (← g.parameter p).name
  | none => .ok (a.label position)

/-- The names of a call's arguments by their handles. -/
def Graph.argumentKeys (g : Graph) (c : Call) : Except Fault (List (Handle × String)) := do
  (← g.argumentsOf c).zipIdx.mapM fun ((h, a), position) => do
    return (h, ← g.argumentKey a position)

/-- The arguments of a call that were written, by name and in order. -/
def Graph.canonicalArguments (g : Graph) (c : Call) : Except Fault (List Json) := do
  let keys ← g.argumentKeys c
  let arguments ← (if c.ordered.isEmpty then c.arguments else c.ordered).mapM fun h => do
    let a ← g.argument h
    if a.synthesized then return none
    match keys.reverse.lookup h with
    | some key => return some (Json.array [.text key, a.value.canonical])
    | none => throw .foreignArgument
  return arguments.filterMap id

/-- The keyword of a call: the effective one, or else the one that was written. -/
def Call.shownKeyword (c : Call) : Option String :=
  match c.effective with
  | some a => if a.isEmpty then c.keyword else some a
  | none => c.keyword

def Graph.canonicalStep (g : Graph) (h : Handle) : Except Fault Json := do
  match (← g.node h).content with
  | .step s => return .object [("step", .text s.key), ("value", s.value.canonical)]
  | _ =>
    let c ← g.call h
    let arguments ← g.canonicalArguments c
    return .object [
      ("call", .text c.actionWord),
      ("annotation", .ofText? c.shownKeyword),
      ("arguments", .array arguments)]

def Graph.canonicalSteps (g : Graph) (steps : List Handle) : Except Fault Json := do
  return .array (← steps.mapM g.canonicalStep)

/-- The fingerprint of the body of a scenario or an action word. -/
def Graph.bodyFingerprint (g : Graph) (h : Handle) : Except Fault String := do
  match (← g.node h).content.definition? with
  | some d => return fingerprint (← g.canonicalSteps d.steps)
  | none => throw .missingPart

end Actionbook
