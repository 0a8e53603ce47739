import Actionbook.Fingerprint
import Actionbook.Signature.Basic
import Actionbook.Workspace

/-!
# The signatures of a graph

Every action word of an enriched graph has a signature. They are kept in the order of their names; of
several action words with one name the first counts, and the others are reported.
-/

namespace Actionbook

/-- What signatures show beside name, identity and parameters. -/
structure ExportOptions where
  /-- Whether the fingerprints of bodies show. -/
  withBody : Bool := true
  /-- Whether the nodes show. -/
  attachNodes : Bool := false

def Graph.signatureOf (g : Graph) (options : ExportOptions) (h : Handle) (w : ActionWord) :
    Except Fault Signature := do
  let parameters ← g.parametersAt w.parameters
  let bodyHash ← if options.withBody then
      (fun body => some (fingerprint body)) <$> g.canonicalSteps w.steps
    else pure none
  return {
    name := w.name
    uid := w.uid
    parameters := parameters.map fun (_, p) => ⟨p.name, p.default.map Value.source⟩
    bodyHash
    node := if options.attachNodes then some h else none }

/-- Signatures in the order of their names. -/
def Signatures.sorted (s : Signatures) : Signatures := sortBy (fun a b => textLe a.1 b.1) s

/-- The signatures of action words that are left, after those known so far. -/
def exportFrom (options : ExportOptions) :
    List (Handle × ActionWord) → Signatures → Work Signatures
  | [], known => return known
  | (h, w) :: l, known => do
    if (known.lookup w.name).isSome then
      Work.warn (.duplicateActionWord w.name) h
      exportFrom options l known
    else
      let s ← Work.read (·.signatureOf options h w)
      exportFrom options l (known ++ [(w.name, s)])

/-- The signatures of all action words. -/
def exportSignatures (options : ExportOptions) : Work Signatures := do
  let words ← Work.read Graph.actionWords
  return Signatures.sorted (← exportFrom options words [])

end Actionbook
