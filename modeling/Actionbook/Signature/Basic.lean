import Actionbook.Data.Outline
import Actionbook.Data.Text
import Actionbook.Diagnostic

/-!
# Signatures

The signature of an action word is what other bodies and other versions of a test design see of it:
its name, its parameters with their defaults, its identity if it has one, and the fingerprint of its
body. `Signature.ofData` reads what `Signature.outline` writes.
-/

namespace Actionbook

/-- A parameter as others see it; the default is in source form. -/
structure ParameterSignature where
  name : String
  default : Option String := none
deriving DecidableEq, Repr

/-- An action word as others see it. The node, if known, is where it comes from and is no part of what
is compared. -/
structure Signature where
  name : String
  parameters : List ParameterSignature := []
  uid : Option String := none
  bodyHash : Option String := none
  node : Option Handle := none
deriving DecidableEq, Repr

/-- Signatures by name. -/
abbrev Signatures := List (String × Signature)

/-- Why data is no signature. -/
inductive SignatureError where
  /-- The entry is no mapping. -/
  | entry (value : Data)
  /-- A parameter is no mapping. -/
  | parameter (value : Data)
  /-- The parameters are no list. -/
  | parameters
  /-- A text that must be there is not, or is empty. -/
  | required (field : String)
  /-- An optional text is something else. -/
  | optional (field : String)

def SignatureError.message : SignatureError → String
  | .entry v => "signature must be a mapping, got " ++ v.kindName
  | .parameter v => "parameter must be a mapping, got " ++ v.kindName
  | .parameters => "parameters must be a list"
  | .required field => Text.quoted field ++ " must be a non-empty string"
  | .optional field => Text.quoted field ++ " must be a string or null"

def requiredText (entries : List (Data × Data)) (field : String) : Except SignatureError String :=
  match Data.field? entries field with
  | some (.text s) => if s.isEmpty then .error (.required field) else .ok s
  | _ => .error (.required field)

/-- A text that may be missing or null. -/
def optionalText (entries : List (Data × Data)) (field : String) :
    Except SignatureError (Option String) :=
  match Data.field? entries field with
  | none => .ok none
  | some .null => .ok none
  | some (.text s) => .ok (some s)
  | some _ => .error (.optional field)

namespace ParameterSignature

def outline (p : ParameterSignature) : Outline :=
  .record [("name", .text p.name), ("default", .ofText? p.default)]

def ofData : Data → Except SignatureError ParameterSignature
  | .mapping entries => do
    let name ← requiredText entries "name"
    return { name, default := ← optionalText entries "default" }
  | v => .error (.parameter v)

end ParameterSignature

namespace Signature

/-- The names and defaults of the parameters. -/
def shape (s : Signature) : List (String × Option String) :=
  s.parameters.map fun p => (p.name, p.default)

/-- A signature without the node it comes from. -/
def bare (s : Signature) : Signature := { s with node := none }

/-- Whether two signatures are equal as far as others see. -/
def sameAs (s t : Signature) : Bool := s.bare == t.bare

def outline (s : Signature) : Outline :=
  .record [
    ("name", .text s.name),
    ("uid", .ofText? s.uid),
    ("parameters", .list (s.parameters.map ParameterSignature.outline)),
    ("body_hash", .ofText? s.bodyHash)]

/-- The data of the parameters; anything that does not count as given is no parameters. -/
def parameterData (entries : List (Data × Data)) : Except SignatureError (List Data) :=
  match Data.field? entries "parameters" with
  | none => .ok []
  | some v =>
    if !v.isGiven then .ok []
    else
      match v with
      | .list l => .ok l
      | _ => .error .parameters

def ofData : Data → Except SignatureError Signature
  | .mapping entries => do
    let parameters ← parameterData entries
    let name ← requiredText entries "name"
    let parameters ← parameters.mapM ParameterSignature.ofData
    let uid ← optionalText entries "uid"
    let bodyHash ← optionalText entries "body_hash"
    return { name, parameters, uid, bodyHash }
  | v => .error (.entry v)

end Signature

end Actionbook
