import Actionbook.Design.Basic
import Actionbook.Design.Error
import Actionbook.Literal
import Actionbook.Text.Blank
import Actionbook.Xml.Reader

/-!
# Reading test designs

A test design is a document whose root is a project. Names and references are texts without the
blanks around them and must not be empty; the texts of literals are kept as they are written, except
that blanks around numbers and truth values do not count. Elements with other names are overlooked,
but not among steps and values.
-/

namespace Actionbook

open Xml (Element)

/-- The text of a child, without blanks around it; empty if there is no such child. -/
def childText (e : Element) (tag : String) : String :=
  match e.child? tag with
  | some c => Text.trimmed c.text
  | none => ""

/-- The text of a child, unless it is empty. -/
def childText? (e : Element) (tag : String) : Option String :=
  let t := childText e tag
  if t.isEmpty then none else some t

/-- The text of a child that must be there; `owner` is who needs it. -/
def requiredChild (e : Element) (tag owner : String) : Except DesignError String :=
  match childText? e tag with
  | some t => .ok t
  | none => .error (.missing owner tag)

/-! ## Values -/

/-- A reference to a parameter. -/
def readVariable (e : Element) : Except DesignError Value :=
  .variable <$> requiredChild e "name" "variable"

def readPart (e : Element) : Except DesignError Value :=
  if e.tag = "stringliteral" then .ok (.string e.text)
  else if e.tag = "variable" then readVariable e
  else .error (.unknownElement e.tag "unsupported template part")

def readValue (e : Element) : Except DesignError Value :=
  let trimmed := Text.trimmed e.text
  match e.tag with
  | "stringliteral" => .ok (.string e.text)
  | "numericliteral" => if trimmed.isEmpty then .error (.missing e.tag "text") else .ok (.numeric trimmed)
  | "booleanliteral" =>
    if Value.isTruthText trimmed then .ok (.boolean trimmed) else .error (.notTruth e.tag trimmed)
  | "nullliteral" => .ok (.null "")
  | "variable" => readVariable e
  | "template" => .template "" <$> e.children.mapM readPart
  | tag => .error (.unknownElement tag "unknown value element")

/-- The only value in an element; `owner` is what has the value. -/
def onlyValue (e : Element) (owner : String) : Except DesignError Value :=
  match e.children with
  | [v] => readValue v
  | l => .error (.valueCount owner l.length)

/-! ## Steps -/

def readArgument (callee : String) (e : Element) : Except DesignError WrittenArgument :=
  match e.child? "value" with
  | none => .error (.missingArgument callee)
  | some v => do return { name := childText? e "name", value := ← onlyValue v "argument" }

def readStep (e : Element) : Except DesignError WrittenStep := do
  match e.tag with
  | "call" =>
    let callee ← requiredChild e "actionword" "call"
    let arguments ← (e.grandchildren "arguments" "argument").mapM (readArgument callee)
    return .call callee ((childText? e "annotation").map Text.lowercase) arguments
  | "action" =>
    let value ← match e.child? "value" with
      | none => pure (.string "")
      | some v => onlyValue v "action"
    return .plain (Text.lowercase ((childText? e "key").getD "action")) value
  | tag => throw (.unknownElement tag "unknown step element")

/-! ## Scenarios and action words -/

/-- A tag: its key and, if there is one, its value. -/
def readTag (e : Element) : Except DesignError String := do
  let key ← requiredChild e "key" "tag"
  match childText? e "value" with
  | some value => return key ++ ":" ++ value
  | none => return key

def readParameter (e : Element) : Except DesignError WrittenParameter := do
  let name ← requiredChild e "name" "parameter"
  let default ← match e.child? "default" with
    | none => pure none
    | some d => some <$> onlyValue d "default"
  return { name, type := childText? e "type", default }

/-- A scenario or an action word, apart from the data table. -/
def readDefinition (owner : String) (e : Element) : Except DesignError WrittenDefinition := do
  let name ← requiredChild e "name" owner
  let tags ← (e.grandchildren "tags" "tag").mapM readTag
  let parameters ← (e.grandchildren "parameters" "parameter").mapM readParameter
  let steps ← match e.child? "steps" with
    | none => pure []
    | some s => s.children.mapM readStep
  return {
    name, uid := childText? e "uid", description := childText e "description", tags, parameters, steps }

/-- A value in a row of a data table. -/
def readCell (e : Element) : Except DesignError (String × Value) :=
  match e.child? "value" with
  | none => .error (.missing "dataset" "value")
  | some v => do
    let name ← requiredChild e "name" "dataset argument"
    return (name, ← onlyValue v "dataset")

/-- A row of a data table. -/
def readRow (e : Element) : Except DesignError Row := do
  let arguments ← (e.grandchildren "arguments" "argument").mapM readCell
  return { name := childText e "name", arguments }

def readScenario (e : Element) : Except DesignError WrittenScenario := do
  let definition ← readDefinition "scenario" e
  let rows ← (e.grandchildren "datatable" "dataset").mapM readRow
  return { toWrittenDefinition := definition, rows }

namespace Design

def ofElement (root : Element) : Except DesignError Design := do
  if root.tag ≠ "project" then throw (.wrongRoot root.tag)
  let name ← requiredChild root "name" "project"
  let scenarios ← (root.grandchildren "scenarios" "scenario").mapM readScenario
  let actionWords ←
    (root.grandchildren "actionwords" "actionword").mapM (readDefinition "actionword")
  return { name, description := childText root "description", scenarios, actionWords }

def ofText (text : String) : Except DesignError Design :=
  match Xml.read? text with
  | some root => ofElement root
  | none => .error .malformed

end Design

end Actionbook
