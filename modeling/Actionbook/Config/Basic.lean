import Actionbook.Data.Order
import Actionbook.Diff
import Actionbook.Output.Group

/-!
# Configurations

A configuration is a mapping. Its section `diff` names the rule for renamings, and its section
`languages` has the output groups for every language by category; a category may have a list of
groups. A section that is empty or null is not there.
-/

namespace Actionbook.Config

/-- A value, or an empty mapping if nothing is given. -/
def orNothing (v : Data) : Data := if v.isGiven then v else .mapping []

/-- The entries of a value that has to be a mapping. -/
def settings : Data → Except ConfigError (List (Data × Data))
  | .mapping e => .ok e
  | _ => .error .noSettings

/-- The value of an entry, or null. -/
def lookUp (entries : List (Data × Data)) (name : String) : Data :=
  (Data.field? entries name).getD .null

/-- The value of an entry, or a default. -/
def lookUpOr (default : Data) (entries : List (Data × Data)) (name : String) : Data :=
  (Data.field? entries name).getD default

/-- The rule for renamings: one of two names, by default `shape_and_body`. -/
def renameMatch (config : Data) : Except ConfigError RenameMatch := do
  let diff ← settings (orNothing (lookUp (← settings config) "diff"))
  let value := lookUpOr (.text RenameMatch.shapeAndBody.name) diff "rename_match"
  if value.key?.isNone then throw .unsuitable
  match RenameMatch.all.find? fun m => Data.isText m.name value with
  | some m => return m
  | none => throw (.unknownRule value (RenameMatch.all.map RenameMatch.name))

/-- The convention for identifiers in a group. -/
def namingOf (language : String) (entry : List (Data × Data)) : Except ConfigError Naming :=
  let value := lookUpOr (.text Naming.snake.name) entry "naming"
  match Naming.ofData value with
  | .ok n => .ok n
  | .error _ => .error (.unknownNaming language value)

/-- The further settings of a group. -/
def contextOf (entry : List (Data × Data)) : Except ConfigError (List (Data × Data)) :=
  match Data.asEntries (orNothing (lookUp entry "context")) with
  | .ok e => .ok e
  | .error e => .error (.entries e)

/-- The group that a value describes. -/
def groupOf (language : String) (category : Category) : Data → Except ConfigError OutputGroup
  | .mapping entry => do
    let naming ← namingOf language entry
    let settings ← contextOf entry
    let own := lookUpOr (.text language) entry "language"
    let files ← FileNaming.make own category (lookUp entry "filename") (lookUp entry "named_filename")
    return {
      category, language := own, files, naming, settings
      directory := lookUpOr (.text "") entry "output_directory" }
  | _ => .error (.groupShape language category.name)

/-- The groups of one category, if it is asked for. -/
def groupsOf (language : String) (asked : Option Category) (entry : Data × Data) :
    Except ConfigError (List OutputGroup) := do
  let category ← match Category.ofData entry.1 with
    | .ok c => pure c
    | .error _ => throw (.unknownCategory language entry.1)
  if asked.any (· ≠ category) then return []
  match entry.2 with
  | .list l => l.mapM (groupOf language category)
  | v => return [← groupOf language category v]

def outputsOf (languages : Data) (language : String) : Except ConfigError (List (Data × Data)) :=
  match languages with
  | .mapping e => settings (orNothing (lookUp e language))
  | _ => .error .unsuitable

/-- The output groups for a language, of all categories or of the one asked for. -/
def outputGroups (config : Data) (language : String) (category : Option Data) :
    Except ConfigError (List OutputGroup) := do
  let languages := orNothing (lookUp (← settings config) "languages")
  match languages.holds? language with
  | none => throw .unsuitable
  | some false =>
    match languages.members?.bind Data.sort? with
    | some available => throw (.unknownLanguage language available)
    | none => throw .unsuitable
  | some true => pure ()
  let asked ← match category with
    | none => pure none
    | some value =>
      match Category.ofData value with
      | .ok c => pure (some c)
      | .error e => throw (.unknownChoice e)
  let groups ← (← outputsOf languages language).mapM (groupsOf language asked)
  return groups.flatten

end Actionbook.Config
