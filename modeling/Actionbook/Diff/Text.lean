import Actionbook.Diff
import Actionbook.Naming

/-!
# Differences as text

A summary for readers with a section for every kind of change, and lists of identifiers for tools that
change code.
-/

namespace Actionbook

/-- A count with a noun, which takes an s unless there is exactly one. -/
def counted (count : Int) (noun : String) : String :=
  Decimal.integerText count ++ " " ++ (if count = 1 then noun else noun ++ "s")

namespace Diff

/-- The line of a section for an entry. -/
def entryLine (e : DiffEntry) : String :=
  match e.change with
  | .renamed => "- " ++ e.name ++ " => " ++ (Data.ofText? e.newName).shown
  | _ => "- " ++ e.name

/-- The last words of a section's title. -/
def sectionTitle : Change → String
  | .deleted => "deleted"
  | .created => "created"
  | .renamed => "renamed"
  | .signatureChanged => "which signature changed"

/-- The section for a kind of change, if there is any. -/
def sectionText? (d : Diff) (c : Change) : Option String :=
  let entries := d.group c
  if entries.isEmpty then none
  else
    let title := counted entries.length "action word" ++ " " ++ sectionTitle c ++ ":"
    some ("\n".intercalate (title :: entries.map entryLine))

def summary (d : Diff) : String :=
  let sections := Change.all.filterMap d.sectionText?
  if sections.isEmpty then "No action words changed\n" else "\n\n".intercalate sections ++ "\n"

/-- The identifiers of the action words that are gone, by the convention of the given name. -/
def deletedNames (d : Diff) (naming : Data) : Except UnknownChoice (List String) :=
  d.deleted.mapM fun e => do return identifier (← Naming.ofData naming) e.name

/-- The old and the new identifiers of renamed action words, with a tab between them. -/
def renamedLines (d : Diff) (naming : Data) : Except UnknownChoice (List String) :=
  d.renamed.mapM fun e => do
    let naming ← Naming.ofData naming
    return identifier naming e.name ++ "\t" ++ identifier naming (e.newName.getD "")

end Diff

end Actionbook
