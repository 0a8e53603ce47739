/-!
# Paths

A path is a list of names, from a directory on. Empty names and single points in a written path say
nothing, and two points stand for the directory above.
-/

namespace Actionbook

/-- A path from a directory. -/
abbrev Path := List String

namespace Path

/-- The name of the directory above. -/
def above : String := ".."

def ofText (s : String) : Path := (s.splitOn "/").filter fun name => name ≠ "" ∧ name ≠ "."

def text (p : Path) : String := if p.isEmpty then "." else "/".intercalate p

end Path

end Actionbook
