import Actionbook.Data.Outline
import Actionbook.Yaml.Writer

/-!
# Writing documents

A document is a list with one line for every text in it. The items of a list stand behind hyphens, and
the fields of a record below one another; a list in a field is indented no further than the field.
-/

namespace Actionbook.Yaml

/-- Spaces at the start of a line. -/
def indentation (indent : Nat) : List Char := List.replicate indent ' '

mutual

/-- An item whose first line has been indented; its further lines are indented as far. -/
def itemText (indent : Nat) : Outline → List Char
  | .null => "null\n".toList
  | .text s => writeText indent indent s ++ ['\n']
  | .list [] => "[]\n".toList
  | .list (v :: l) => ['-', ' '] ++ itemText (indent + 2) v ++ itemLines indent l
  | .record [] => "\x7b\x7d\n".toList
  | .record ((name, v) :: l) => name.toList ++ fieldText indent name.length v ++ fieldLines indent l

def itemLines (indent : Nat) : List Outline → List Char
  | [] => []
  | v :: l => indentation indent ++ ['-', ' '] ++ itemText (indent + 2) v ++ itemLines indent l

/-- What follows the name of a field, which is `width` characters long. -/
def fieldText (indent width : Nat) : Outline → List Char
  | .null => ": null\n".toList
  | .text s => [':', ' '] ++ writeText (indent + 2) (indent + width + 2) s ++ ['\n']
  | .list [] => ": []\n".toList
  | .list (v :: l) => [':', '\n'] ++ itemLines indent (v :: l)
  | .record [] => ": \x7b\x7d\n".toList
  | .record (e :: l) => [':', '\n'] ++ fieldLines (indent + 2) (e :: l)

def fieldLines (indent : Nat) : List (String × Outline) → List Char
  | [] => []
  | (name, v) :: l =>
    indentation indent ++ name.toList ++ fieldText indent name.length v ++ fieldLines indent l

end

def write (items : List Outline) : String :=
  String.ofList (if items.isEmpty then "[]\n".toList else itemLines 0 items)

end Actionbook.Yaml
