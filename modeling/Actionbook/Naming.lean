import Actionbook.Choice
import Actionbook.Text.Marks
import Actionbook.Text.WordChar
import Actionbook.Text.Case

/-!
# Identifiers

A name becomes an identifier or a file name by splitting it into words and joining them as a
convention says. The words are the runs of letters and numbers, without accents and in small letters.
-/

namespace Actionbook

/-- The ways to join words. -/
inductive Naming where
  | snake
  | camel
  | pascal
  | kebab
deriving DecidableEq, Repr

namespace Naming

def name : Naming → String
  | .snake => "snake"
  | .camel => "camel"
  | .pascal => "pascal"
  | .kebab => "kebab"

/-- The convention with a name. -/
def ofData (value : Data) : Except UnknownChoice Naming :=
  choose "NamingConvention" ([Naming.snake, .camel, .pascal, .kebab].map fun n => (n.name, n)) value

end Naming

def wordRuns : List Char → List (List Char)
  | [] => []
  | c :: r =>
    if Text.isWordChar c then
      match r with
      | [] => [[c]]
      | d :: _ =>
        if Text.isWordChar d then
          match wordRuns r with
          | [] => [[c]]
          | w :: ws => (c :: w) :: ws
        else [c] :: wordRuns r
    else wordRuns r

def splitWords (name : String) : List (List Char) :=
  (wordRuns (Text.withoutMarks name.toList)).map Text.lower

/-- Words joined as a convention says. -/
def Naming.join (naming : Naming) (words : List (List Char)) : List Char :=
  match naming with
  | .snake => ['_'].intercalate words
  | .kebab => ['-'].intercalate words
  | .pascal => words.flatMap Text.capitalize
  | .camel => words.headD [] ++ words.tail.flatMap Text.capitalize

/-- The identifier of a name; empty if the name has no word. -/
def identifier (naming : Naming) (name : String) : String :=
  String.ofList (naming.join (splitWords name))

end Actionbook
