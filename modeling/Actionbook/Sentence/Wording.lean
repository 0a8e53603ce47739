import Actionbook.Graph.Walk
import Actionbook.Sentence.Pattern

/-!
# The sentence of a call

A call reads as a sentence: the name of its action word with the displayed arguments in place of the
placeholders, behind the effective keyword.
-/

namespace Actionbook

/-- The keywords that say what part of a test a step is. -/
def primaryKeywords : List String := ["given", "when", "then"]

/-- The keywords that go on with the part before. -/
def continuingKeywords : List String := ["and", "but"]

def sentenceKeywords : List String := primaryKeywords ++ continuingKeywords

/-- The keyword that one stands for after steps of which the last had the effective keyword
`last`. -/
def effectiveKeyword (keyword : String) (last : Option String) : String :=
  if primaryKeywords.contains keyword then keyword
  else
    match last with
    | some l => if continuingKeywords.contains keyword && !l.isEmpty then l else keyword
    | none => keyword

/-- The displayed arguments of a call with the names of the parameters they belong to. -/
def Graph.displayedArguments (g : Graph) (c : Call) : Except Fault (List (String × String)) := do
  let arguments ← g.argumentsOf c
  (arguments.filter (·.2.parameter.isSome)).mapM fun (_, a) => do
    return ((← g.parameter (a.parameter.getD 0)).name, a.value.display)

/-- The sentence of a call without its keyword. Of several arguments for parameters of one name the
last one shows. -/
def Graph.plainSentence (g : Graph) (c : Call) : Except Fault String := do
  match c.target with
  | none => return c.actionWord
  | some _ =>
    let shown ← g.displayedArguments c
    return Sentence.filled (fun name => shown.reverse.lookup name) c.actionWord

def Graph.sentenceOf (g : Graph) (c : Call) : Except Fault String := do
  let plain ← g.plainSentence c
  match c.effective with
  | none => return plain
  | some keyword =>
    return if keyword.isEmpty then plain else Text.capitalized keyword ++ " " ++ plain

end Actionbook
