import Actionbook.Diagnostic

/-!
# Warnings

A warning tells of something that does not stop the work: its cause and the node that it concerns.
-/

namespace Actionbook

/-- What a warning tells of. -/
inductive Concern where
  /-- Nothing shows the type of a parameter of the owner with the given name. -/
  | untypedParameter (name : String) (owner : Data)
  /-- A call names no action word. -/
  | unresolvedCall (callee : String)
  /-- An argument of a call matches no parameter, or one that is taken. -/
  | unresolvedArgument (label callee : String)
  /-- A call has no argument for a parameter without default. -/
  | missingArgument (callee parameter : String)
  /-- A sentence matches no action word. -/
  | unmatchedSentence (text : String)
  /-- An action word has the name of an earlier one. -/
  | duplicateActionWord (name : String)
  /-- The new name of an action word could be any of several. -/
  | ambiguousTarget (name : String) (candidates : List String)
  /-- The old name of an action word could be any of several. -/
  | ambiguousSource (name : String) (candidates : List String)
  /-- Two nodes are to be written to one place. -/
  | outputCollision (output language : Data)
  /-- Anything else. -/
  | other (code message : String)

namespace Concern

/-- The code by which a concern is known. -/
def code : Concern → String
  | .untypedParameter _ _ => "UNTYPED_PARAMETER"
  | .unresolvedCall _ => "UNRESOLVED_CALL"
  | .unresolvedArgument _ _ => "UNRESOLVED_ARGUMENT"
  | .missingArgument _ _ => "MISSING_ARGUMENT"
  | .unmatchedSentence _ => "UNMATCHED_GHERKIN_STEP"
  | .duplicateActionWord _ => "DUPLICATE_ACTIONWORD"
  | .ambiguousTarget _ _ => "AMBIGUOUS_RENAME"
  | .ambiguousSource _ _ => "AMBIGUOUS_RENAME"
  | .outputCollision _ _ => "OUTPUT_COLLISION"
  | .other code _ => code

/-- Names between quotes, as a list in brackets. -/
def listed (names : List String) : String := (Data.list (names.map .text)).literal

def message : Concern → String
  | .untypedParameter name owner =>
    "No type evidence for parameter " ++ Text.quoted name ++ " of " ++ owner.literal
  | .unresolvedCall callee => "Call to unknown action word " ++ Text.quoted callee
  | .unresolvedArgument label callee =>
    "Argument " ++ label ++ " of call to " ++ Text.quoted callee ++ " matches no parameter"
  | .missingArgument callee parameter =>
    "Call to " ++ Text.quoted callee ++ " has no value for " ++ Text.quoted parameter
  | .unmatchedSentence text => "Step " ++ Text.quoted text ++ " matches no action word"
  | .duplicateActionWord name =>
    "Action word " ++ Text.quoted name ++ " is declared more than once, keeping the first"
  | .ambiguousTarget name candidates =>
    "Action word " ++ Text.quoted name ++ " could have been renamed to any of " ++ listed candidates
  | .ambiguousSource name candidates =>
    "Action word " ++ Text.quoted name ++ " could be a rename of any of " ++ listed candidates
  | .outputCollision output language =>
    output.literal ++ " (" ++ language.shown ++ ") is already produced by another node"
  | .other _ message => message

end Concern

structure Warning where
  concern : Concern
  node : Option Handle := none

end Actionbook
