import Actionbook.Diagnostic

/-!
# Errors in documents

Why a document describes no test design.
-/

namespace Actionbook

/-- Why a document describes no test design. -/
inductive DesignError where
  /-- The text is no document at all. -/
  | malformed
  /-- The root is another element. -/
  | wrongRoot (actual : String)
  /-- A part that must be there is not. -/
  | missing (element part : String)
  /-- An argument of a call has no value. -/
  | missingArgument (call : String)
  /-- An element stands where it has no meaning. -/
  | unknownElement (element reason : String)
  /-- Something has no value, or more than one. -/
  | valueCount (owner : String) (count : Nat)
  /-- A truth value is neither true nor false. -/
  | notTruth (element text : String)
  /-- A call names no action word of the design. -/
  | unknownActionWord (call : Handle) (name : String)
deriving DecidableEq, Repr

def DesignError.diagnostic : DesignError → Diagnostic
  | .malformed => { code := "PARSE_ERROR_XML" }
  | .wrongRoot actual =>
    { code := "PARSE_ERROR_STRUCTURE"
      context := [("expected", .text "project"), ("actual", .text actual)] }
  | .missing element part =>
    { code := "PARSE_ERROR_STRUCTURE"
      context := [("element", .text element), ("missing", .text part)] }
  | .missingArgument call =>
    { code := "PARSE_ERROR_STRUCTURE"
      context := [("element", .text "argument"), ("missing", .text "value"), ("call", .text call)] }
  | .unknownElement element reason =>
    { code := "PARSE_ERROR_STRUCTURE"
      context := [("element", .text element), ("reason", .text reason)] }
  | .valueCount owner count =>
    { code := "PARSE_ERROR_STRUCTURE"
      context := [("element", .text owner),
        ("reason", .text ("expected exactly one value element, got " ++ Decimal.integerText count))] }
  | .notTruth element text =>
    { code := "PARSE_ERROR_STRUCTURE"
      context := [("element", .text element), ("value", .text text)] }
  | .unknownActionWord call name =>
    { code := "PARSE_ERROR_REFERENCE", node := some call, context := [("actionword", .text name)] }

end Actionbook
