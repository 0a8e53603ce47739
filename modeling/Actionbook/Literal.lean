import Actionbook.Value
import Actionbook.Text.Digit

/-!
# Literals and their types

A literal shows the type of the parameter it is given for, and a captured text becomes a literal of
a parameter's type if it is written like one. A single line break at the end of a number is
overlooked.
-/

namespace Actionbook

/-- The types that literals show. -/
inductive LiteralType where
  | string
  | int
  | float
  | bool
deriving DecidableEq, Repr

/-- The tag by which a type is known. -/
def LiteralType.tag : LiteralType → String
  | .string => "String"
  | .int => "int"
  | .float => "float"
  | .bool => "bool"

namespace Numeral

/-- A text without a line break at its very end. -/
def dropFinalNewline : List Char → List Char
  | [] => []
  | ['\n'] => []
  | c :: r => c :: dropFinalNewline r

/-- A text without a sign in front. -/
def dropSign : List Char → List Char
  | '+' :: r => r
  | '-' :: r => r
  | r => r

/-- Whether a text is one or more digits. -/
def isDigits (s : List Char) : Bool := !s.isEmpty && s.all Text.isDigit

/-- Whether a text is an integer: digits with or without a sign. -/
def isInteger (s : List Char) : Bool := isDigits (dropSign (dropFinalNewline s))

/-- Whether a text is a decimal number: a sign or none, and digits with a point among them or none;
the digits may all stand on one side of the point. -/
def isDecimal (s : List Char) : Bool :=
  let s := dropSign (dropFinalNewline s)
  match s.dropWhile Text.isDigit with
  | [] => !s.isEmpty
  | '.' :: fraction =>
    fraction.all Text.isDigit && !((s.takeWhile Text.isDigit).isEmpty && fraction.isEmpty)
  | _ => false

end Numeral

namespace Value

/-- The type that a literal shows. References and null show none. -/
def literalType : Value → Option LiteralType
  | .string _ => some .string
  | .template _ _ => some .string
  | .numeric t => some (if Numeral.isInteger t.toList then .int else .float)
  | .boolean _ => some .bool
  | .null _ => none
  | .variable _ => none

/-- Whether a text is true or false in any case. -/
def isTruthText (t : String) : Bool :=
  Text.lowercase t == "true" || Text.lowercase t == "false"

/-- The literal that a captured text is for a parameter of a type: a number or a truth value if the
text is written like one of the type, else the text itself. -/
def ofCaptured (text : String) (type : Option String) : Value :=
  if (type == some LiteralType.int.tag || type == some LiteralType.float.tag) &&
      Numeral.isDecimal text.toList then .numeric text
  else if type == some LiteralType.bool.tag && isTruthText text then .boolean (Text.lowercase text)
  else .string text

end Value

end Actionbook
