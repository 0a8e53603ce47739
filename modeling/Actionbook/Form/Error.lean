import Actionbook.Text.Quoted

/-!
# Faults of name forms

What is wrong with a form, with what it asks for, or with how it wants a text to be laid out.
-/

namespace Actionbook

/-- Why a form cannot be filled in. -/
inductive FormError where
  /-- An opening brace stands alone at the end. -/
  | loneOpening
  /-- A closing brace stands alone. -/
  | loneClosing
  /-- A field is not closed. -/
  | unclosed
  /-- An opening brace stands in the name of a field. -/
  | braceInName
  /-- The form ends where a conversion is due. -/
  | noConversion
  /-- Something else than a layout follows a conversion. -/
  | afterConversion
  /-- The layout of a field is not closed. -/
  | unclosedLayout
  /-- Fields stand in the layout of a field in a layout. -/
  | tooDeep
  /-- There is no such conversion. -/
  | unknownConversion (c : Char)
  /-- A number is too large. -/
  | longNumber
  /-- A field has a name that stands for nothing. -/
  | unknownName
  /-- A field is known by a number. -/
  | numbered
  /-- An attribute has no name, or an item no index. -/
  | emptyAttribute
  /-- A text has no attributes. -/
  | attribute
  /-- Something else follows an index. -/
  | afterIndex
  /-- An index is not closed. -/
  | unclosedIndex
  /-- A text has no item at an index. -/
  | outside
  /-- An index is no number. -/
  | noNumber
  /-- Two marks for groups of digits are given. -/
  | bothMarks
  /-- A mark for groups of digits is given for a kind of value without. -/
  | mark (separator letter : Char)
  /-- A point has no precision behind it. -/
  | noPrecision
  /-- A layout has no meaning. -/
  | noLayout (layout : String)
  /-- A layout is for another kind of values. -/
  | kind (c : Char)
  /-- A sign is asked for. -/
  | sign
  /-- A blank is asked for in place of a sign. -/
  | blankSign
  /-- Negative zeros are excluded. -/
  | negativeZero
  /-- An alternate form is asked for. -/
  | alternate
  /-- Padding is asked for behind a sign. -/
  | signPadding
  /-- The width is beyond all bounds. -/
  | tooWide
deriving DecidableEq, Repr

/-- How a message shows a character: by its number unless it is visible and at most `last`. -/
def visibleChar (last : Nat) (c : Char) : String :=
  if 32 < c.toNat ∧ c.toNat ≤ last then String.singleton c
  else "\\x" ++ String.ofList (Nat.toDigits 16 c.toNat)

/-- The message of an error; what is merely not there has none. -/
def FormError.message? : FormError → Option String
  | .loneOpening => some "Single '\x7b' encountered in format string"
  | .loneClosing => some "Single '\x7d' encountered in format string"
  | .unclosed => some "expected '\x7d' before end of string"
  | .braceInName => some "unexpected '\x7b' in field name"
  | .noConversion => some "end of string while looking for conversion specifier"
  | .afterConversion => some "expected ':' after conversion specifier"
  | .unclosedLayout => some "unmatched '\x7b' in format spec"
  | .tooDeep => some "Max string recursion exceeded"
  | .unknownConversion c => some ("Unknown conversion specifier " ++ visibleChar 126 c)
  | .longNumber => some "Too many decimal digits in format string"
  | .emptyAttribute => some "Empty attribute in format string"
  | .afterIndex => some "Only '.' or '[' may follow ']' in format field specifier"
  | .unclosedIndex => some "Missing ']' in format string"
  | .bothMarks => some "Cannot specify both ',' and '_'."
  | .mark separator letter =>
    some ("Cannot specify '" ++ String.singleton separator ++ "' with '" ++ visibleChar 127 letter ++ "'.")
  | .noPrecision => some "Format specifier missing precision"
  | .noLayout layout =>
    some ("Invalid format specifier '" ++ layout ++ "' for object of type 'str'")
  | .kind c =>
    some ("Unknown format code '" ++ visibleChar 127 c ++ "' for object of type 'str'")
  | .sign => some "Sign not allowed in string format specifier"
  | .blankSign => some "Space not allowed in string format specifier"
  | .negativeZero => some "Negative zero coercion (z) not allowed in string format specifier"
  | .alternate => some "Alternate form (#) not allowed in string format specifier"
  | .signPadding => some "'=' alignment not allowed in string format specifier"
  | _ => none

end Actionbook
