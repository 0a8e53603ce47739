/-!
# Line breaks

A line ends with a line feed, a carriage return or both; reading makes all of them line feeds.
-/

namespace Actionbook.Text

/-- A text with line feeds as its only line breaks. -/
def unifyBreaks : List Char → List Char
  | [] => []
  | '\r' :: '\n' :: r => '\n' :: unifyBreaks r
  | '\r' :: r => '\n' :: unifyBreaks r
  | c :: r => c :: unifyBreaks r

end Actionbook.Text
