/-!
# Blank characters

The 29 characters that count as blank: the white space of the character database and the four
information separators. The zero width space and the byte order mark are no blanks.
-/

namespace Actionbook.Text

/-- Closed ranges of the blank characters, ascending and apart. -/
def blankRanges : List (Nat × Nat) :=
  [(0x9, 0xD), (0x1C, 0x20), (0x85, 0x85), (0xA0, 0xA0), (0x1680, 0x1680), (0x2000, 0x200A),
   (0x2028, 0x2029), (0x202F, 0x202F), (0x205F, 0x205F), (0x3000, 0x3000)]

def isBlank (c : Char) : Bool :=
  blankRanges.any fun r => r.1 ≤ c.toNat && c.toNat ≤ r.2

/-- A text without the blanks at its end. -/
def trimRight (s : List Char) : List Char :=
  s.foldr (fun c r => if r.isEmpty && isBlank c then [] else c :: r) []

/-- A text without the blanks at either end. -/
def trim (s : List Char) : List Char :=
  trimRight (s.dropWhile isBlank)

/-- A text without the blanks at either end. -/
def trimmed (s : String) : String :=
  String.ofList (trim s.toList)

end Actionbook.Text
