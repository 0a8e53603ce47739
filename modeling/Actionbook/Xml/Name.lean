import Actionbook.Text.CodePoints

/-!
# Names

The characters of names in XML documents, as of the fourth edition of the recommendation: names start
with a letter, an ideograph or an underscore and go on with digits, combining characters, extenders,
hyphens and points as well. The colon is no part of a name here: it divides a prefix from a name.
-/

namespace Actionbook.Xml

/-- Letters and ideographs beyond ASCII. -/
def letterTable : Text.CodePoints := .ofLines
  ["c0+16 1+1e 1+39 2+a 2+7 1+34 1+43 9+23 3+1 4+1d 38+58 12+6 c4 1+2 1 1+13 1+2b 1+6 3 1 1 1 ",
   "1+11 d+b 1+41 1+b 1+23 e+34 2+1 2+1 3+1b 2+7 2+1 37+25 2 7+25 49+1a 5+2 2e+19 6+9 26+46 2+4 ",
   "1+e 1+3 1 f+1 21e+34 3 1a+9 23+7 2+1 2+15 1+6 1 3+3 22+1 1+2 e+1 13+5 4+1 2+15 1+6 1+1 1+1 ",
   "1+1 1f+3 1 13+2 10+6 1 1+2 1+15 1+6 1+1 1+4 3 22 24+7 2+1 2+15 1+6 1+1 2+3 3 1e+1 1+2 23+5 ",
   "3+2 1+3 3+1 1 1+1 3+1 3+2 3+7 1+2 4b+7 1+2 1+16 1+9 1+4 26+1 23+7 1+2 1+16 1+9 1+4 24 1+1 ",
   "23+7 1+2 1+16 1+f 26+1 9f+2d 1 1+1 c+5 3b+1 1 2+1 1 2 6+3 1+6 1+2 1 1 2+1 1+1 1 1+1 9 2+4 ",
   "7b+7 1+20 136+25 a+26 9 1+1 1+2 1 1+1 1+4 29 1 1 b 1 1 3+1 3 5+2 1 1 1 1 3+1 3+1 1 28 9 2 ",
   "2+1 7+1 1 1+6 28 4 8 c06+9b 4+59 6+15 2+5 2+25 2+5 2+7 1 1 1 1+1e 2+34 1+6 1 3+2 1+6 3+3 2+5 ",
   "4+c 5+2 1+6 129 3+1 2 51+2 e84 19+8 17+53 c+59 a+27 1cd3+51a5 c5a+2ba3"]

/-- Digits, combining characters and extenders beyond ASCII. -/
def continuationTable : Text.CodePoints := .ofLines
  ["b7 218+1 2e+45 1a+1 25 fb+3 10a+10 1+16 1+2 1 1+1 1 7b a+7 d+9 6 65+e 2+1 1+3 2+9 207+2 38 ",
   "1+f 3+3 d+1 2+9 11+2 38 1+6 2+1 2+2 9 a+1 2+9 12 39 1+4 4+1 2+2 18+b f+2 38 1+7 1+2 1+2 18+9 ",
   "11+2 38 1+5 3+1 2+2 8+1 e+9 12+1 3a+4 3+2 1+3 9 f+8 11+2 3a+6 1+2 1+3 7+1 f+9 12+1 3a+6 1+2 ",
   "1+3 7+1 f+9 12+1 3a+5 2+2 1+3 9 e+9 c1 2+6 b+8 1+9 57 2+5 1+1 9 1+5 2+9 3e+1 6+9 b 1 1 4+1 ",
   "31+13 1+5 4+5 1 1+14 3+6 1 1116+c 4 f23 24+5 1+4 63+1 2+1 5d+2"]

/-- Whether a name can start with a character. -/
def isNameStart (c : Char) : Bool :=
  if c.toNat < 128 then c.isAlpha || c == '_' else letterTable.contains c

/-- Whether a name can go on with a character. -/
def isNameChar (c : Char) : Bool :=
  if c.toNat < 128 then c.isAlphanum || c == '_' || c == '-' || c == '.'
  else letterTable.contains c || continuationTable.contains c

/-- A name at the start of a text, and what follows it. -/
def name? : List Char → Option (List Char × List Char)
  | [] => none
  | c :: r => if isNameStart c then some (c :: r.takeWhile isNameChar, r.dropWhile isNameChar) else none

end Actionbook.Xml
