import Actionbook.Text.CodePoints

/-!
# Decimal digits

The characters of general category Nd, as of version 14 of the character database.
-/

namespace Actionbook.Text

/-- Decimal digits beyond ASCII. -/
def digitTable : CodePoints := .ofLines
  ["660+9 86+9 c6+9 19c+9 76+9 76+9 76+9 76+9 76+9 76+9 76+9 76+9 76+9 60+9 76+9 46+9 116+9 46+9 ",
   "746+9 26+9 12c+9 80+9 a6+9 6+9 b6+9 56+9 86+9 6+9 89c6+9 2a6+9 26+9 c6+9 16+9 56+9 196+9 ",
   "5316+9 586+9 886+9 32c+9 80+9 3c+9 90+9 116+9 156+9 76+9 176+9 66+9 66+9 1a6+9 66+9 2f6+9 ",
   "f6+9 46+9 4cb6+9 56+9 86+9 6c74+31 940+9 1a6+9 656+9 1296+9"]

/-- Whether a character is a decimal digit of any script. -/
def isDigit (c : Char) : Bool :=
  if c.toNat < 128 then c.isDigit else digitTable.contains c

/-- The value of a decimal digit: every script's digits are ten consecutive characters, and the
first of them stands for zero. -/
def digitValue (c : Char) : Nat :=
  if c.toNat < 128 then c.toNat - 48
  else
    match digitTable.ranges.find? (fun r => r.1 ≤ c.toNat ∧ c.toNat ≤ r.2) with
    | some r => (c.toNat - r.1) % 10
    | none => 0

end Actionbook.Text
