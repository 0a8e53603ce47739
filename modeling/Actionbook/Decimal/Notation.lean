import Actionbook.Decimal.Shortest

/-!
# How numbers are written

Numbers are written with the fewest digits that identify them: positionally, with a digit on either
side of the point, if the leading digit's exponent lies between -4 and 15, and otherwise with a
signed exponent of at least two digits.
-/

namespace Actionbook.Decimal

/-- The decimal digits of a number. -/
def digitsOf (n : Nat) : List Char := Nat.toDigits 10 n

/-- A text of digits without the zeros at its end. -/
def dropTrailingZeros (s : List Char) : List Char :=
  s.foldr (fun c r => if r.isEmpty && c == '0' then [] else c :: r) []

/-- Lays out digits whose first stands for units of `10 ^ exponent`. -/
def layOut (digits : List Char) (exponent : Int) : List Char :=
  if -4 ≤ exponent ∧ exponent < 16 then
    if exponent < 0 then
      '0' :: '.' :: List.replicate (-exponent - 1).toNat '0' ++ digits
    else
      let whole := digits.take (exponent.toNat + 1)
      let fraction := digits.drop (exponent.toNat + 1)
      whole ++ List.replicate (exponent.toNat + 1 - whole.length) '0' ++ '.' ::
        (if fraction.isEmpty then ['0'] else fraction)
  else
    let power := digitsOf exponent.natAbs
    let mantissa := match digits with
      | [] => []
      | [d] => [d]
      | d :: ds => d :: '.' :: ds
    mantissa ++ 'e' :: (if exponent < 0 then '-' else '+') ::
      (if power.length < 2 then '0' :: power else power)

def finiteText (x : Binary64) : String :=
  let size :=
    if x.isZero then ['0', '.', '0']
    else
      let d := shortest x
      let digits := digitsOf d.digits
      layOut (dropTrailingZeros digits) (d.exp + digits.length - 1)
  String.ofList (if x.isNegative then '-' :: size else size)

/-- The text of a number in messages. -/
def text (x : Binary64) : String :=
  if x.isNaN then "nan"
  else if x.isInfinite then (if x.isNegative then "-inf" else "inf")
  else finiteText x

def integerText (n : Int) : String :=
  String.ofList (if n < 0 then '-' :: digitsOf n.natAbs else digitsOf n.natAbs)

end Actionbook.Decimal
