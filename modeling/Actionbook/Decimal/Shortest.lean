import Actionbook.Decimal.Binary64

/-!
# The fewest digits that read back

The reals that round to a finite value form an interval, which holds its ends when the significand
is even. For one digit, two digits and so on the value's two neighbours on the decimal grid are
tested against that interval in exact integer arithmetic; the first grid with a hit wins, of two
hits the nearer one, and of two equally near ones the even one.
-/

namespace Actionbook.Decimal

/-- The number `digits * 10 ^ exp`. -/
structure Scaled where
  digits : Nat
  exp : Int
deriving DecidableEq, Repr

/-- Compares `a * 10 ^ i` with `n * 2 ^ j`. -/
def compareScaled (a : Nat) (i : Int) (n : Nat) (j : Int) : Ordering :=
  compare (a * Nat.pow 10 i.toNat * Nat.pow 2 (-j).toNat)
    (n * Nat.pow 2 j.toNat * Nat.pow 10 (-i).toNat)

/-- Whether a decimal lies among the reals that round to the magnitude of `x`. -/
def readsBack (x : Binary64) (d : Scaled) : Bool :=
  let m := x.significand
  let low := compareScaled d.digits d.exp (if x.narrowBelow then 4 * m - 1 else 4 * m - 2) (x.exponent - 2)
  let high := compareScaled d.digits d.exp (4 * m + 2) (x.exponent - 2)
  let closed := m % 2 == 0
  (low == .gt || (closed && low == .eq)) && (high == .lt || (closed && high == .eq))

/-- The least `k` such that the magnitude of `x` is below `10 ^ k`. The estimate from the binary
logarithm is at most two too small. -/
def magnitude (x : Binary64) : Int :=
  let log : Int := x.significand.log2 + x.exponent
  let k := Int.fdiv (log * 1233) 4096
  if compareScaled 1 k x.significand x.exponent == .gt then k
  else if compareScaled 1 (k + 1) x.significand x.exponent == .gt then k + 1
  else k + 2

/-- The decimal with at most `n` digits that reads back, if there is one: the nearer neighbour of
the value on the grid of that many digits. -/
def withDigits? (x : Binary64) (k : Int) (n : Nat) : Option Scaled :=
  let grid := k - n
  let num := x.significand * Nat.pow 2 x.exponent.toNat * Nat.pow 10 (-grid).toNat
  let den := Nat.pow 2 (-x.exponent).toNat * Nat.pow 10 grid.toNat
  let below : Scaled := ⟨num / den, grid⟩
  let above : Scaled := ⟨num / den + 1, grid⟩
  match readsBack x below, readsBack x above with
  | true, true =>
    match compare (2 * num) ((below.digits + above.digits) * den) with
    | .lt => some below
    | .gt => some above
    | .eq => if below.digits % 2 = 0 then some below else some above
  | true, false => some below
  | false, true => some above
  | false, false => none

/-- The decimal with the fewest digits that reads back as the magnitude of a finite value other than
zero; seventeen digits suffice. -/
def shortest (x : Binary64) : Scaled :=
  let k := magnitude x
  ((List.range 17).findSome? fun n => withDigits? x k (n + 1)).getD
    ⟨x.significand * Nat.pow 2 x.exponent.toNat * Nat.pow 5 (-x.exponent).toNat,
      -(-x.exponent).toNat⟩

end Actionbook.Decimal
