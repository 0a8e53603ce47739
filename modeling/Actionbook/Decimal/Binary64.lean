/-!
# Binary floating-point numbers

A `Binary64` is the bit pattern of a 64-bit floating-point number. Every finite value is an integer
number of units of `2 ^ -1074`, the least positive value, so values are compared as integers.
-/

namespace Actionbook

/-- A 64-bit floating-point number, by its bit pattern. -/
structure Binary64 where
  bits : UInt64
deriving DecidableEq, Repr

namespace Binary64

def isNegative (x : Binary64) : Bool := x.bits >>> 63 == 1

def exponentField (x : Binary64) : Nat := ((x.bits >>> 52) &&& 0x7FF).toNat

def fractionField (x : Binary64) : Nat := (x.bits &&& 0xFFFFFFFFFFFFF).toNat

def isNaN (x : Binary64) : Bool := x.exponentField == 0x7FF && x.fractionField != 0

def isInfinite (x : Binary64) : Bool := x.exponentField == 0x7FF && x.fractionField == 0

/-- Zero of either sign. -/
def isZero (x : Binary64) : Bool := x.exponentField == 0 && x.fractionField == 0

/-- The magnitude of a finite value is `significand * 2 ^ exponent`. -/
def significand (x : Binary64) : Nat :=
  if x.exponentField == 0 then x.fractionField else Nat.pow 2 52 + x.fractionField

/-- The power of two that goes with `significand`. -/
def exponent (x : Binary64) : Int :=
  if x.exponentField == 0 then -1074 else (x.exponentField : Int) - 1075

/-- Whether the value below is half as far away as the value above. -/
def narrowBelow (x : Binary64) : Bool := x.fractionField == 0 && x.exponentField > 1

/-- A finite value in units of `2 ^ -1074`; an infinity counts as more than any finite value. -/
def units (x : Binary64) : Int :=
  let size : Int := x.significand * Int.pow 2 (x.exponent + 1074).toNat
  if x.isNegative then -size else size

/-- The integer that a finite value is, if it is one. -/
def toInt? (x : Binary64) : Option Int :=
  if x.exponentField == 0x7FF then none
  else if x.units % Int.pow 2 1074 = 0 then some (x.units / Int.pow 2 1074) else none

/-- The value nearest to `digits * 10 ^ power`, ties to the even significand. -/
def ofDecimal (negative : Bool) (digits : Nat) (power : Int) : Binary64 :=
  let size := Float.ofScientific digits (power < 0) power.natAbs
  ⟨(if negative then -size else size).toBits⟩

/-- The value nearest to an integer. -/
def ofInt (n : Int) : Binary64 := ofDecimal (n < 0) n.natAbs 0

def infinity (negative : Bool) : Binary64 :=
  ⟨if negative then 0xFFF0000000000000 else 0x7FF0000000000000⟩

/-- The value that is not a number. -/
def nan : Binary64 := ⟨0x7FF8000000000000⟩

/-- Sum, rounded. -/
def add (x y : Binary64) : Binary64 := ⟨(Float.ofBits x.bits + Float.ofBits y.bits).toBits⟩

/-- Product, rounded. -/
def mul (x y : Binary64) : Binary64 := ⟨(Float.ofBits x.bits * Float.ofBits y.bits).toBits⟩

end Binary64

end Actionbook
