/-! Double precision numbers by their 64 bits: sign, 11 bits of exponent, 52 of fraction.

A finite number is `significand · 2 ^ exponent` up to its sign, with the
significand below `2 ^ 53` and the exponent at least -1074. -/
namespace Custody

structure Double where
  bits : UInt64
  deriving DecidableEq, Repr

namespace Double

/-- The leading bit of a significand, which is not stored: `2 ^ 52`. -/
def leadingBit : Nat := 1 <<< 52

def nan : Double := ⟨0x7FF8000000000000⟩
def infinity : Double := ⟨0x7FF0000000000000⟩
def negativeInfinity : Double := ⟨0xFFF0000000000000⟩
def negativeZero : Double := ⟨0x8000000000000000⟩

def isNegative (x : Double) : Bool :=
  1 <<< 63 ≤ x.bits.toNat

def exponentField (x : Double) : Nat :=
  x.bits.toNat / leadingBit % 2048

def fractionField (x : Double) : Nat :=
  x.bits.toNat % leadingBit

def isNaN (x : Double) : Bool :=
  x.exponentField == 2047 && x.fractionField != 0

def isInfinite (x : Double) : Bool :=
  x.exponentField == 2047 && x.fractionField == 0

def isZero (x : Double) : Bool :=
  x.exponentField == 0 && x.fractionField == 0

def significand (x : Double) : Nat :=
  if x.exponentField = 0 then x.fractionField else leadingBit + x.fractionField

def exponent (x : Double) : Int :=
  (max x.exponentField 1 : Nat) - 1075

/-- Equality of numbers: a NaN differs from everything, the two zeros are equal. -/
def same (x y : Double) : Bool :=
  !x.isNaN && !y.isNaN && (x.bits == y.bits || x.isZero && y.isZero)

/-- `numerator / denominator` to the nearest integer, a half to the even one. -/
def roundHalfEven (numerator denominator : Nat) : Nat :=
  let floor := numerator / denominator
  let twice := 2 * (numerator % denominator)
  if denominator < twice ∨ (twice = denominator ∧ floor % 2 = 1) then floor + 1 else floor

/-- The number nearest to a quotient of natural numbers, a half to the even one.

The integer that counts units of `2 ^ exponent` may round up to `2 ^ 53`: adding it to the
exponent field carries, and the carry is the next exponent, or infinity after the last. -/
def ofRatio (negative : Bool) (numerator denominator : Nat) : Double :=
  let sign := if negative then 1 <<< 63 else 0
  if numerator = 0 then ⟨UInt64.ofNat sign⟩
  else
    let scaled (power : Int) : Nat × Nat :=
      (numerator <<< (-power).toNat, denominator <<< power.toNat)
    let estimate : Int := (Nat.log2 numerator : Int) - Nat.log2 denominator
    let below := (scaled estimate).1 < (scaled estimate).2
    let power := max (if below then estimate - 53 else estimate - 52) (-1074)
    let units := roundHalfEven (scaled power).1 (scaled power).2
    let magnitude := (power + 1074).toNat * leadingBit + units
    ⟨UInt64.ofNat (sign + min magnitude (2047 * leadingBit))⟩

/-- The number nearest to `mantissa / 10 ^ places`. -/
def ofDecimal (mantissa : Int) (places : Nat) : Double :=
  ofRatio (mantissa < 0) mantissa.natAbs (Nat.pow 10 places)

end Double
end Custody
