import Custody.Decimal.Double

/-! The shortest decimal that reads back as a given number.

The numbers that round to a given one fill an interval around it, whose ends
belong to it when the significand is even. For one digit, two digits and so on,
the two neighbours of the number on that decimal grid are tried; the first grid
with a neighbour inside the interval gives the digits, and of two inside the
nearer one, or the greater one if both are as near. Seventeen digits always
suffice. -/
namespace Custody.Double

/-- A decimal `0.d₁d₂… · 10 ^ point`. -/
structure Digits where
  digits : List Char
  point : Int

/-- A quotient that stands for a nonnegative rational number. -/
structure Ratio where
  numerator : Nat
  denominator : Nat

def Ratio.le (x y : Ratio) : Bool :=
  x.numerator * y.denominator ≤ y.numerator * x.denominator

def Ratio.lt (x y : Ratio) : Bool :=
  x.numerator * y.denominator < y.numerator * x.denominator

/-- `n · base ^ power`. -/
def scaled (n base : Nat) (power : Int) : Ratio :=
  ⟨n * Nat.pow base power.toNat, Nat.pow base (-power).toNat⟩

/-- The reals that round to a number: the bounds in quarters of the last place. A power of two
has its lower neighbour at half the distance. -/
structure Interval where
  low : Ratio
  high : Ratio
  closed : Bool

def interval (x : Double) : Interval :=
  let m := x.significand
  let gap := if m = leadingBit ∧ 1 < x.exponentField then 1 else 2
  ⟨scaled (4 * m - gap) 2 (x.exponent - 2), scaled (4 * m + 2) 2 (x.exponent - 2), m % 2 == 0⟩

def Interval.contains (i : Interval) (r : Ratio) : Bool :=
  if i.closed then i.low.le r && r.le i.high else i.low.lt r && r.lt i.high

/-- The power of ten above a positive ratio: `10 ^ (p - 1) ≤ r < 10 ^ p`. The search starts from
`p`, which must not be too large. -/
def decimalPoint (r : Ratio) (p : Int) : Nat → Int
  | 0 => p
  | steps + 1 => if r.lt (scaled 1 10 p) then p else decimalPoint r (p + 1) steps

/-- The nearest neighbour inside the interval on the grid of `count` digits. -/
def onGrid? (r : Ratio) (i : Interval) (point : Int) (count : Nat) : Option Nat :=
  let power := point - count
  let unit := scaled 1 10 power
  let floor := (r.numerator * unit.denominator) / (r.denominator * unit.numerator)
  let below := scaled floor 10 power
  let above := scaled (floor + 1) 10 power
  let nearerBelow : Bool := decide (2 * (r.numerator * unit.denominator) <
    (2 * floor + 1) * (r.denominator * unit.numerator))
  match i.contains below, i.contains above with
  | true, true => some (if nearerBelow then floor else floor + 1)
  | true, false => some floor
  | false, true => some (floor + 1)
  | false, false => none

/-- Tries `count` digits, then one more, for `more` grids in all. -/
def searchGrids (r : Ratio) (i : Interval) (point : Int) (count : Nat) : Nat → Nat × Nat
  | 0 => (0, count)
  | more + 1 =>
    match onGrid? r i point count with
    | some n => (n, count)
    | none => searchGrids r i point (count + 1) more

/-- The digits of a positive finite number. -/
def shortest (x : Double) : Digits :=
  let r := scaled x.significand 2 x.exponent
  let start : Int := (Nat.log2 x.significand + x.exponent) * 3 / 10 - 2
  let point := decimalPoint r start 700
  let (n, count) := searchGrids r x.interval point 1 17
  let digits := Nat.toDigits 10 n
  ⟨(digits.reverse.dropWhile (· == '0')).reverse, point + (digits.length - count)⟩

/-- From `10 ^ 16` on, and below `10 ^ -4`, a number is written with an exponent. -/
def Digits.text (d : Digits) : String :=
  let len : Int := d.digits.length
  if d.point ≤ -4 ∨ 17 ≤ d.point then
    let tail := d.digits.tail
    String.ofList (d.digits.take 1 ++ (if tail.isEmpty then [] else '.' :: tail)) ++ "e" ++
      toString (d.point - 1)
  else if d.point ≤ 0 then
    "0." ++ String.ofList (List.replicate (-d.point).toNat '0' ++ d.digits)
  else if d.point < len then
    String.ofList (d.digits.take d.point.toNat ++ '.' :: d.digits.drop d.point.toNat)
  else
    String.ofList (d.digits ++ List.replicate (d.point - len).toNat '0') ++ ".0"

/-- The shortest text that reads back as the number. -/
def text (x : Double) : String :=
  if x.isNaN then "NaN"
  else
    (if x.isNegative then "-" else "") ++
      (if x.isInfinite then "inf" else if x.isZero then "0.0" else x.shortest.text)

end Custody.Double
