import Custody.Text.Classes

/-! Numerals: natural numbers in base ten and sixteen, and reading them back. -/
namespace Custody.Text

/-- A natural number in base sixteen, in small letters. -/
def hex (n : Nat) : String :=
  String.ofList (Nat.toDigits 16 n)

/-- Zeros in front of a numeral until it has `width` characters. -/
def zeroPadded (width : Nat) (numeral : String) : String :=
  String.ofList (List.replicate (width - numeral.length) '0') ++ numeral

/-- The value of a digit in base ten; only ASCII digits have one. -/
def digitValue? (c : Char) : Option Nat :=
  if '0' ≤ c ∧ c ≤ '9' then some (c.toNat - '0'.toNat) else none

/-- The number a row of digits writes when `high` stands in front of it. -/
def readDigits? (high : Nat) : List Char → Option Nat
  | [] => some high
  | c :: rest => (digitValue? c).bind fun d => readDigits? (10 * high + d) rest

/-- A natural number: at most one plus sign, then one digit or more. -/
def natural? (s : List Char) : Option Nat :=
  match (if s.head? = some '+' then s.tail else s) with
  | [] => none
  | digits => readDigits? 0 digits

/-- A number of at most 64 bits, with blanks allowed at both ends. -/
def word? (s : String) : Option UInt64 :=
  (natural? (trim s.toList)).bind fun n =>
    if n < UInt64.size then some (UInt64.ofNat n) else none

end Custody.Text
