import Custody.Text.Numeral

/-! Addresses, as they appear in errors and log entries.

The place of an object in memory is not part of any answer: an object's address
is its number in order of creation. A literal address is a number given from
outside. -/
namespace Custody

inductive Address where
  | object (id : Nat)
  | literal (value : UInt64)
  deriving DecidableEq, Repr

namespace Address

def text : Address → String
  | object id => "<" ++ toString id ++ ">"
  | literal value => "0x" ++ Text.hex value.toNat

/-- The address as a plain number where it is one. -/
def plain : Address → String
  | object id => "<" ++ toString id ++ ">"
  | literal value => toString value.toNat

end Address
end Custody
