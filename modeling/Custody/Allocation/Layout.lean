/-! Where a payload lies in its region.

A region starts with the slot for the back-link; the payload follows, and its
address is the object's address. Regions are aligned to 16 bytes, so payloads are
aligned to 8 and never to 16. -/
namespace Custody

/-- The size and alignment of a request for memory. -/
structure Layout where
  size : UInt64
  align : UInt64
  deriving DecidableEq, Repr

namespace Layout

def slotSize : Nat := 8
def payloadAlign : Nat := 8
def regionAlign : Nat := 16

/-- The address of the payload in the region at `base`. -/
def payloadOf (base : Nat) : Nat :=
  base + slotSize

/-- The region that holds the payload at an address. -/
def baseOf (payload : Nat) : Nat :=
  payload - slotSize

/-- The largest region: rounded up to the alignment, its size must stay below `2 ^ 63`. -/
def maxRegion : Nat := (1 <<< 63) - regionAlign

/-- The region for a payload of `size` bytes, if there can be one. -/
def ofPayload? (size : UInt64) : Option Layout :=
  if slotSize + size.toNat ≤ maxRegion then
    some ⟨UInt64.ofNat (slotSize + size.toNat), UInt64.ofNat regionAlign⟩
  else none

@[simp] theorem baseOf_payloadOf (base : Nat) : baseOf (payloadOf base) = base := by
  simp [baseOf, payloadOf]

theorem payloadOf_aligned {base : Nat} (h : base % regionAlign = 0) :
    payloadOf base % payloadAlign = 0 := by
  simp only [payloadOf, slotSize, payloadAlign, regionAlign] at *
  omega

end Layout
end Custody
