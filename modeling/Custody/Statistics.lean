/-! Counters over the life of a process. They wrap at 64 bits. -/
namespace Custody

structure Statistics where
  allocations : UInt64 := 0
  deallocations : UInt64 := 0
  payloadBytes : UInt64 := 0
  retains : UInt64 := 0
  releases : UInt64 := 0
  deriving DecidableEq, Repr

namespace Statistics

def addAllocation (size : UInt64) (s : Statistics) : Statistics :=
  {s with allocations := s.allocations + 1, payloadBytes := s.payloadBytes + size}

def addRetain (s : Statistics) : Statistics :=
  {s with retains := s.retains + 1}

def addRelease (s : Statistics) : Statistics :=
  {s with releases := s.releases + 1}

def addDeallocation (s : Statistics) : Statistics :=
  {s with deallocations := s.deallocations + 1}

/-- Objects allocated and not yet deallocated. Objects put together by hand are only ever counted
when they go, so the difference stops at zero. -/
def live (s : Statistics) : Nat :=
  s.allocations.toNat - s.deallocations.toNat

end Statistics
end Custody
