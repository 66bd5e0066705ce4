/-! The account of an allocator: what it has granted and how much it may grant.

A request first reserves its bytes and then asks for memory. Memory that is not
there gives the reservation back. Nothing granted ever returns. -/
namespace Custody

/-- A limit of 0 means that there is none. -/
structure Quota where
  limit : UInt64 := 0
  bytes : UInt64 := 0
  allocations : UInt64 := 0
  deriving DecidableEq, Repr

namespace Quota

/-- Whether `size` more bytes can be counted and stay within the limit. -/
def admits (q : Quota) (size : UInt64) : Bool :=
  q.bytes.toNat + size.toNat < UInt64.size && (q.limit == 0 || q.bytes + size ≤ q.limit)

def reserve? (q : Quota) (size : UInt64) : Option Quota :=
  if q.admits size then some {q with bytes := q.bytes + size} else none

def giveBack (q : Quota) (size : UInt64) : Quota :=
  {q with bytes := q.bytes - size}

/-- Whether a request is granted, and the account after it. `backed` says whether there is
memory for it. -/
def request (q : Quota) (backed : Bool) (size : UInt64) : Bool × Quota :=
  match q.reserve? size with
  | none => (false, q)
  | some reserved =>
    if backed then (true, {reserved with allocations := reserved.allocations + 1})
    else (false, reserved.giveBack size)

/-- What can be asked of an account. -/
inductive Demand where
  | grant (size : UInt64)
  | limit (bytes : UInt64)
  deriving DecidableEq, Repr

/-- The account after a demand, and whether a request was granted. -/
def meet (q : Quota) (backed : UInt64 → Bool) : Demand → Option Bool × Quota
  | .grant size =>
    let (granted, q) := q.request (backed size) size
    (some granted, q)
  | .limit bytes => (none, {q with limit := bytes})

/-- The accounts after each of several demands. -/
def meetAll (q : Quota) (backed : UInt64 → Bool) : List Demand → List (Option Bool × Quota)
  | [] => []
  | demand :: rest =>
    let (granted, q) := q.meet backed demand
    (granted, q) :: q.meetAll backed rest

/-- Where nothing else is known of the memory, no region of `2 ^ 62` bytes is to be had. -/
def backed (size : UInt64) : Bool :=
  size.toNat < 1 <<< 62

end Quota
end Custody
