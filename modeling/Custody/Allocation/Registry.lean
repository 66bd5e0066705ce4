import Custody.Allocation.Layout
import Custody.Allocation.Quota

/-! The allocators of a process: the system's own, custom ones in the order of their
making, and which of them serves requests that name none. A custom allocator keeps
its identity and the name it was made under, whatever that name stands for later. It
can be installed once. All of them draw on the memory of the machine, and which
regions that has room for is up to the machine. -/
namespace Custody

structure CustomAllocator where
  name : String
  quota : Quota

/-- The position of a custom allocator among those of its process. -/
abbrev AllocatorId := Nat

structure Allocators where
  system : Quota := {}
  custom : List CustomAllocator := []
  installed : Option AllocatorId := none
  /-- Whether there is memory for a region, by its size. -/
  memory : UInt64 → Bool := Quota.backed

namespace Allocators

/-- The account of an allocator; no position stands for the system allocator. -/
def quota? (a : Allocators) : Option AllocatorId → Option Quota
  | none => some a.system
  | some i => a.custom[i]?.map (·.quota)

def setQuota (a : Allocators) (q : Quota) : Option AllocatorId → Allocators
  | none => {a with system := q}
  | some i => {a with custom := a.custom.modify i fun allocator => {allocator with quota := q}}

/-- What a custom allocator is called where it is seen to be asked. -/
def name? (a : Allocators) (provider : Option AllocatorId) : Option String :=
  provider.bind fun i => a.custom[i]?.map (·.name)

def add (a : Allocators) (name : String) (limit : UInt64) : AllocatorId × Allocators :=
  (a.custom.length, {a with custom := a.custom ++ [⟨name, {limit}⟩]})

/-- Takes effect on the first call only. -/
def install (a : Allocators) (i : AllocatorId) : Option Allocators :=
  if a.installed.isNone then some {a with installed := some i} else none

end Allocators

def alreadyInstalledMessage : String := "a raw allocator has already been installed"

end Custody
