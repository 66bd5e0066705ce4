import Custody.Counting

/-! Bringing objects into being.

An allocation that no region could hold is a fault, and its finalizer is thrown
away. An allocator that refuses stops the process without a fault: nothing is
counted and nothing is logged. -/
namespace Custody.State

/-- Asks an allocator for a region; a custom one is seen to be asked. -/
def requestRegion (provider : Option AllocatorId) (layout : Layout) (s : State) : Outcome Bool :=
  s.given (s.allocators.quota? provider) fun q =>
    let (granted, q) := q.request (s.allocators.memory layout.size) layout.size
    let s := {s with allocators := s.allocators.setQuota q provider}
    .returned granted (match s.allocators.name? provider with
      | none => s
      | some name => s.observe (.requested name layout.size layout.align granted))

/-- The allocator that serves a request: the one that is named, or else the global one. -/
def provider? (name : Option String) (s : State) : Option (Option AllocatorId) :=
  match name with
  | none => some s.allocators.installed
  | some name => (s.names.allocators.find? name).map some

/-- A new object with retain count 0, in a region from an allocator. -/
def allocate (provider : Option AllocatorId) (size : UInt64) (contents : Contents)
    (finalizer : Option Finalizer) (s : State) : Outcome ObjectId :=
  match Layout.ofPayload? size with
  | none => (s.report (.layoutOverflow size)).whenUnwinding (·.discard finalizer)
  | some layout =>
    (s.requestRegion provider layout).andThen fun granted s =>
      if granted then
        let (o, heap) := s.heap.addObject size contents finalizer
        .returned o (({s with heap}.onStatistics (·.addAllocation size)).trace .created o 0)
      else .halted .aborted s

/-- The same object put together by hand: nobody counts it and nobody traces it. -/
def assemble (size : UInt64) (finalizer : Option Finalizer) (s : State) : ObjectId × State :=
  let (o, heap) := s.heap.addObject size (.bytes []) finalizer
  (o, {s with heap})

/-- A new object that holds a value and has one reference. -/
def hold (v : Value) (s : State) : Outcome ObjectId :=
  (s.allocate s.allocators.installed v.kind.size (.value v)
    (if v.kind.owning then some .dropValue else none)).andThen fun o s =>
      (s.retain o).map fun _ => o

/-- Puts a cell of its own over an object's back-link. The old cell is never freed. -/
def reinstall (o : ObjectId) (finalizer : Option Finalizer) (s : State) : State :=
  let (c, heap) := s.heap.addCell finalizer
  {s with heap := heap.setLink o (some c)}

end Custody.State
