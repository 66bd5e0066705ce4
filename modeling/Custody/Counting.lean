import Custody.Outcome

/-! Retaining and releasing.

Every operation finds the object's cell through its back-link and takes the
cell's lock. A count that leaves no room reports a fault, after the lock is
returned. The release that takes a count to zero keeps the lock and hands over a
teardown: the finalizer runs under it, and finishing it frees the cell and
clears the slot. A locked cell is one whose teardown is under way, so whoever
waits for its lock waits for itself. -/
namespace Custody

/-! ### The journal -/

/-- The transitions of an object's count, as the trace shows them. -/
inductive Transition where
  | created
  | retained
  | released
  | counted
  | deallocating
  deriving DecidableEq, Repr

def Transition.message : Transition → String
  | created => "creating box"
  | retained => "retaining object"
  | released => "releasing object"
  | counted => "getting retain count"
  | deallocating => "deallocating"

def Transition.entry (t : Transition) (o : ObjectId) (count : UInt32) : Log.Entry where
  level := .trace
  target := some "rcbox::refcount"
  message := t.message
  fields := [⟨"address", .address (.object o)⟩, ⟨"retain_count", .natural count.toUInt64⟩]

/-- An object on its way out: its cell is locked and has given up its finalizer. -/
structure Teardown where
  object : ObjectId
  cell : CellId
  deriving DecidableEq, Repr

namespace State

def trace (t : Transition) (o : ObjectId) (count : UInt32) (s : State) : State :=
  s.log (t.entry o count)

/-! ### Cells and locks -/

/-- An object without a back-link has been deallocated. -/
def resolve (o : ObjectId) (s : State) : Outcome CellId :=
  match s.heap.link? o with
  | some c => .returned c s
  | none => s.report (.useAfterFree (.object o))

/-- Takes a cell's lock and shows the cell as it then stands. -/
def lock (c : CellId) (s : State) : Outcome Cell :=
  match s.heap.cell? c with
  | some cell =>
    if cell.locked then .halted .blocked s
    else .returned {cell with locked := true} (s.onHeap (·.setLocked c true))
  | none => .halted .blocked s

def unlock (c : CellId) : State → State :=
  onHeap (·.setLocked c false)

/-- Throws a finalizer away. A native routine that never ran is noticed. -/
def discard (finalizer : Option Finalizer) (s : State) : State :=
  match finalizer with
  | some (.routine ⟨.native, label, _⟩) => s.observe (.discarded label)
  | _ => s

/-- Frees a cell, and with it a finalizer that it still holds. -/
def freeCell (c : CellId) (s : State) : State :=
  (s.discard ((s.heap.cell? c).bind (·.finalizer))).onHeap (·.freeCell c)

/-! ### The operations -/

def retain (o : ObjectId) (s : State) : Outcome Unit :=
  (s.resolve o).andThen fun c s => (s.lock c).andThen fun cell s =>
    if cell.count = maxCount then
      (s.unlock c).report (.retainOverflow (.object o) cell.count)
    else
      let count := cell.count + 1
      .returned () (((s.onHeap (·.setCount c count)).unlock c
        |>.onStatistics (·.addRetain)).trace .retained o count)

/-- Lowers a count. At zero it starts a teardown and hands over the finalizer. -/
def release (o : ObjectId) (s : State) : Outcome (Option (Teardown × Option Finalizer)) :=
  (s.resolve o).andThen fun c s => (s.lock c).andThen fun cell s =>
    if cell.count = 0 then
      (s.unlock c).report (.releaseUnderflow (.object o))
    else
      let remaining := cell.count - 1
      let s := ((s.onHeap (·.setCount c remaining)).onStatistics (·.addRelease)).trace
        .released o remaining
      if remaining = 0 then
        .returned (some (⟨o, c⟩, cell.finalizer))
          ((s.trace .deallocating o 0).onHeap (·.takeFinalizer c))
      else .returned none (s.unlock c)

/-- Finishes a teardown, on the way out of an unwinding finalizer too. -/
def finish (t : Teardown) (s : State) : State :=
  (((s.unlock t.cell).freeCell t.cell).onHeap (·.setLink t.object none)).onStatistics
    (·.addDeallocation)

def isUnique (o : ObjectId) (s : State) : Outcome Bool :=
  (s.resolve o).andThen fun c s => (s.lock c).andThen fun cell s =>
    .returned (cell.count == 1) (s.unlock c)

def count (o : ObjectId) (s : State) : Outcome UInt32 :=
  (s.resolve o).andThen fun c s => (s.lock c).andThen fun cell s =>
    .returned cell.count ((s.unlock c).trace .counted o cell.count)

/-- Retains objects in order up to the first that cannot be. The list holds those retained. -/
def retainEach (s : State) : List ObjectId → List ObjectId × Outcome Unit
  | [] => ([], .returned () s)
  | o :: rest =>
    match s.retain o with
    | .returned _ s =>
      let (retained, out) := s.retainEach rest
      (o :: retained, out)
    | out => ([], out)

end State
end Custody
