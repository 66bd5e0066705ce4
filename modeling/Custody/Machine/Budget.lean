import Custody.Machine.Basic

/-! How long a machine can run.

The work of a machine counts the transitions that everything it holds can still
cause: the control, the frames, the routines that wait in cells, and the children
of values that wait to be dropped. A transition uses up work, and a finalizer
moves its work from the heap to the stack, since it is taken out of its cell
before it runs. Only a copy on write makes new work out of what the heap holds,
and it at most doubles it. So no run takes more transitions than the work, doubled
for each such step that is still to come. -/
namespace Custody

/-- A measure of the members of a list, added up. -/
def total (measure : α → Nat) : List α → Nat
  | [] => 0
  | x :: rest => measure x + total measure rest

/-! ### Scripts -/

/-- A release and what starts its finalizer. -/
def releaseWork : Nat := 3

/-- A handle in a value: its release, and the return to the handles after it. -/
def handleWork : Nat := releaseWork + 1

/-- A repeated call, with its barrier. -/
def callWork : Nat := releaseWork + 2

def HandleAction.work : HandleAction → Nat
  | .create _ _ literal => 1 + literal.childNames.length * handleWork
  | .push _ _ => 1 + handleWork
  | _ => 1

def Action.work : Action → Nat
  | .handle action => action.work
  | _ => 1

mutual

/-- The work of a step, with that of the routines it puts into cells. -/
def Step.work : Step → Nat
  | .allocate _ _ routine _ _ => 1 + routineWork routine
  | .assemble _ _ routine => 1 + routineWork routine
  | .reinstall _ routine => 1 + routineWork routine
  | .newCell _ routine => 1 + routineWork routine
  | .describe _ => 1
  | .call _ _ times _ => 1 + times * callWork
  | .race _ threads retains releases rounds =>
    1 + threads * (rounds * (retains + releases)) * handleWork
  | .dropHandle _ => 1 + releaseWork
  | .makeUnique _ _ => 2 + releaseWork
  | .attempt step => 2 + step.work
  | .act action => action.work

def routineWork : Option (Routine Step) → Nat
  | none => 0
  | some routine => routineBodyWork routine

def routineBodyWork : Routine Step → Nat
  | ⟨_, _, body⟩ => bodyWork body

def bodyWork : List Step → Nat
  | [] => 0
  | step :: rest => 1 + step.work + bodyWork rest

end

mutual

/-- How many copies on write a step can bring about. -/
def Step.copies : Step → Nat
  | .allocate _ _ routine _ _ => routineCopies routine
  | .assemble _ _ routine => routineCopies routine
  | .reinstall _ routine => routineCopies routine
  | .newCell _ routine => routineCopies routine
  | .makeUnique _ _ => 1
  | .attempt step => step.copies
  | .describe _ | .call _ _ _ _ | .race _ _ _ _ _ | .dropHandle _ | .act _ => 0

def routineCopies : Option (Routine Step) → Nat
  | none => 0
  | some routine => routineBodyCopies routine

def routineBodyCopies : Routine Step → Nat
  | ⟨_, _, body⟩ => bodyCopies body

def bodyCopies : List Step → Nat
  | [] => 0
  | step :: rest => step.copies + bodyCopies rest

end

/-! ### Heaps -/

def Cell.routine? (cell : Cell) : Option (Routine Step) :=
  match cell.finalizer with
  | some (.routine r) => some r
  | _ => none

def cellWork (cell : Option Cell) : Nat :=
  routineWork (cell.bind (·.routine?))

def cellCopies (cell : Option Cell) : Nat :=
  routineCopies (cell.bind (·.routine?))

def Contents.children : Contents → List ObjectId
  | .value v => v.children
  | _ => []

def Object.work (object : Object) : Nat :=
  object.contents.children.length * handleWork

def Heap.work (h : Heap) : Nat :=
  total cellWork h.cells + total Object.work h.objects

def Heap.copies (h : Heap) : Nat :=
  total cellCopies h.cells

/-! ### Machines -/

def Frame.work : Frame → Nat
  | .repeating _ _ times _ => 1 + times * callWork
  | .routine _ rest => 1 + bodyWork rest
  | .thread rest _ waiting _ => 1 + (rest.length + total List.length waiting) * handleWork
  | .dropping rest _ => 1 + rest.length * handleWork
  | .teardown _ | .barrier | .attempt | .cleaning _ | .assigning _ _ => 1

def Frame.copies : Frame → Nat
  | .routine _ rest => bodyCopies rest
  | _ => 0

def Control.work : Control → Nat
  | .perform step => step.work
  | .release _ => releaseWork
  | .answer _ | .unwind _ | .halt _ => 0

def Control.copies : Control → Nat
  | .perform step => step.copies
  | _ => 0

namespace Machine

def work (m : Machine) : Nat :=
  m.control.work + total Frame.work m.stack + m.state.heap.work

def copies (m : Machine) : Nat :=
  m.control.copies + total Frame.copies m.stack + m.state.heap.copies

/-- A bound on the transitions that are left: the work, doubled for each copy. -/
def budget (m : Machine) : Nat :=
  m.work <<< m.copies

/-- The machine at rest. -/
def run (m : Machine) : Machine :=
  m.advance m.budget

end Machine
end Custody
