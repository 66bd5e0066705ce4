import Custody.Proofs.Operation

/-! How often a routine with a label can still be told of.

A script supplies a label once for every routine that carries it, those inside of
other routines included. A view holds what its cells supply and what was told of
already. A shift adds no more to that than what the routine supplies that it puts to
use (`Shifts.supply_le`), since a cell that is freed tells of its routine no more
than once and keeps nothing of it. -/
namespace Custody

/-! ### Scripts -/

mutual

/-- How many routines with a label a step brings along. -/
def Step.supply (label : String) : Step → Nat
  | .allocate _ _ routine _ _ => routineSupply label routine
  | .assemble _ _ routine => routineSupply label routine
  | .reinstall _ routine => routineSupply label routine
  | .newCell _ routine => routineSupply label routine
  | .describe routine => routineSupply label routine
  | .attempt step => step.supply label
  | .call _ _ _ _ | .race _ _ _ _ _ | .dropHandle _ | .makeUnique _ _ | .act _ => 0

def routineSupply (label : String) : Option (Routine Step) → Nat
  | none => 0
  | some routine => Routine.supply label routine

def Routine.supply (label : String) : Routine Step → Nat
  | ⟨_, own, body⟩ => (if own = label then 1 else 0) + bodySupply label body

def bodySupply (label : String) : List Step → Nat
  | [] => 0
  | step :: rest => step.supply label + bodySupply label rest

end

/-! ### Views -/

theorem total_set (g : α → Nat) (l : List α) (i : Nat) {y : α} (hy : g y = 0) :
    total g (l.set i y) + (l[i]?.map g).getD 0 = total g l := by
  induction l generalizing i with
  | nil => rfl
  | cons x rest ih =>
    cases i with
    | zero => simp [hy, Nat.add_comm]
    | succ i => simpa [Nat.add_assoc] using ih i

/-- Whether an event tells that a routine with the label was run or thrown away. -/
def Event.tellsOf (label : String) : Event → Bool
  | .entered own _ _ => own == label
  | .discarded own => own == label
  | _ => false

theorem Event.tellsRoutine_of_tellsOf {label : String} {event : Event}
    (h : event.tellsOf label = true) : event.tellsRoutine = true := by
  cases event <;> first | rfl | cases h

def cellSupply (label : String) : Option Cell → Nat :=
  Heap.load (routineSupply label)

namespace View

variable {label : String} {v : View} {c : CellId}

def supply (label : String) (v : View) : Nat :=
  total (cellSupply label) v.cells + v.told.countP (·.tellsOf label)

/-- Changing a cell exchanges what its routine supplies. -/
theorem supply_updateCell (label : String) (c : CellId) (f : Cell → Cell) (v : View) :
    (v.updateCell c f).supply label + cellSupply label (v.cell? c) =
      v.supply label + cellSupply label ((v.cell? c).map f) := by
  have hcells : total (cellSupply label) (v.updateCell c f).cells + cellSupply label (v.cell? c) =
      total (cellSupply label) v.cells + cellSupply label ((v.cell? c).map f) :=
    Heap.total_updateCell (h := {cells := v.cells}) (routineSupply label) rfl f
  have htold : (v.updateCell c f).told = v.told := rfl
  unfold supply
  rw [htold]
  omega

theorem supply_recount (count : UInt32) : (v.recount c count).supply label = v.supply label := by
  have h := supply_updateCell label c (fun cell => {cell with count}) v
  have hsame : cellSupply label ((v.cell? c).map fun cell => {cell with count}) =
      cellSupply label (v.cell? c) := by
    cases v.cell? c <;> rfl
  rw [hsame] at h
  exact Nat.add_right_cancel h

theorem supply_addCell (finalizer : Option Finalizer) :
    (v.addCell finalizer).supply label =
      v.supply label + routineSupply label (Cell.routine? {finalizer}) := by
  unfold supply addCell
  simp only [total_append, total_cons, total_nil, Nat.add_zero]
  have : cellSupply label (some {finalizer}) = routineSupply label (Cell.routine? {finalizer}) := rfl
  omega

/-- A finalizer that is thrown away is told of no more often than it supplies its label. -/
theorem countP_discarded_le (label : String) (finalizer : Option Finalizer) :
    (discarded finalizer).countP (·.tellsOf label) ≤
      routineSupply label (Cell.routine? {finalizer}) := by
  unfold discarded
  split
  · next own body =>
    show _ ≤ (if own = label then 1 else 0) + bodySupply label body
    by_cases h : own = label
    · simp [Event.tellsOf, h]
    · simp [Event.tellsOf, h]
  · exact Nat.zero_le _

theorem supply_discard_le (finalizer : Option Finalizer) :
    (v.discard finalizer).supply label ≤
      v.supply label + routineSupply label (Cell.routine? {finalizer}) := by
  have h := countP_discarded_le label finalizer
  unfold supply discard
  simp only [List.countP_append]
  omega

theorem supply_freeCell_le : (v.freeCell c).supply label ≤ v.supply label := by
  have hcells : total (cellSupply label) (v.cells.set c none) + cellSupply label (v.cell? c) =
      total (cellSupply label) v.cells := by
    have h := total_set (cellSupply label) v.cells c (y := none) rfl
    unfold cell?
    cases hc : v.cells[c]? with
    | none => rwa [hc] at h
    | some cell => rwa [hc] at h
  have hsame : routineSupply label (Cell.routine? {finalizer := (v.cell? c).bind (·.finalizer)}) =
      cellSupply label (v.cell? c) := by
    cases v.cell? c <;> rfl
  have htold := countP_discarded_le label ((v.cell? c).bind (·.finalizer))
  rw [hsame] at htold
  unfold supply freeCell discard
  simp only [List.countP_append]
  omega

end View

/-! ### Shifts -/

variable {edits : ObjectId → Prop} {v w : View}

theorem Shift.supply_le {r : Option (Routine Step)} (h : Shift edits r v w) (label : String) :
    w.supply label ≤ v.supply label + routineSupply label r := by
  cases h with
  | recount _ c count => exact Nat.le_of_eq (View.supply_recount count)
  | create _ finalizer => exact Nat.le_of_eq (View.supply_addCell finalizer)
  | stand _ name finalizer => exact Nat.le_of_eq (View.supply_addCell finalizer)
  | relink _ o finalizer _ => exact Nat.le_of_eq (View.supply_addCell finalizer)
  | unlink _ o _ => exact Nat.le_refl _
  | free _ _ => exact View.supply_freeCell_le
  | discard _ r => exact View.supply_discard_le (some (.routine r))
  | waste _ r => exact Nat.le_add_right _ _

theorem Shifts.supply_le {rs : List (Routine Step)} (h : Shifts edits rs v w) (label : String) :
    w.supply label ≤ v.supply label + total (Routine.supply label) rs := by
  induction h with
  | refl v => exact Nat.le_refl _
  | @step r rs v w x first _ ih =>
    have hfirst := first.supply_le label
    have hr : total (Routine.supply label) r.toList = routineSupply label r := by
      cases r <;> rfl
    rw [total_append, hr]
    omega

end Custody
