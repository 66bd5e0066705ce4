import Custody.Machine.Load
import Custody.Proofs.Locking

/-! What finalizers and locks depend on, and what an operation can do to it.

A view of a state keeps the cells, what objects and names are tied to them, and
what was told of finalizers. An operation that starts and ends no teardown comes to
a few shifts of the view (`Shifts`), each of which changes a count, puts a routine
to one use, unties something by hand or frees a cell that stands alone. -/
namespace Custody

/-- Whether an event tells what became of a routine. -/
def Event.tellsRoutine : Event → Bool
  | .entered _ _ _ | .discarded _ => true
  | _ => false

structure View where
  cells : List (Option Cell)
  /-- The number of objects. -/
  size : Nat
  link : ObjectId → Option CellId
  named : String → Option CellId
  /-- What was told of routines, newest first. -/
  told : List Event

namespace View

def cell? (v : View) (c : CellId) : Option Cell :=
  v.cells[c]?.join

def updateCell (c : CellId) (f : Cell → Cell) (v : View) : View :=
  {v with cells := v.cells.modify c (Option.map f)}

def recount (c : CellId) (count : UInt32) : View → View :=
  updateCell c fun cell => {cell with count}

def addCell (finalizer : Option Finalizer) (v : View) : View :=
  {v with cells := v.cells ++ [some {finalizer}]}

/-- A new object with a cell of its own. -/
def create (finalizer : Option Finalizer) (v : View) : View :=
  {v.addCell finalizer with
    size := v.size + 1
    link := fun o => if o = v.size then some v.cells.length else v.link o}

/-- A new cell that a name stands for. -/
def stand (name : String) (finalizer : Option Finalizer) (v : View) : View :=
  {v.addCell finalizer with
    named := fun n => if n = name then some v.cells.length else v.named n}

def relink (o : ObjectId) (finalizer : Option Finalizer) (v : View) : View :=
  {v.addCell finalizer with
    link := fun p => if p = o ∧ o < v.size then some v.cells.length else v.link p}

def unlink (o : ObjectId) (v : View) : View :=
  {v with link := fun p => if p = o then none else v.link p}

/-- What is told when a finalizer is thrown away. -/
def discarded : Option Finalizer → List Event
  | some (.routine ⟨.native, label, _⟩) => [.discarded label]
  | _ => []

def discard (finalizer : Option Finalizer) (v : View) : View :=
  {v with told := discarded finalizer ++ v.told}

def freeCell (c : CellId) (v : View) : View :=
  {v.discard ((v.cell? c).bind (·.finalizer)) with cells := v.cells.set c none}

/-- Frees a cell that a name stands for. -/
def free (name : String) (c : CellId) (v : View) : View :=
  {v.freeCell c with named := fun n => if n = name then none else v.named n}

end View

/-! ### Cells in a view -/

namespace View

variable {v : View} {c d : CellId}

theorem lt_of_cell? {cell : Cell} (h : v.cell? c = some cell) : c < v.cells.length := by
  have hget : v.cells[c]? = some (some cell) := by
    simpa only [cell?, Option.join_eq_some_iff] using h
  exact (List.getElem?_eq_some_iff.1 hget).1

theorem cell?_updateCell (f : Cell → Cell) :
    (v.updateCell c f).cell? d = if c = d then (v.cell? d).map f else v.cell? d :=
  Heap.cell?_updateCell (h := {cells := v.cells}) f

/-- A new cell is the last one, unlocked and at no reference. -/
theorem cell?_addCell (finalizer : Option Finalizer) :
    (v.addCell finalizer).cell? d =
      if d = v.cells.length then some {finalizer} else v.cell? d := by
  simp only [cell?, addCell, getElem?_snoc]
  split <;> rfl

theorem cell?_freeCell :
    (v.freeCell c).cell? d = if c = d then none else v.cell? d := by
  by_cases h : c = d
  · subst h
    rw [if_pos rfl]
    exact Heap.cell?_freeCell_self (h := {cells := v.cells})
  · rw [if_neg h]
    exact Heap.cell?_freeCell_of_ne (h := {cells := v.cells}) h

/-- It does not matter how a cell that is freed was changed, but for its finalizer. -/
theorem freeCell_updateCell {f : Cell → Cell} (hf : ∀ cell, (f cell).finalizer = cell.finalizer) :
    (v.updateCell c f).freeCell c = v.freeCell c := by
  have hfinalizer : ((v.updateCell c f).cell? c).bind (·.finalizer) =
      (v.cell? c).bind (·.finalizer) := by
    rw [cell?_updateCell, if_pos rfl]
    cases v.cell? c with
    | none => rfl
    | some cell => exact hf cell
  have hcells : (v.updateCell c f).cells.set c none = v.cells.set c none :=
    congrArg Heap.cells (Heap.freeCell_updateCell (h := {cells := v.cells}) f)
  unfold freeCell
  rw [hfinalizer, hcells]
  rfl

end View

/-! ### Shifts -/

/-- One change to a view, with the routine that it puts to use. The back-links that may be changed
by hand are those of `edits`. -/
inductive Shift (edits : ObjectId → Prop) : Option (Routine Step) → View → View → Prop where
  | recount (v : View) (c : CellId) (count : UInt32) : Shift edits none v (v.recount c count)
  | create (v : View) (finalizer : Option Finalizer) :
    Shift edits (Cell.routine? {finalizer}) v (v.create finalizer)
  | stand (v : View) (name : String) (finalizer : Option Finalizer) :
    Shift edits (Cell.routine? {finalizer}) v (v.stand name finalizer)
  | relink (v : View) (o : ObjectId) (finalizer : Option Finalizer) (h : edits o) :
    Shift edits (Cell.routine? {finalizer}) v (v.relink o finalizer)
  | unlink (v : View) (o : ObjectId) (h : edits o) : Shift edits none v (v.unlink o)
  | free (v : View) {name : String} {c : CellId} (h : v.named name = some c) :
    Shift edits none v (v.free name c)
  | discard (v : View) (r : Routine Step) :
    Shift edits (some r) v (v.discard (some (.routine r)))
  /-- A routine is lost without notice. -/
  | waste (v : View) (r : Routine Step) : Shift edits (some r) v v

/-- Changes to a view, with the routines that they put to use. -/
inductive Shifts (edits : ObjectId → Prop) : List (Routine Step) → View → View → Prop where
  | refl (v : View) : Shifts edits [] v v
  | step {r : Option (Routine Step)} {rs : List (Routine Step)} {v w x : View}
    (first : Shift edits r v w) (rest : Shifts edits rs w x) : Shifts edits (r.toList ++ rs) v x

namespace Shifts

variable {edits : ObjectId → Prop} {rs rs' : List (Routine Step)} {v w x : View}

theorem of_eq (h : w = v) : Shifts edits [] v w := by
  rw [h]
  exact .refl v

theorem single {r : Option (Routine Step)} (h : Shift edits r v w) : Shifts edits r.toList v w := by
  have := Shifts.step h (.refl w)
  rwa [List.append_nil] at this

/-- Changes one after the other put to use what each of them does. -/
theorem trans (h : Shifts edits rs v w) (h' : Shifts edits rs' w x) :
    Shifts edits (rs ++ rs') v x := by
  induction h with
  | refl v => exact h'
  | step first _ ih =>
    rw [List.append_assoc]
    exact .step first (ih h')

/-- Routines can be lost without a change. -/
theorem waste (rs : List (Routine Step)) (v : View) : Shifts edits rs v v := by
  induction rs with
  | nil => exact .refl v
  | cons r rs ih => exact .step (.waste v r) ih

/-- Routines that are not put to use are lost. -/
theorem pad (h : Shifts edits rs v w) (rs' : List (Routine Step)) : Shifts edits (rs ++ rs') v w :=
  h.trans (waste rs' w)

/-- What every shift keeps is kept. -/
theorem kept {P : View → Prop}
    (hP : ∀ r v w, Shift edits r v w → P v → P w) (h : Shifts edits rs v w) (hv : P v) : P w := by
  induction h with
  | refl v => exact hv
  | step first _ ih => exact ih (hP _ _ _ first hv)

end Shifts

/-! ### The view of a state -/

theorem Bindings.find?_bind (b : Bindings α) (name : String) (value : α) :
    (b.bind name value).find? = fun n => if n = name then some value else b.find? n := by
  funext n
  by_cases h : n = name
  · rw [if_pos h, h, find?_bind_self]
  · rw [if_neg h, find?_bind_of_ne b value h]

theorem Bindings.find?_remove (b : Bindings α) (name : String) :
    (b.remove name).find? = fun n => if n = name then none else b.find? n := by
  funext n
  by_cases h : n = name
  · rw [if_pos h, h, find?_remove_self]
  · rw [if_neg h, find?_remove_of_ne b h]

namespace Heap

variable {h : Heap} {o : ObjectId}

theorem link?_of_length_le (ho : h.objects.length ≤ o) : h.link? o = none := by
  simp [link?, object?, List.getElem?_eq_none ho]

/-- A slot is set if there is such an object. -/
theorem link?_setLink (link : Option CellId) :
    (h.setLink o link).link? =
      fun p => if p = o then (if o < h.objects.length then link else none) else h.link? p := by
  funext p
  by_cases hp : p = o
  · subst hp
    by_cases hlt : p < h.objects.length
    · simp [link?, setLink, object?, updateObject, hlt]
    · simp [link?, setLink, object?, updateObject, hlt]
  · rw [if_neg hp, link?_setLink_of_ne link (Ne.symm hp)]

theorem link?_setContents (contents : Contents) : (h.setContents o contents).link? = h.link? := by
  funext p
  by_cases hp : o = p
  · subst hp
    simp only [link?, setContents, object?_updateObject_self]
    cases h.object? o <;> rfl
  · simp only [link?, setContents, object?_updateObject_of_ne _ hp]

/-- A new object links to a new cell. -/
theorem link?_addObject (size : UInt64) (contents : Contents) (finalizer : Option Finalizer) :
    (h.addObject size contents finalizer).2.link? =
      fun p => if p = h.objects.length then some h.cells.length else h.link? p := by
  funext p
  by_cases hp : p = h.objects.length
  · subst hp
    simp [link?, object?, addObject, addCell]
  · rw [if_neg hp]
    rcases Nat.lt_or_gt_of_ne hp with hlt | hlt
    · simp only [link?, object?_addObject_of_lt size contents finalizer hlt]
    · rw [link?_of_length_le (Nat.le_of_lt hlt)]
      refine link?_of_length_le ?_
      simpa [addObject, addCell] using Nat.succ_le_of_lt hlt

/-- A new object has the new cell, and the old ones keep theirs. -/
theorem governing?_addObject (hlive : ∀ p d, h.link? p = some d → d < h.cells.length) (size : UInt64)
    (contents : Contents) (finalizer : Option Finalizer) (p : ObjectId) :
    (h.addObject size contents finalizer).2.governing? p =
      if p = h.objects.length then some {finalizer} else h.governing? p := by
  unfold governing?
  rw [link?_addObject]
  simp only
  split
  · exact cell?_addCell_self (h := h) finalizer
  · cases hl : h.link? p with
    | none => rfl
    | some d => exact cell?_addCell_of_lt finalizer (hlive p d hl)

end Heap

namespace State

def view (s : State) : View where
  cells := s.heap.cells
  size := s.heap.objects.length
  link := s.heap.link?
  named := s.names.cells.find?
  told := s.events.filter (·.tellsRoutine)

variable {s : State} {o : ObjectId} {c : CellId}

theorem view_observe {event : Event} (h : event.tellsRoutine = false) :
    (s.observe event).view = s.view := by
  simp [view, observe, h]

/-- Payloads are not in view. -/
theorem view_setContents (contents : Contents) :
    (s.onHeap (·.setContents o contents)).view = s.view := by
  have hlink := Heap.link?_setContents (h := s.heap) (o := o) contents
  simp only [view, onHeap, hlink]
  simp [Heap.setContents, Heap.updateObject]

theorem view_clearLink : (s.onHeap (·.setLink o none)).view = s.view.unlink o := by
  have hlink := Heap.link?_setLink (h := s.heap) (o := o) none
  simp only [view, View.unlink, onHeap, hlink]
  simp [Heap.setLink, Heap.updateObject]

/-- An object that is made is a cell and a slot more in view. -/
theorem view_addObject (size : UInt64) (contents : Contents) (finalizer : Option Finalizer) :
    ({s with heap := (s.heap.addObject size contents finalizer).2} : State).view =
      s.view.create finalizer := by
  have hlink := Heap.link?_addObject (h := s.heap) size contents finalizer
  simp only [view, View.create, hlink]
  congr 1
  simp [Heap.addObject, Heap.addCell]

theorem view_reinstall (finalizer : Option Finalizer) :
    (s.reinstall o finalizer).view = s.view.relink o finalizer := by
  have hlink := Heap.link?_setLink (h := (s.heap.addCell finalizer).2) (o := o)
    (some s.heap.cells.length)
  simp only [view, View.relink, reinstall]
  rw [show (s.heap.addCell finalizer).1 = s.heap.cells.length from rfl, hlink]
  congr 1
  · simp [Heap.setLink, Heap.updateObject, Heap.addCell, View.addCell]
  · funext p
    show (if p = o then (if o < s.heap.objects.length then some s.heap.cells.length else none)
      else s.heap.link? p) = _
    by_cases hp : p = o
    · subst hp
      by_cases hlt : p < s.heap.objects.length
      · simp [hlt]
      · simp [hlt, Heap.link?_of_length_le (Nat.le_of_not_lt hlt)]
    · simp [hp]

theorem view_nameCell (name : String) (finalizer : Option Finalizer) :
    (({s with heap := (s.heap.addCell finalizer).2} : State).nameCell name
      (s.heap.addCell finalizer).1).view = s.view.stand name finalizer := by
  simp only [view, View.stand, nameCell, onNames, Bindings.find?_bind]
  rfl

/-- Of what is told, the view has what tells of routines. -/
theorem view_discard (finalizer : Option Finalizer) :
    (s.discard finalizer).view = s.view.discard finalizer := by
  unfold discard
  split
  · simp [view, View.discard, View.discarded, observe, Event.tellsRoutine]
  · next h =>
    unfold View.discard View.discarded
    split
    · next label _ => exact absurd rfl (h _ _)
    · rfl

theorem view_freeCell : (s.freeCell c).view = s.view.freeCell c := by
  have h := view_discard (s := s) ((s.heap.cell? c).bind (·.finalizer))
  have hheap : (s.discard ((s.heap.cell? c).bind (·.finalizer))).heap = s.heap := discard_heap _
  have hlink : (s.freeCell c).heap.link? =
      (s.discard ((s.heap.cell? c).bind (·.finalizer))).heap.link? := rfl
  have hcells : (s.freeCell c).heap.cells = s.heap.cells.set c none := by
    simp [freeCell, onHeap, Heap.freeCell, hheap]
  show View.mk (s.freeCell c).heap.cells _ _ _ _ = _
  rw [hcells]
  exact congrArg (fun v : View => {v with cells := s.heap.cells.set c none}) h

theorem view_forgetCell (name : String) :
    (s.forgetCell name).view =
      {s.view with named := fun n => if n = name then none else s.view.named n} := by
  simp only [view, forgetCell, onNames, Bindings.find?_remove]

/-- A cell that is freed by hand loses its name. -/
theorem view_free (name : String) :
    ((s.freeCell c).forgetCell name).view = s.view.free name c := by
  rw [view_forgetCell, view_freeCell]
  rfl

end State
end Custody
