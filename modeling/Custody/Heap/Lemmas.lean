import Custody.Heap.Basic

/-! What each change to a heap does to what can be looked up in it.

A change to a cell shows in that cell alone, and never in a link or in a payload;
a change to an object shows in that object alone. New cells and objects leave the
old ones as they were. -/
namespace Custody.Heap

variable {h : Heap} {c d : CellId} {o p : ObjectId}

/-! ### Cells -/

theorem cell?_updateCell (f : Cell → Cell) :
    (h.updateCell c f).cell? d = if c = d then (h.cell? d).map f else h.cell? d := by
  simp only [cell?, updateCell, List.getElem?_modify]
  split
  · cases h.cells[d]? <;> rfl
  · cases h.cells[d]? <;> rfl

@[simp] theorem cell?_updateCell_self (f : Cell → Cell) :
    (h.updateCell c f).cell? c = (h.cell? c).map f := by
  rw [cell?_updateCell, if_pos rfl]

theorem cell?_updateCell_of_ne (f : Cell → Cell) (hne : c ≠ d) :
    (h.updateCell c f).cell? d = h.cell? d := by
  rw [cell?_updateCell, if_neg hne]

@[simp] theorem object?_updateCell (f : Cell → Cell) :
    (h.updateCell c f).object? o = h.object? o := rfl

@[simp] theorem link?_updateCell (f : Cell → Cell) : (h.updateCell c f).link? o = h.link? o := rfl

@[simp] theorem cell?_freeCell_self : (h.freeCell c).cell? c = none := by
  simp only [cell?, freeCell, List.getElem?_set]
  split
  · split <;> rfl
  · contradiction

theorem cell?_freeCell_of_ne (hne : c ≠ d) : (h.freeCell c).cell? d = h.cell? d := by
  simp only [cell?, freeCell, List.getElem?_set, if_neg hne]

@[simp] theorem link?_freeCell : (h.freeCell c).link? o = h.link? o := rfl

/-- Taking a lock and returning it leaves the heap as it was. -/
theorem setLocked_setLocked {cell : Cell} (hc : h.cell? c = some cell) (locked : Bool) :
    (h.setLocked c locked).setLocked c cell.locked = h := by
  have hget : h.cells[c]? = some (some cell) := by
    simpa only [cell?, Option.join_eq_some_iff] using hc
  have hcells : (h.cells.modify c (Option.map fun x => {x with locked})).modify c
      (Option.map fun x => {x with locked := cell.locked}) = h.cells := by
    apply List.ext_getElem?
    intro i
    simp only [List.getElem?_modify]
    by_cases hi : c = i
    · subst hi
      simp [hget]
    · simp only [hi, if_false]
      cases h.cells[i]? <;> rfl
  exact congrArg (fun cells => ({h with cells} : Heap)) hcells

/-! ### Objects -/

theorem object?_updateObject (f : Object → Object) :
    (h.updateObject o f).object? p = if o = p then (h.object? p).map f else h.object? p := by
  simp only [object?, updateObject, List.getElem?_modify]
  split
  · rfl
  · cases h.objects[p]? <;> rfl

@[simp] theorem object?_updateObject_self (f : Object → Object) :
    (h.updateObject o f).object? o = (h.object? o).map f := by
  rw [object?_updateObject, if_pos rfl]

theorem object?_updateObject_of_ne (f : Object → Object) (hne : o ≠ p) :
    (h.updateObject o f).object? p = h.object? p := by
  rw [object?_updateObject, if_neg hne]

@[simp] theorem cell?_updateObject (f : Object → Object) :
    (h.updateObject o f).cell? c = h.cell? c := rfl

@[simp] theorem link?_setLink_none : (h.setLink o none).link? o = none := by
  simp only [link?, setLink, object?_updateObject_self]
  cases h.object? o <;> rfl

theorem link?_setLink_of_ne (link : Option CellId) (hne : o ≠ p) :
    (h.setLink o link).link? p = h.link? p := by
  simp only [link?, setLink, object?_updateObject_of_ne _ hne]

/-! ### New cells and objects -/

theorem cell?_addCell_self (finalizer : Option Finalizer) :
    (h.addCell finalizer).2.cell? (h.addCell finalizer).1 = some {finalizer} := by
  simp [cell?, addCell]

theorem cell?_addCell_of_lt (finalizer : Option Finalizer) (hc : c < h.cells.length) :
    (h.addCell finalizer).2.cell? c = h.cell? c := by
  simp [cell?, addCell, List.getElem?_append_left hc]

theorem object?_addObject_self (size : UInt64) (contents : Contents)
    (finalizer : Option Finalizer) :
    (h.addObject size contents finalizer).2.object? (h.addObject size contents finalizer).1 =
      some ⟨size, some h.cells.length, contents⟩ := by
  simp [object?, addObject, addCell]

theorem object?_addObject_of_lt (size : UInt64) (contents : Contents)
    (finalizer : Option Finalizer) (ho : o < h.objects.length) :
    (h.addObject size contents finalizer).2.object? o = h.object? o := by
  simp [object?, addObject, addCell, List.getElem?_append_left ho]

/-- A new object has a cell of its own, unlocked and with count 0. -/
theorem governing?_addObject_self (size : UInt64) (contents : Contents)
    (finalizer : Option Finalizer) :
    (h.addObject size contents finalizer).2.governing? (h.addObject size contents finalizer).1 =
      some {finalizer} := by
  simp only [governing?, link?, object?_addObject_self, Option.bind_some]
  exact cell?_addCell_self finalizer

end Custody.Heap
