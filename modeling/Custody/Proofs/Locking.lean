import Custody.Creation
import Custody.Heap.Lemmas

/-! The operations on retain counts, without their locks.

Every operation takes the lock of the cell that governs its object and returns it,
but for the release that starts a teardown. What is left once taking and returning
the lock cancel out is one look at the cell, and either a fault in the state that
was found or one change to the count. -/
namespace Custody

theorem getElem?_snoc (l : List α) (x : α) (i : Nat) :
    (l ++ [x])[i]? = if i = l.length then some x else l[i]? := by
  rcases Nat.lt_trichotomy i l.length with hlt | rfl | hgt
  · rw [if_neg (Nat.ne_of_lt hlt), List.getElem?_append_left hlt]
  · rw [if_pos rfl, List.getElem?_concat_length]
  · rw [if_neg (Nat.ne_of_gt hgt), List.getElem?_eq_none (Nat.le_of_lt hgt),
      List.getElem?_eq_none (by simpa using Nat.succ_le_of_lt hgt)]

theorem toNat_add_one {n : UInt32} (h : n ≠ maxCount) :
    n.toNat < maxCount.toNat ∧ (n + 1).toNat = n.toNat + 1 := by
  have hmax : maxCount.toNat = 4294967295 := rfl
  have hone : (1 : UInt32).toNat = 1 := rfl
  have hne : n.toNat ≠ maxCount.toNat := fun heq => h (UInt32.toNat_inj.1 heq)
  have hlt := n.toNat_lt
  rw [UInt32.toNat_add]
  omega

theorem toNat_sub_one {n : UInt32} (h : n ≠ 0) : n.toNat = (n - 1).toNat + 1 := by
  have hne : n.toNat ≠ (0 : UInt32).toNat := fun heq => h (UInt32.toNat_inj.1 heq)
  have hzero : (0 : UInt32).toNat = 0 := rfl
  have hone : (1 : UInt32).toNat = 1 := rfl
  have hle : (1 : UInt32) ≤ n := by
    rw [UInt32.le_iff_toNat_le]
    omega
  rw [UInt32.toNat_sub_of_le _ _ hle]
  omega

namespace Heap

variable {h : Heap} {c : CellId} {o : ObjectId} {cell : Cell}

/-- The object's cell can be locked. -/
structure Opens (h : Heap) (o : ObjectId) (c : CellId) (cell : Cell) : Prop where
  link : h.link? o = some c
  found : h.cell? c = some cell
  unlocked : cell.locked = false

/-- What an operation finds at an object. -/
inductive Access (h : Heap) (o : ObjectId) : Prop where
  | gone (link : h.link? o = none)
  | barred (c : CellId) (link : h.link? o = some c)
      (closed : ∀ cell, h.cell? c = some cell → cell.locked = true)
  | granted (c : CellId) (cell : Cell) (opens : h.Opens o c cell)

theorem access (h : Heap) (o : ObjectId) : h.Access o := by
  cases hl : h.link? o with
  | none => exact .gone hl
  | some c =>
    by_cases hopen : ∃ cell, h.cell? c = some cell ∧ cell.locked = false
    · obtain ⟨cell, hc, hunlocked⟩ := hopen
      exact .granted c cell ⟨hl, hc, hunlocked⟩
    · refine .barred c hl fun cell hc => ?_
      cases hlocked : cell.locked with
      | true => rfl
      | false => exact absurd ⟨cell, hc, hlocked⟩ hopen

/-- A new object's cell can be locked. -/
theorem opens_addObject (size : UInt64) (contents : Contents) (finalizer : Option Finalizer) :
    (h.addObject size contents finalizer).2.Opens (h.addObject size contents finalizer).1
      h.cells.length {finalizer} := by
  refine ⟨?_, cell?_addCell_self (h := h) finalizer, rfl⟩
  simp only [link?, object?_addObject_self, Option.bind_some]

/-! ### Changes to one cell -/

theorem updateCell_updateCell (f g : Cell → Cell) :
    (h.updateCell c f).updateCell c g = h.updateCell c (g ∘ f) := by
  simp only [updateCell]
  congr 1
  apply List.ext_getElem?
  intro i
  simp only [List.getElem?_modify]
  by_cases hi : c = i
  · cases h.cells[i]? <;> simp [hi]
  · simp [hi]

/-- Two changes to a cell are the same if they agree on what it holds. -/
theorem updateCell_congr {f g : Cell → Cell} (hc : h.cell? c = some cell) (hfg : f cell = g cell) :
    h.updateCell c f = h.updateCell c g := by
  have hget : h.cells[c]? = some (some cell) := by
    simpa only [cell?, Option.join_eq_some_iff] using hc
  simp only [updateCell]
  congr 1
  apply List.ext_getElem?
  intro i
  simp only [List.getElem?_modify]
  by_cases hi : c = i
  · subst hi
    simp [hget, hfg]
  · simp [hi]

/-- It does not matter how a cell that is freed was changed. -/
theorem freeCell_updateCell (f : Cell → Cell) : (h.updateCell c f).freeCell c = h.freeCell c := by
  simp only [freeCell, updateCell]
  congr 1
  apply List.ext_getElem?
  intro i
  simp only [List.getElem?_set, List.getElem?_modify, List.length_modify]
  by_cases hi : c = i
  · simp [hi]
  · simp only [hi, if_false]
    cases h.cells[i]? <;> rfl

/-- A change to the count under the lock, once the lock is returned. -/
theorem setCount_under_lock (hc : h.cell? c = some cell) (hunlocked : cell.locked = false)
    (count : UInt32) :
    ((h.setLocked c true).setCount c count).setLocked c false = h.setCount c count := by
  unfold setLocked setCount
  rw [updateCell_updateCell, updateCell_updateCell]
  refine updateCell_congr hc ?_
  show ({cell with count, locked := false} : Cell) = {cell with count}
  rw [← hunlocked]

theorem takeFinalizer_under_lock (hc : h.cell? c = some cell) :
    ((h.setLocked c true).setCount c 0).takeFinalizer c =
      h.updateCell c fun _ => {locked := true} := by
  unfold setLocked setCount takeFinalizer
  rw [updateCell_updateCell, updateCell_updateCell]
  exact updateCell_congr hc rfl

/-! ### Teardowns that are finished -/

/-- The cell is freed and the slot is cleared. -/
def bury (h : Heap) (t : Teardown) : Heap :=
  (h.freeCell t.cell).setLink t.object none

theorem link?_bury (t : Teardown) (p : ObjectId) :
    (h.bury t).link? p = if t.object = p then none else h.link? p := by
  unfold bury
  by_cases hp : t.object = p
  · rw [if_pos hp, ← hp]
    exact link?_setLink_none
  · rw [if_neg hp]
    exact link?_setLink_of_ne none hp

theorem cell?_bury (t : Teardown) (d : CellId) :
    (h.bury t).cell? d = if t.cell = d then none else h.cell? d := by
  by_cases hd : t.cell = d
  · rw [if_pos hd, ← hd]
    exact cell?_freeCell_self
  · rw [if_neg hd]
    exact cell?_freeCell_of_ne hd

end Heap

namespace State

variable {s : State} {c : CellId} {o : ObjectId} {cell : Cell}

/-- What the release of the last reference does to the state: the counterpart of `finish`. -/
def begin (t : Teardown) (s : State) : State :=
  (((s.onHeap (·.updateCell t.cell fun _ => {locked := true})).onStatistics (·.addRelease)).trace
    .released t.object 0).trace .deallocating t.object 0

theorem onHeap_of_eq {f : Heap → Heap} (h : f s.heap = s.heap) : s.onHeap f = s := by
  unfold onHeap
  rw [h]

theorem lock_of_closed (h : ∀ cell, s.heap.cell? c = some cell → cell.locked = true) :
    s.lock c = .halted .blocked s := by
  unfold lock
  cases hc : s.heap.cell? c with
  | none => rfl
  | some cell => simp [h cell hc]

theorem lock_of_unlocked (hc : s.heap.cell? c = some cell) (hunlocked : cell.locked = false) :
    s.lock c = .returned {cell with locked := true} (s.onHeap (·.setLocked c true)) := by
  simp [lock, hc, hunlocked]

/-- Returning a lock that was just taken. -/
theorem unlock_lock (hc : s.heap.cell? c = some cell) (hunlocked : cell.locked = false) :
    (s.onHeap (·.setLocked c true)).unlock c = s := by
  have hheap := Heap.setLocked_setLocked hc true
  rw [hunlocked] at hheap
  exact onHeap_of_eq (f := fun h => (h.setLocked c true).setLocked c false) hheap

theorem resolve_of_gone (h : s.heap.link? o = none) :
    s.resolve o = s.report (.useAfterFree (.object o)) := by
  simp [resolve, h]

theorem resolve_of_link (h : s.heap.link? o = some c) : s.resolve o = .returned c s := by
  simp [resolve, h]

@[simp] theorem report_andThen (f : Fault) (s : State) (next : α → State → Outcome β) :
    (s.report f : Outcome α).andThen next = s.report f := by
  unfold report
  split
  · rfl
  · rfl
  · split <;> rfl

theorem report_ne_returned {f : Fault} {a : α} {t : State} : s.report f ≠ .returned a t := by
  unfold report
  split
  · exact nofun
  · exact nofun
  · split <;> exact nofun

/-! ### What operations share

An operation resolves its object, takes the cell's lock and goes on with the cell. -/

section Access

variable {next : CellId → Cell → State → Outcome β}

theorem access_of_gone (h : s.heap.link? o = none) :
    ((s.resolve o).andThen fun c s => (s.lock c).andThen fun cell s => next c cell s) =
      s.report (.useAfterFree (.object o)) := by
  rw [resolve_of_gone h, report_andThen]

theorem access_of_barred (hl : s.heap.link? o = some c)
    (h : ∀ cell, s.heap.cell? c = some cell → cell.locked = true) :
    ((s.resolve o).andThen fun c s => (s.lock c).andThen fun cell s => next c cell s) =
      .halted .blocked s := by
  rw [resolve_of_link hl, Outcome.andThen_returned, lock_of_closed h, Outcome.andThen_halted]

theorem access_of_opens (h : s.heap.Opens o c cell) :
    ((s.resolve o).andThen fun c s => (s.lock c).andThen fun cell s => next c cell s) =
      next c {cell with locked := true} (s.onHeap (·.setLocked c true)) := by
  rw [resolve_of_link h.link, Outcome.andThen_returned, lock_of_unlocked h.found h.unlocked,
    Outcome.andThen_returned]

end Access

/-! ### The operations at an object that is open -/

theorem onHeap_trace (f : Heap → Heap) (t : Transition) (count : UInt32) (s : State) :
    (s.trace t o count).onHeap f = (s.onHeap f).trace t o count := rfl

theorem onHeap_onStatistics (f : Heap → Heap) (g : Statistics → Statistics) (s : State) :
    (s.onStatistics g).onHeap f = (s.onHeap f).onStatistics g := rfl

/-- A change to the count under the lock, once the lock is returned. -/
theorem setCount_under_lock (hc : s.heap.cell? c = some cell) (hunlocked : cell.locked = false)
    (count : UInt32) :
    ((s.onHeap (·.setLocked c true)).onHeap (·.setCount c count)).onHeap (·.setLocked c false) =
      s.onHeap (·.setCount c count) :=
  congrArg (fun heap => ({s with heap} : State)) (Heap.setCount_under_lock hc hunlocked count)

/-- Of a cell that starts its teardown nothing is left but the lock. -/
theorem takeFinalizer_under_lock (hc : s.heap.cell? c = some cell) :
    ((s.onHeap (·.setLocked c true)).onHeap (·.setCount c 0)).onHeap (·.takeFinalizer c) =
      s.onHeap (·.updateCell c fun _ => {locked := true}) :=
  congrArg (fun heap => ({s with heap} : State)) (Heap.takeFinalizer_under_lock hc)

theorem retain_of_opens (h : s.heap.Opens o c cell) :
    s.retain o =
      if cell.count = maxCount then s.report (.retainOverflow (.object o) cell.count)
      else .returned ()
        (((s.onHeap (·.setCount c (cell.count + 1))).onStatistics (·.addRetain)).trace
          .retained o (cell.count + 1)) := by
  rw [retain, access_of_opens h]
  simp only
  rw [unlock_lock h.found h.unlocked, unlock, setCount_under_lock h.found h.unlocked]

theorem sub_one_eq_zero_iff {n : UInt32} (h : n ≠ 0) : n - 1 = 0 ↔ n = 1 := by
  constructor
  · intro hn
    have := congrArg (· + 1) hn
    simpa using this
  · rintro rfl
    rfl

theorem release_of_opens (h : s.heap.Opens o c cell) :
    s.release o =
      if cell.count = 0 then s.report (.releaseUnderflow (.object o))
      else if cell.count = 1 then .returned (some (⟨o, c⟩, cell.finalizer)) (s.begin ⟨o, c⟩)
      else .returned none
        (((s.onHeap (·.setCount c (cell.count - 1))).onStatistics (·.addRelease)).trace
          .released o (cell.count - 1)) := by
  rw [release, access_of_opens h]
  simp only
  rw [unlock_lock h.found h.unlocked]
  by_cases hzero : cell.count = 0
  · simp only [hzero, if_true]
  · simp only [hzero, if_false, sub_one_eq_zero_iff hzero]
    by_cases hone : cell.count = 1
    · have hnone : (1 : UInt32) - 1 = 0 := rfl
      simp only [hone, if_true, hnone]
      rw [onHeap_trace, onHeap_trace, onHeap_onStatistics, takeFinalizer_under_lock h.found]
      rfl
    · simp only [hone, if_false]
      rw [unlock, onHeap_trace, onHeap_onStatistics, setCount_under_lock h.found h.unlocked]

theorem isUnique_of_opens (h : s.heap.Opens o c cell) :
    s.isUnique o = .returned (cell.count == 1) s := by
  rw [isUnique, access_of_opens h]
  simp only
  rw [unlock_lock h.found h.unlocked]

theorem count_of_opens (h : s.heap.Opens o c cell) :
    s.count o = .returned cell.count (s.trace .counted o cell.count) := by
  rw [count, access_of_opens h]
  simp only
  rw [unlock_lock h.found h.unlocked]

/-- The end of a teardown whose finalizer was taken out before. -/
theorem finish_of_taken {t : Teardown}
    (hc : s.heap.cell? t.cell = some cell) (hnone : cell.finalizer = none) :
    s.finish t = (s.onHeap (·.bury t)).onStatistics (·.addDeallocation) := by
  have hunlock : (s.unlock t.cell).heap.cell? t.cell = some {cell with locked := false} := by
    simp [unlock, onHeap, Heap.setLocked, hc]
  have hheap : (s.heap.setLocked t.cell false).freeCell t.cell = s.heap.freeCell t.cell :=
    Heap.freeCell_updateCell _
  have hfree : (s.unlock t.cell).freeCell t.cell = s.onHeap (·.freeCell t.cell) := by
    unfold freeCell
    rw [hunlock, Option.bind_some]
    simp only [hnone, discard]
    exact congrArg (fun heap => ({s with heap} : State)) hheap
  unfold finish
  rw [hfree]
  rfl

end State
end Custody
