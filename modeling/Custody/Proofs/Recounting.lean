import Custody.Proofs.Boundary
import Custody.Proofs.Tally
import Custody.Proofs.Threads

/-! What single calls do to a heap, measured against the heap at the start.

Calls on counted objects leave almost everything of a heap as it was: cells show other counts,
and an object to which no references are left is gone, with its cell. So it is enough to keep
the numbers of references: with the heap at the start they say what the heap has become
(`Heap.Recounts`), and nothing else does (`Heap.Recounts.unique`). One call moves one number,
whatever finalizer the last release runs, as long as that one only records. -/
namespace Custody

theorem total_eq_zero {g : α → Nat} {l : List α} (h : ∀ x ∈ l, g x = 0) : total g l = 0 := by
  induction l with
  | nil => rfl
  | cons x rest ih =>
    obtain ⟨hx, hrest⟩ := List.forall_mem_cons.1 h
    rw [total_cons, hx, ih hrest]

/-- A number that fits into a count. -/
theorem ofNat_eq_iff {n : Nat} {count : UInt32} (h : n ≤ maxCount.toNat) :
    UInt32.ofNat n = count ↔ n = count.toNat := by
  have hfits : (UInt32.ofNat n).toNat = n :=
    UInt32.toNat_ofNat_of_lt' (Nat.lt_of_le_of_lt h (by decide))
  rw [← UInt32.toNat_inj, hfits]

namespace Heap

/-! ### Heaps with other counts -/

/-- The finalizer that waits for an object's last release. -/
def finalizerOf (h : Heap) (o : ObjectId) : Option Finalizer :=
  (h.governing? o).bind (·.finalizer)

/-- Without anyone in a heap no lock is held, and no two objects share a cell. -/
structure Resting (h : Heap) : Prop where
  unlocked (c : CellId) (cell : Cell) (found : h.cell? c = some cell) : cell.locked = false
  single (o p : ObjectId) (c : CellId) (link : h.link? o = some c) (other : h.link? p = some c) :
    o = p

/-- There were references to the object, and none are left. -/
def Spent (h : Heap) (held : ObjectId → Nat) (o : ObjectId) : Prop :=
  h.countOf o ≠ 0 ∧ held o = 0
  deriving Decidable

/-- How many objects are spent. -/
def spent (h : Heap) (held : ObjectId → Nat) : Nat :=
  total (fun o => if h.Spent held o then 1 else 0) (List.range h.objects.length)

end Heap

/-- What is left of an object once it is deallocated. -/
def Object.remnant (finalizer : Option Finalizer) (object : Object) : Object where
  size := object.size
  link := none
  contents :=
    match finalizer with
    | some .dropValue => .remains
    | _ => object.contents

/-- The heap has become another one, in which so many references to each object are held. -/
structure Heap.Recounts (h : Heap) (held : ObjectId → Nat) (h' : Heap) : Prop where
  size : h'.objects.length = h.objects.length
  cells : h'.cells.length = h.cells.length
  object (o : ObjectId) : h'.object? o =
    if h.Spent held o then (h.object? o).map (·.remnant (h.finalizerOf o)) else h.object? o
  cell (o : ObjectId) (c : CellId) (link : h.link? o = some c) : h'.cell? c =
    if h.Spent held o then none
    else (h.cell? c).map fun cell => {cell with count := .ofNat (held o)}
  other (c : CellId) (free : ∀ o, h.link? o ≠ some c) : h'.cell? c = h.cell? c

namespace Heap

variable {h h' h'' h₁ h₂ : Heap} {held held' : ObjectId → Nat} {o p : ObjectId} {c d : CellId}
  {cell : Cell}

theorem countOf_of_link (hl : h.link? o = some c) (hc : h.cell? c = some cell) :
    h.countOf o = cell.count.toNat := by
  simp [countOf, governing?, hl, hc]

theorem spent_iff (hheld : held' o = held o) : h.Spent held' o ↔ h.Spent held o := by
  unfold Spent
  rw [hheld]

/-- An object to which there are references has a cell. -/
theorem exists_cell_of_countOf (ho : h.countOf o ≠ 0) :
    ∃ c cell, h.link? o = some c ∧ h.cell? c = some cell := by
  unfold countOf governing? at ho
  cases hl : h.link? o with
  | none => simp [hl] at ho
  | some c =>
    cases hc : h.cell? c with
    | none => simp [hl, hc] at ho
    | some cell => exact ⟨c, cell, rfl, hc⟩

theorem countOf_of_length_le (ho : h.objects.length ≤ o) : h.countOf o = 0 := by
  simp [countOf, governing?, link?_of_length_le ho]

/-- Two heaps are the same if nothing looks different in them. -/
theorem ext_of_lookups (hsize : h₁.objects.length = h₂.objects.length)
    (hcells : h₁.cells.length = h₂.cells.length) (hobject : ∀ o, h₁.object? o = h₂.object? o)
    (hcell : ∀ c, h₁.cell? c = h₂.cell? c) : h₁ = h₂ := by
  obtain ⟨objects₁, cells₁⟩ := h₁
  obtain ⟨objects₂, cells₂⟩ := h₂
  have hobjects : objects₁ = objects₂ := List.ext_getElem? hobject
  have : cells₁ = cells₂ := by
    refine List.ext_getElem hcells fun c h₁ h₂ => ?_
    have := hcell c
    simpa only [cell?, List.getElem?_eq_getElem h₁, List.getElem?_eq_getElem h₂,
      Option.join_some] using this
  rw [hobjects, this]

namespace Recounts

/-- **The numbers of references say what has become of a heap.** -/
theorem unique (h₁' : h.Recounts held h₁) (h₂' : h.Recounts held h₂) : h₁ = h₂ := by
  refine ext_of_lookups (h₁'.size.trans h₂'.size.symm) (h₁'.cells.trans h₂'.cells.symm)
    (fun o => (h₁'.object o).trans (h₂'.object o).symm) fun c => ?_
  by_cases hlinked : ∃ o, h.link? o = some c
  · obtain ⟨o, hl⟩ := hlinked
    rw [h₁'.cell o c hl, h₂'.cell o c hl]
  · have hfree (o : ObjectId) (hl : h.link? o = some c) : False := hlinked ⟨o, hl⟩
    rw [h₁'.other c hfree, h₂'.other c hfree]

protected theorem refl (h : Heap) : h.Recounts h.countOf h where
  size := rfl
  cells := rfl
  object o := (if_neg fun hs => hs.1 hs.2).symm
  cell o c link := by
    have hspent : ¬ h.Spent h.countOf o := fun hs => hs.1 hs.2
    rw [if_neg hspent]
    cases hc : h.cell? c with
    | none => rfl
    | some cell => simp [countOf_of_link link hc]
  other c _ := rfl

theorem object_eq (hr : h.Recounts held h') (ho : ¬ h.Spent held o) :
    h'.object? o = h.object? o := by
  rw [hr.object, if_neg ho]

theorem link?_eq (hr : h.Recounts held h') (ho : ¬ h.Spent held o) : h'.link? o = h.link? o := by
  unfold link?
  rw [hr.object_eq ho]

theorem link?_of_spent (hr : h.Recounts held h') (ho : h.Spent held o) : h'.link? o = none := by
  unfold link?
  rw [hr.object, if_pos ho]
  cases h.object? o <;> rfl

/-- Of the objects to which there were references, those are gone to which there are none. -/
theorem link?_eq_none_iff (hr : h.Recounts held h') (ho : h.countOf o ≠ 0) :
    h'.link? o = none ↔ held o = 0 := by
  constructor
  · intro hnone
    by_contra hsome
    have hunspent : ¬ h.Spent held o := fun hs => hsome hs.2
    obtain ⟨c, _, hl, _⟩ := exists_cell_of_countOf ho
    rw [hr.link?_eq hunspent, hl] at hnone
    cases hnone
  · exact fun hzero => hr.link?_of_spent ⟨ho, hzero⟩

/-- The counts are the numbers of references, as long as these fit into a count. -/
theorem countOf_eq (hr : h.Recounts held h') (hlive : 0 < held o → h.countOf o ≠ 0)
    (hroom : held o ≤ maxCount.toNat) : h'.countOf o = held o := by
  by_cases ho : h.Spent held o
  · rw [ho.2]
    simp [countOf, governing?, hr.link?_of_spent ho]
  · by_cases hzero : h.countOf o = 0
    · have hnone : held o = 0 := Nat.eq_zero_of_not_pos fun hpos => hlive hpos hzero
      have hcount (c : CellId) (cell : Cell) (hl : h.link? o = some c)
          (hc : h'.cell? c = some cell) : cell.count.toNat = 0 := by
        rw [hr.cell o c hl, if_neg ho] at hc
        obtain ⟨_, _, rfl⟩ := Option.map_eq_some_iff.1 hc
        simp [hnone]
      rw [hnone]
      unfold countOf governing?
      rw [hr.link?_eq ho]
      cases hl : h.link? o with
      | none => rfl
      | some c =>
        cases hc : h'.cell? c with
        | none => simp [hc]
        | some cell => simpa [hc] using hcount c cell hl hc
    · obtain ⟨c, cell, hl, hc⟩ := exists_cell_of_countOf hzero
      have hc' : h'.cell? c = some {cell with count := .ofNat (held o)} := by
        rw [hr.cell o c hl, if_neg ho, hc]
        rfl
      rw [countOf_of_link ((hr.link?_eq ho).trans hl) hc']
      exact ((ofNat_eq_iff hroom).1 rfl).symm

/-- An object to which there are references can be locked, and its cell shows their number. -/
theorem opens (hr : h.Recounts held h') (hrest : h.Resting) (hpos : 0 < held o)
    (hlive : h.countOf o ≠ 0) :
    ∃ c cell, h.link? o = some c ∧ h.cell? c = some cell ∧
      h'.Opens o c {cell with count := .ofNat (held o)} := by
  have ho : ¬ h.Spent held o := fun hs => Nat.ne_of_gt hpos hs.2
  obtain ⟨c, cell, hl, hc⟩ := exists_cell_of_countOf hlive
  refine ⟨c, cell, hl, hc, (hr.link?_eq ho).trans hl, ?_, hrest.unlocked c cell hc⟩
  rw [hr.cell o c hl, if_neg ho, hc]
  rfl

/-- A change to one object and its cell, which moves one number. -/
theorem change (hr : h.Recounts held h') (hrest : h.Resting) (hl : h.link? o = some c)
    (hheld : ∀ p, p ≠ o → held' p = held p) (hsize : h''.objects.length = h'.objects.length)
    (hcells : h''.cells.length = h'.cells.length)
    (hobject : ∀ p, p ≠ o → h''.object? p = h'.object? p)
    (hcell : ∀ d, d ≠ c → h''.cell? d = h'.cell? d)
    (hself : h''.object? o =
      if h.Spent held' o then (h.object? o).map (·.remnant (h.finalizerOf o)) else h.object? o)
    (hown : h''.cell? c = if h.Spent held' o then none
      else (h.cell? c).map fun cell => {cell with count := .ofNat (held' o)}) :
    h.Recounts held' h'' where
  size := hsize.trans hr.size
  cells := hcells.trans hr.cells
  object p := by
    by_cases hp : p = o
    · rw [hp]
      exact hself
    · rw [hobject p hp, hr.object]
      simp only [spent_iff (hheld p hp)]
  cell p d link := by
    by_cases hp : p = o
    · subst hp
      obtain rfl : c = d := Option.some.inj (hl.symm.trans link)
      exact hown
    · have hd : d ≠ c := by
        rintro rfl
        exact hp (hrest.single p o d link hl)
      rw [hcell d hd, hr.cell p d link]
      simp only [spent_iff (hheld p hp), hheld p hp]
  other d free := by
    have hd : d ≠ c := by
      rintro rfl
      exact free o hl
    rw [hcell d hd, hr.other d free]

/-- The count of an object to which references are left. -/
theorem setCount (hr : h.Recounts held h') (hrest : h.Resting) (hl : h.link? o = some c)
    (hc : h.cell? c = some cell) (hheld : ∀ p, p ≠ o → held' p = held p)
    (hbefore : 0 < held o) (hafter : 0 < held' o) {count : UInt32}
    (hcount : count = .ofNat (held' o)) : h.Recounts held' (h'.setCount c count) := by
  have hspent : ¬ h.Spent held o := fun hs => Nat.ne_of_gt hbefore hs.2
  have hspent' : ¬ h.Spent held' o := fun hs => Nat.ne_of_gt hafter hs.2
  refine hr.change hrest hl hheld rfl ?_ (fun _ _ => rfl)
    (fun d hd => cell?_updateCell_of_ne _ (Ne.symm hd)) ?_ ?_
  · exact List.length_modify ..
  · show h'.object? o = _
    rw [hr.object_eq hspent, if_neg hspent']
  · unfold Heap.setCount
    rw [cell?_updateCell_self, hr.cell o c hl, if_neg hspent, if_neg hspent', hc, hcount]
    rfl

end Recounts

/-! ### Objects that go -/

/-- Where a finalizer drops a value, nothing is left of the contents. -/
def emptied (o : ObjectId) (finalizer : Option Finalizer) (h : Heap) : Heap :=
  match finalizer with
  | some .dropValue => h.setContents o .remains
  | _ => h

theorem cell?_emptied (f : Option Finalizer) : (h.emptied o f).cell? d = h.cell? d := by
  unfold emptied
  split <;> rfl

theorem emptied_updateCell (finalizer : Option Finalizer) (f : Cell → Cell) :
    (h.updateCell c f).emptied o finalizer = (h.emptied o finalizer).updateCell c f := by
  unfold emptied
  split <;> rfl

theorem object?_emptied_bury (f : Option Finalizer) :
    ((h.emptied o f).bury ⟨o, c⟩).object? p =
      if p = o then (h.object? p).map (·.remnant f) else h.object? p := by
  have hset : ((h.emptied o f).freeCell c).object? p = (h.emptied o f).object? p := rfl
  unfold bury setLink
  rw [object?_updateObject, hset]
  unfold emptied
  by_cases hp : o = p
  · subst hp
    rw [if_pos rfl, if_pos rfl]
    cases f with
    | none => rfl
    | some finalizer =>
      cases finalizer with
      | routine r => rfl
      | dropValue =>
        simp only
        rw [Heap.setContents, object?_updateObject_self, Option.map_map]
        rfl
  · rw [if_neg hp, if_neg (Ne.symm hp)]
    split
    · exact object?_updateObject_of_ne _ hp
    · rfl

/-- The last reference goes, and the object with it. -/
theorem Recounts.bury (hr : h.Recounts held h') (hrest : h.Resting) (hl : h.link? o = some c)
    (hlive : h.countOf o ≠ 0) (hheld : ∀ p, p ≠ o → held' p = held p) (hbefore : 0 < held o)
    (hafter : held' o = 0) :
    h.Recounts held' ((h'.emptied o (h.finalizerOf o)).bury ⟨o, c⟩) := by
  have hspent : ¬ h.Spent held o := fun hs => Nat.ne_of_gt hbefore hs.2
  have hspent' : h.Spent held' o := ⟨hlive, hafter⟩
  refine hr.change hrest hl hheld ?_ ?_ (fun p hp => ?_) (fun d hd => ?_) ?_ ?_
  · unfold Heap.bury emptied Heap.setLink Heap.setContents updateObject
    split <;> simp [freeCell]
  · unfold Heap.bury emptied Heap.setLink Heap.setContents updateObject
    split <;> simp [freeCell]
  · rw [object?_emptied_bury, if_neg hp]
  · rw [cell?_bury, if_neg (Ne.symm hd), cell?_emptied]
  · rw [object?_emptied_bury, if_pos rfl, hr.object_eq hspent, if_pos hspent']
  · rw [cell?_bury, if_pos rfl, if_pos hspent']

/-! ### How many are gone -/

/-- As long as references are left, no object more is spent. -/
theorem spent_of_pos (hheld : ∀ p, p ≠ o → held' p = held p) (hbefore : 0 < held o)
    (hafter : 0 < held' o) : h.spent held' = h.spent held := by
  unfold spent
  refine total_congr fun p _ => ?_
  by_cases hp : p = o
  · subst hp
    have hspent : ¬ h.Spent held p := fun hs => Nat.ne_of_gt hbefore hs.2
    have hspent' : ¬ h.Spent held' p := fun hs => Nat.ne_of_gt hafter hs.2
    rw [if_neg hspent, if_neg hspent']
  · simp only [spent_iff (hheld p hp)]

theorem spent_countOf (h : Heap) : h.spent h.countOf = 0 :=
  total_eq_zero fun _ _ => if_neg fun hs => hs.1 hs.2

theorem spent_succ (hheld : ∀ p, p ≠ o → held' p = held p) (hlive : h.countOf o ≠ 0)
    (hbefore : 0 < held o) (hafter : held' o = 0) : h.spent held' = h.spent held + 1 := by
  obtain ⟨c, _, hl, _⟩ := exists_cell_of_countOf hlive
  have hchange := total_range_change (f := fun p => if h.Spent held p then 1 else 0)
    (g := fun p => if h.Spent held' p then 1 else 0) (lt_length_of_link? hl) fun p hp => by
      simp only [spent_iff (hheld p hp)]
  have hspent : ¬ h.Spent held o := fun hs => Nat.ne_of_gt hbefore hs.2
  have hspent' : h.Spent held' o := ⟨hlive, hafter⟩
  rwa [if_neg hspent, if_pos hspent'] at hchange

end Heap
end Custody
