import Custody.Heap.Lemmas
import Custody.Machine.Budget

/-! The load that an operation leaves in the heap.

The load of a heap is the work and the copies that its cells and payloads hold.
Operations add to it only what they are given: a finalizer with a new cell, the
handles of a value with a new object. A release that starts a teardown takes the
finalizer's load out (`handedOver_of_release`). -/
namespace Custody

/-! ### Sums over lists that change in one place -/

@[simp] theorem total_nil (g : α → Nat) : total g [] = 0 := rfl

@[simp] theorem total_cons (g : α → Nat) (x : α) (rest : List α) :
    total g (x :: rest) = g x + total g rest := rfl

theorem total_append (g : α → Nat) (l k : List α) : total g (l ++ k) = total g l + total g k := by
  induction l with
  | nil => simp
  | cons x rest ih => simp [ih, Nat.add_assoc]

theorem total_replicate (g : α → Nat) (n : Nat) (x : α) :
    total g (List.replicate n x) = n * g x := by
  induction n with
  | zero => simp
  | succ n ih => simp [List.replicate_succ, ih, Nat.succ_mul, Nat.add_comm]

theorem total_modify (g : α → Nat) (f : α → α) (l : List α) (i : Nat) :
    total g (l.modify i f) + (l[i]?.map g).getD 0 =
      total g l + (l[i]?.map fun x => g (f x)).getD 0 := by
  induction l generalizing i with
  | nil => simp
  | cons x rest ih =>
    cases i with
    | zero => simp; omega
    | succ i => simpa [Nat.add_assoc] using ih i

theorem total_set_le (g : α → Nat) (l : List α) (i : Nat) {y : α} (hy : g y = 0) :
    total g (l.set i y) ≤ total g l := by
  induction l generalizing i with
  | nil => simp
  | cons x rest ih =>
    cases i with
    | zero => simp [hy]
    | succ i => simpa using ih i

theorem le_total_of_mem (g : α → Nat) {l : List α} {x : α} (hx : x ∈ l) : g x ≤ total g l := by
  induction hx with
  | head rest => simp
  | tail y _ ih => exact Nat.le_trans ih (by simp)

/-! ### The load of a heap -/

/-- A heap that holds no more than so much work and so many copies. -/
structure Heap.Within (h : Heap) (work copies : Nat) : Prop where
  work_le : h.work ≤ work
  copies_le : h.copies ≤ copies

namespace Heap

variable {h : Heap} {c : CellId} {o : ObjectId} {w k : Nat}

theorem within_self (h : Heap) : h.Within h.work h.copies :=
  ⟨Nat.le_refl _, Nat.le_refl _⟩

theorem Within.mono {w' k' : Nat} (hw : h.Within w k) (hle : w ≤ w') (hle' : k ≤ k') :
    h.Within w' k' :=
  ⟨Nat.le_trans hw.work_le hle, Nat.le_trans hw.copies_le hle'⟩

/-- The routine in the cell, counted as its cell counts it. -/
def load (g : Option (Routine Step) → Nat) (cell : Option Cell) : Nat :=
  g (cell.bind (·.routine?))

/-- Changing a cell exchanges the load of its routine. -/
theorem total_updateCell (g : Option (Routine Step) → Nat) (hg : g none = 0) (f : Cell → Cell) :
    total (load g) (h.updateCell c f).cells + load g (h.cell? c) =
      total (load g) h.cells + load g ((h.cell? c).map f) := by
  have := total_modify (load g) (Option.map f) h.cells c
  unfold cell?
  cases hc : h.cells[c]? with
  | none => simpa [hc, load, hg, updateCell] using this
  | some cell => simpa [hc, updateCell] using this

theorem updateCell_load {f : Cell → Cell} (hf : ∀ cell, (f cell).finalizer = cell.finalizer) :
    (h.updateCell c f).work = h.work ∧ (h.updateCell c f).copies = h.copies := by
  have hload (g : Option (Routine Step) → Nat) (cell : Option Cell) :
      load g (cell.map f) = load g cell := by
    cases cell with
    | none => rfl
    | some cell => simp [load, Cell.routine?, hf]
  have hw := total_updateCell (h := h) (c := c) routineWork rfl f
  have hk := total_updateCell (h := h) (c := c) routineCopies rfl f
  rw [hload] at hw hk
  exact ⟨congrArg (· + total Object.work h.objects) (Nat.add_right_cancel hw),
    Nat.add_right_cancel hk⟩

theorem takeFinalizer_load :
    (h.takeFinalizer c).work + cellWork (h.cell? c) = h.work ∧
      (h.takeFinalizer c).copies + cellCopies (h.cell? c) = h.copies := by
  have hnone (g : Option (Routine Step) → Nat) (hg : g none = 0) (cell : Option Cell) :
      load g (cell.map fun cell => {cell with finalizer := none}) = 0 := by
    cases cell <;> simpa [load, Cell.routine?] using hg
  have hw := total_updateCell (h := h) (c := c) routineWork rfl
    fun cell => {cell with finalizer := none}
  have hk := total_updateCell (h := h) (c := c) routineCopies rfl
    fun cell => {cell with finalizer := none}
  rw [hnone _ rfl] at hw hk
  constructor
  · show total cellWork (h.takeFinalizer c).cells + total Object.work h.objects +
      cellWork (h.cell? c) = total cellWork h.cells + total Object.work h.objects
    have hw' : total cellWork (h.takeFinalizer c).cells + cellWork (h.cell? c) =
      total cellWork h.cells := hw
    omega
  · exact hk

theorem freeCell_load : (h.freeCell c).Within h.work h.copies :=
  ⟨Nat.add_le_add_right (total_set_le cellWork h.cells c rfl) _,
    total_set_le cellCopies h.cells c rfl⟩

/-- Changing the contents of an object exchanges the load of its handles. -/
theorem updateObject_load (f : Object → Object) :
    (h.updateObject o f).work + ((h.object? o).map Object.work).getD 0 =
        h.work + ((h.object? o).map fun object => (f object).work).getD 0 ∧
      (h.updateObject o f).copies = h.copies := by
  have := total_modify Object.work f h.objects o
  refine ⟨?_, rfl⟩
  show total cellWork h.cells + total Object.work (h.objects.modify o f) +
      (h.objects[o]?.map Object.work).getD 0 =
    total cellWork h.cells + total Object.work h.objects +
      (h.objects[o]?.map fun object => (f object).work).getD 0
  omega

theorem setLink_load (link : Option CellId) :
    (h.setLink o link).work = h.work ∧ (h.setLink o link).copies = h.copies := by
  have := updateObject_load (h := h) (o := o) fun object => {object with link}
  refine ⟨?_, this.2⟩
  have hw := this.1
  have hsame : ((h.object? o).map fun object => ({object with link} : Object).work).getD 0 =
      ((h.object? o).map Object.work).getD 0 := rfl
  rw [hsame] at hw
  exact Nat.add_right_cancel hw

theorem addCell_load (finalizer : Option Finalizer) :
    (h.addCell finalizer).2.work = h.work + cellWork (some {finalizer}) ∧
      (h.addCell finalizer).2.copies = h.copies + cellCopies (some {finalizer}) := by
  simp only [addCell, work, copies, total_append, total_cons, total_nil]
  omega

theorem addObject_load (size : UInt64) (contents : Contents) (finalizer : Option Finalizer) :
    (h.addObject size contents finalizer).2.work =
        h.work + cellWork (some {finalizer}) + contents.children.length * handleWork ∧
      (h.addObject size contents finalizer).2.copies =
        h.copies + cellCopies (some {finalizer}) := by
  simp only [addObject, addCell, work, copies, total_append, total_cons, total_nil, Object.work]
  omega

/-- What one object holds is part of what the heap holds. -/
theorem children_load {v : Value} (hv : h.value? o = some v) :
    v.children.length * handleWork ≤ h.work := by
  obtain ⟨object, ho, hc⟩ := Option.bind_eq_some_iff.1 hv
  have hmem : object ∈ h.objects := List.mem_of_getElem? ho
  have hle := le_total_of_mem Object.work hmem
  have hwork : v.children.length * handleWork = object.work := by
    unfold Object.work
    cases hcontents : object.contents with
    | bytes b =>
      rw [hcontents] at hc
      obtain rfl := Option.some.inj hc
      rfl
    | value v' =>
      rw [hcontents] at hc
      obtain rfl := Option.some.inj hc
      rfl
    | remains =>
      rw [hcontents] at hc
      cases hc
  rw [hwork]
  exact Nat.le_trans hle (Nat.le_add_left _ _)

end Heap

/-! ### Operations -/

/-- Every way out of an operation leaves a heap within a load. -/
def Outcome.Within (out : Outcome α) (work copies : Nat) : Prop :=
  match out with
  | .returned _ s | .unwound _ s | .halted _ s => s.heap.Within work copies

namespace Outcome

variable {out : Outcome α} {w k w' k' : Nat}

theorem Within.mono (h : out.Within w k) (hw : w ≤ w') (hk : k ≤ k') : out.Within w' k' := by
  cases out <;> exact Heap.Within.mono h hw hk

theorem Within.andThen {next : α → State → Outcome β} (h : out.Within w k)
    (hnext : ∀ a s, s.heap.Within w k → (next a s).Within w k) : (out.andThen next).Within w k := by
  cases out with
  | returned a s => exact hnext a s h
  | unwound cause s => exact h
  | halted halt s => exact h

theorem Within.map (f : α → β) (h : out.Within w k) : (out.map f).Within w k :=
  h.andThen fun _ _ hs => hs

theorem Within.through (via : Convention) (h : out.Within w k) : (out.through via).Within w k := by
  cases via <;> cases out <;> exact h

end Outcome

namespace State

variable {s : State} {w k : Nat} {o : ObjectId} {c : CellId}

theorem report_within (f : Fault) (h : s.heap.Within w k) :
    (s.report f : Outcome α).Within w k := by
  unfold report
  split
  · exact h
  · exact h
  · split <;> exact h

theorem given_within {found : Option α} {next : α → Outcome β} (h : s.heap.Within w k)
    (hnext : ∀ a, found = some a → (next a).Within w k) : (s.given found next).Within w k := by
  cases found with
  | none => exact h
  | some a => exact hnext a rfl

theorem resolve_within (h : s.heap.Within w k) : (s.resolve o).Within w k := by
  unfold resolve
  split
  · exact h
  · exact report_within _ h

theorem setLocked_within (locked : Bool) (h : s.heap.Within w k) :
    (s.heap.setLocked c locked).Within w k := by
  have := Heap.updateCell_load (h := s.heap) (c := c) (f := fun cell => {cell with locked})
    fun _ => rfl
  exact ⟨this.1 ▸ h.work_le, this.2 ▸ h.copies_le⟩

theorem setCount_within (count : UInt32) (h : s.heap.Within w k) :
    (s.heap.setCount c count).Within w k := by
  have := Heap.updateCell_load (h := s.heap) (c := c) (f := fun cell => {cell with count})
    fun _ => rfl
  exact ⟨this.1 ▸ h.work_le, this.2 ▸ h.copies_le⟩

theorem lock_within (h : s.heap.Within w k) : (s.lock c).Within w k := by
  unfold lock
  split
  · split
    · exact h
    · exact setLocked_within true h
  · exact h

theorem unlock_within (h : s.heap.Within w k) : (s.unlock c).heap.Within w k :=
  setLocked_within false h

theorem discard_heap (finalizer : Option Finalizer) : (s.discard finalizer).heap = s.heap := by
  unfold discard
  split <;> rfl

theorem freeCell_within (h : s.heap.Within w k) : (s.freeCell c).heap.Within w k := by
  have := (Heap.freeCell_load (h := s.heap) (c := c)).mono h.work_le h.copies_le
  rw [← discard_heap (s := s) ((s.heap.cell? c).bind (·.finalizer))] at this
  exact this

theorem retain_within (h : s.heap.Within w k) : (s.retain o).Within w k := by
  refine (resolve_within h).andThen fun c s h => (lock_within h).andThen fun cell s h => ?_
  split
  · exact report_within _ (unlock_within h)
  · exact unlock_within (setCount_within _ h)

theorem isUnique_within (h : s.heap.Within w k) : (s.isUnique o).Within w k :=
  (resolve_within h).andThen fun _ _ h => (lock_within h).andThen fun _ _ h => unlock_within h

theorem count_within (h : s.heap.Within w k) : (s.count o).Within w k :=
  (resolve_within h).andThen fun _ _ h => (lock_within h).andThen fun _ _ h => unlock_within h

theorem finish_within (t : Teardown) (h : s.heap.Within w k) : (s.finish t).heap.Within w k := by
  have hfree := freeCell_within (c := t.cell) (unlock_within (c := t.cell) h)
  have := Heap.setLink_load (h := ((s.unlock t.cell).freeCell t.cell).heap) (o := t.object) none
  exact ⟨this.1 ▸ hfree.work_le, this.2 ▸ hfree.copies_le⟩

/-- A lock that is taken shows the cell that is then in the heap. -/
theorem cell?_of_lock {cell : Cell} {s' : State} (h : s.lock c = .returned cell s') :
    s'.heap.cell? c = some cell := by
  unfold lock at h
  split at h
  · next found hfound =>
    split at h
    · cases h
    · cases h
      simp [onHeap, Heap.setLocked, hfound]
  · cases h

/-- What a release hands over, beside the load that stays in the heap. -/
def handedOver (g : Option Cell → Nat) : Option (Teardown × Option Finalizer) → Nat
  | none => 0
  | some (_, finalizer) => g (some {finalizer})

/-- A release that starts a teardown takes the finalizer's load out of the heap. -/
theorem handedOver_of_release {s' : State} {result : Option (Teardown × Option Finalizer)}
    (h : s.heap.Within w k) (hr : s.release o = .returned result s') :
    s'.heap.work + handedOver cellWork result ≤ w ∧
      s'.heap.copies + handedOver cellCopies result ≤ k := by
  unfold release at hr
  cases hc : s.resolve o with
  | unwound cause t => rw [hc] at hr; cases hr
  | halted halt t => rw [hc] at hr; cases hr
  | returned c t =>
    have ht : t.heap.Within w k := by
      have := resolve_within (o := o) h
      rwa [hc] at this
    rw [hc, Outcome.andThen_returned] at hr
    cases hl : t.lock c with
    | unwound cause u => rw [hl] at hr; cases hr
    | halted halt u => rw [hl] at hr; cases hr
    | returned cell u =>
      have hu : u.heap.Within w k := by
        have := lock_within (c := c) ht
        rwa [hl] at this
      have hcell := cell?_of_lock hl
      rw [hl, Outcome.andThen_returned] at hr
      have hset := setCount_within (c := c) (cell.count - 1) hu
      split at hr
      · unfold report at hr
        split at hr
        · cases hr
        · cases hr
        · split at hr <;> cases hr
      · simp only at hr
        split at hr
        · cases hr
          have hload := Heap.takeFinalizer_load (h := u.heap.setCount c (cell.count - 1)) (c := c)
          rw [Heap.setCount, Heap.cell?_updateCell_self, hcell] at hload
          exact ⟨Nat.le_trans (Nat.le_of_eq hload.1) hset.work_le,
            Nat.le_trans (Nat.le_of_eq hload.2) hset.copies_le⟩
        · cases hr
          have := unlock_within (s := u.onHeap (·.setCount c (cell.count - 1))) (c := c) hset
          exact ⟨this.work_le, this.copies_le⟩

theorem release_within (h : s.heap.Within w k) : (s.release o).Within w k := by
  refine (resolve_within h).andThen fun c s h => (lock_within h).andThen fun cell s h => ?_
  have hset := setCount_within (c := c) (cell.count - 1) h
  split
  · exact report_within _ (unlock_within h)
  · simp only
    split
    · have hload := Heap.takeFinalizer_load (h := s.heap.setCount c (cell.count - 1)) (c := c)
      exact ⟨Nat.le_trans (Nat.le_of_add_right_le (Nat.le_of_eq hload.1)) hset.work_le,
        Nat.le_trans (Nat.le_of_add_right_le (Nat.le_of_eq hload.2)) hset.copies_le⟩
    · exact unlock_within (s := s.onHeap (·.setCount c (cell.count - 1))) hset

theorem retainEach_within (os : List ObjectId) (h : s.heap.Within w k) :
    (s.retainEach os).2.Within w k ∧ (s.retainEach os).1.length ≤ os.length := by
  induction os generalizing s with
  | nil => exact ⟨h, Nat.le_refl _⟩
  | cons o rest ih =>
    have hret := retain_within (o := o) h
    unfold retainEach
    cases hr : s.retain o with
    | returned u s' =>
      rw [hr] at hret
      exact ⟨(ih hret).1, Nat.succ_le_succ (ih hret).2⟩
    | unwound cause s' =>
      rw [hr] at hret
      exact ⟨hret, Nat.zero_le _⟩
    | halted halt s' =>
      rw [hr] at hret
      exact ⟨hret, Nat.zero_le _⟩

/-! ### Creation -/

theorem requestRegion_within (provider : Option AllocatorId) (layout : Layout)
    (h : s.heap.Within w k) : (s.requestRegion provider layout).Within w k := by
  refine given_within h fun q _ => ?_
  simp only
  split <;> exact h

theorem allocate_within (provider : Option AllocatorId) (size : UInt64) (contents : Contents)
    (finalizer : Option Finalizer) (h : s.heap.Within w k) :
    (s.allocate provider size contents finalizer).Within
      (w + cellWork (some {finalizer}) + contents.children.length * handleWork)
      (k + cellCopies (some {finalizer})) := by
  unfold allocate
  split
  · have hrep : (s.report (.layoutOverflow size) : Outcome ObjectId).Within w k :=
      report_within _ h
    have hle : (s.report (.layoutOverflow size) : Outcome ObjectId).Within
        (w + cellWork (some {finalizer}) + contents.children.length * handleWork)
        (k + cellCopies (some {finalizer})) := hrep.mono (by omega) (by omega)
    revert hle
    cases (s.report (.layoutOverflow size) : Outcome ObjectId) with
    | returned a t => exact id
    | unwound cause t =>
      intro hle
      show (t.discard finalizer).heap.Within _ _
      rw [discard_heap]
      exact hle
    | halted halt t => exact id
  · next layout _ =>
    cases hreq : s.requestRegion provider layout with
    | unwound cause t =>
      have := requestRegion_within provider layout h
      rw [hreq] at this
      exact Heap.Within.mono this (by omega) (by omega)
    | halted halt t =>
      have := requestRegion_within provider layout h
      rw [hreq] at this
      exact Heap.Within.mono this (by omega) (by omega)
    | returned granted t =>
      have ht : t.heap.Within w k := by
        have := requestRegion_within provider layout h
        rwa [hreq] at this
      rw [Outcome.andThen_returned]
      split
      · have hload := Heap.addObject_load (h := t.heap) size contents finalizer
        have := ht.work_le
        have := ht.copies_le
        exact ⟨Nat.le_trans (Nat.le_of_eq hload.1) (by omega),
          Nat.le_trans (Nat.le_of_eq hload.2) (by omega)⟩
      · exact Heap.Within.mono ht (by omega) (by omega)

/-- A held value brings the load of its handles; dropping it is no routine. -/
theorem hold_within (v : Value) (h : s.heap.Within w k) :
    (s.hold v).Within (w + v.children.length * handleWork) k := by
  have hfinalizer (g : Option (Routine Step) → Nat) (hg : g none = 0) :
      Heap.load g (some {finalizer := if v.kind.owning then some .dropValue else none}) = 0 := by
    split <;> exact hg
  have halloc := allocate_within s.allocators.installed v.kind.size (.value v)
    (if v.kind.owning then some .dropValue else none) h
  have hw : cellWork (some {finalizer := if v.kind.owning then some .dropValue else none}) = 0 :=
    hfinalizer _ rfl
  have hk : cellCopies (some {finalizer := if v.kind.owning then some .dropValue else none}) = 0 :=
    hfinalizer _ rfl
  rw [hw, hk] at halloc
  exact halloc.andThen fun o s hs => (retain_within hs).map _

/-! ### Actions -/

theorem setContents_within (contents : Contents) {object : Object}
    (ho : s.heap.object? o = some object) (extra : Nat)
    (hle : contents.children.length ≤ object.contents.children.length + extra)
    (h : s.heap.Within w k) :
    (s.heap.setContents o contents).Within (w + extra * handleWork) k := by
  have hload := Heap.updateObject_load (h := s.heap) (o := o) fun object =>
    {object with contents}
  rw [ho] at hload
  have hwork : (s.heap.setContents o contents).work + object.work =
    s.heap.work + contents.children.length * handleWork := hload.1
  have hmul := Nat.mul_le_mul_right handleWork hle
  have := h.work_le
  rw [Nat.add_mul] at hmul
  unfold Object.work at hwork
  exact ⟨by omega, hload.2 ▸ h.copies_le⟩

theorem children_write (contents : Contents) (start : Nat) (bytes : List UInt8) :
    (contents.write start bytes).children = contents.children := by
  cases contents with
  | bytes b => rfl
  | remains => rfl
  | value v => cases v <;> rfl

theorem withObject_within {name : String} {next : ObjectId → Outcome β} (h : s.heap.Within w k)
    (hnext : ∀ o, (next o).Within w k) : (s.withObject name next).Within w k :=
  given_within h fun o _ => hnext o

theorem withInstance_within {exportName : String} {name : Option String}
    {next : ObjectId → Outcome β} (h : s.heap.Within w k) (hnext : ∀ o, (next o).Within w k) :
    (s.withInstance exportName name next).Within w k := by
  cases name with
  | none => exact report_within _ h
  | some name => exact withObject_within h hnext

theorem performObject_within (a : ObjectAction) (h : s.heap.Within w k) :
    (s.performObject a).Within w k := by
  cases a with
  | count name via =>
    exact (withInstance_within h fun o => (count_within h).map _).through via
  | isUnique name via =>
    exact (withInstance_within h fun o => (isUnique_within h).map _).through via
  | isDeallocated name => exact withObject_within h fun _ => h
  | hasCell name => exact withObject_within h fun _ => h
  | resolve name => exact withObject_within h fun o => (resolve_within h).map _
  | slotIsNull name => exact withObject_within h fun _ => h
  | clearSlot name =>
    refine withObject_within h fun o => ?_
    have := Heap.setLink_load (h := s.heap) (o := o) none
    exact ⟨this.1 ▸ h.work_le, this.2 ▸ h.copies_le⟩
  | offsets name => exact withObject_within h fun _ => h
  | guard name =>
    exact withObject_within h fun o => given_within h fun c _ => (lock_within h).andThen
      fun cell s h => given_within (unlock_within h) fun _ _ => unlock_within h
  | forceCount name count =>
    exact withObject_within h fun o => given_within h fun c _ => setCount_within count h
  | write name start bytes =>
    refine withObject_within h fun o => given_within h fun object ho => ?_
    have := setContents_within (object.contents.write start bytes) ho 0
      (by rw [children_write]; exact Nat.le_refl _) h
    rwa [Nat.zero_mul] at this
  | read name start length => exact withObject_within h fun o => given_within h fun _ _ => h
  | guardCell name =>
    exact given_within h fun c _ => (lock_within h).andThen fun _ _ h => unlock_within h
  | freeCell name => exact given_within h fun c _ => freeCell_within h
  | statistics => exact h
  | faultCount => exact h

theorem performLog_heap (a : LogAction) : (s.performLog a).2.heap = s.heap := by
  cases a <;> rfl

theorem say_heap (warnings : List ConfigurationError) :
    (warnings.foldl (fun s warning => s.say .warn warning.message) s).heap = s.heap := by
  induction warnings generalizing s with
  | nil => rfl
  | cons warning rest ih => exact ih

theorem configure_heap (c : Configuration) : (s.configure c).2.heap = s.heap := by
  unfold configure
  split <;> rfl

theorem readEnvironment_heap : s.readEnvironment.2.heap = s.heap :=
  say_heap _

theorem configureFromEnvironment_heap : s.configureFromEnvironment.2.heap = s.heap := by
  unfold configureFromEnvironment
  simp only
  split
  · rw [configure_heap, readEnvironment_heap]
  · simp only [configure_heap]
    exact readEnvironment_heap

theorem withAllocator_within {name : String} {next : AllocatorId → Quota → Outcome β}
    (h : s.heap.Within w k) (hnext : ∀ i q, (next i q).Within w k) :
    (s.withAllocator name next).Within w k :=
  given_within h fun i _ => given_within h fun q _ => hnext i q

theorem performSetting_within (a : SettingAction) (h : s.heap.Within w k) :
    (s.performSetting a).Within w k := by
  cases a with
  | report fault => exact report_within fault h
  | raiseForeign message => exact (report_within _ h).through .foreign
  | readEnvironment =>
    show s.readEnvironment.2.heap.Within w k
    rw [readEnvironment_heap]
    exact h
  | configure settings =>
    show (s.configure (.ofSettings settings)).2.heap.Within w k
    rw [configure_heap]
    exact h
  | configureFromEnvironment via =>
    show s.configureFromEnvironment.2.heap.Within w k
    rw [configureFromEnvironment_heap]
    exact h
  | setAllocatorLimit name limit => exact withAllocator_within h fun _ _ => h
  | allocatorQuota name => exact withAllocator_within h fun _ _ => h
  | installAllocator name =>
    refine withAllocator_within h fun i _ => ?_
    split <;> exact h
  | _ => exact h

theorem withHandle_within {name : String} {next : ObjectId → Outcome β} (h : s.heap.Within w k)
    (hnext : ∀ o, (next o).Within w k) : (s.withHandle name next).Within w k :=
  given_within h fun o _ => hnext o

theorem takeHandles_eq_some {names : List String} {os : List ObjectId} {s' : State}
    (h : s.takeHandles names = some (os, s')) : os.length = names.length ∧ s'.heap = s.heap := by
  induction names generalizing s os s' with
  | nil => cases h; exact ⟨rfl, rfl⟩
  | cons name rest ih =>
    obtain ⟨o, _, hmap⟩ := Option.bind_eq_some_iff.1 h
    obtain ⟨⟨os', t⟩, hrest, heq⟩ := Option.map_eq_some_iff.1 hmap
    cases heq
    have := ih hrest
    exact ⟨congrArg (· + 1) this.1, this.2⟩

theorem children_value? {kind : Kind} {children : List ObjectId} {literal : Literal} {v : Value}
    (h : literal.value? kind children = some v) : v.children.length ≤ children.length := by
  cases kind with
  | unit => cases h; exact Nat.zero_le _
  | node => obtain ⟨_, _, rfl⟩ := Option.map_eq_some_iff.1 h; exact Nat.le_refl _
  | word => obtain ⟨_, _, rfl⟩ := Option.map_eq_some_iff.1 h; exact Nat.zero_le _
  | double => obtain ⟨_, _, rfl⟩ := Option.map_eq_some_iff.1 h; exact Nat.zero_le _
  | text => obtain ⟨_, _, rfl⟩ := Option.map_eq_some_iff.1 h; exact Nat.zero_le _
  | integers => obtain ⟨_, _, rfl⟩ := Option.map_eq_some_iff.1 h; exact Nat.zero_le _

theorem children_updated? {v v' : Value} {literal : Literal} (h : v.updated? literal = some v') :
    v'.children = v.children := by
  cases v with
  | unit => cases h; rfl
  | node _ children => obtain ⟨_, _, rfl⟩ := Option.map_eq_some_iff.1 h; rfl
  | word _ => obtain ⟨_, _, rfl⟩ := Option.map_eq_some_iff.1 h; rfl
  | double _ => obtain ⟨_, _, rfl⟩ := Option.map_eq_some_iff.1 h; rfl
  | text _ => obtain ⟨_, _, rfl⟩ := Option.map_eq_some_iff.1 h; rfl
  | integers _ => obtain ⟨_, _, rfl⟩ := Option.map_eq_some_iff.1 h; rfl

/-- A value that is found in an object brings the children that the object holds. -/
theorem children_toValue? {contents : Contents} {v : Value} (h : contents.toValue? = some v) :
    contents.children = v.children := by
  cases contents with
  | bytes b => cases h; rfl
  | value v' => cases h; rfl
  | remains => cases h

theorem assign_within {literal : Literal} {s' : State} (h : s.heap.Within w k)
    (ha : s.assign o literal = some s') : s'.heap.Within w k := by
  obtain ⟨v, hv, hmap⟩ := Option.bind_eq_some_iff.1 ha
  obtain ⟨v', hv', rfl⟩ := Option.map_eq_some_iff.1 hmap
  obtain ⟨object, ho, hc⟩ := Option.bind_eq_some_iff.1 hv
  have := setContents_within (.value v') ho 0
    (Nat.le_of_eq (by rw [children_toValue? hc, ← children_updated? hv']; rfl)) h
  rwa [Nat.zero_mul] at this

theorem pushChild_within (child : String) (h : s.heap.Within w k) :
    (s.pushChild o child).Within (w + handleWork) k := by
  have hle : s.heap.Within (w + handleWork) k := h.mono (Nat.le_add_right _ _) (Nat.le_refl _)
  unfold pushChild
  cases hu : s.isUnique o with
  | unwound cause t =>
    have := isUnique_within (o := o) hle
    rwa [hu] at this
  | halted halt t =>
    have := isUnique_within (o := o) hle
    rwa [hu] at this
  | returned unique t =>
    have ht : t.heap.Within w k := by
      have := isUnique_within (o := o) h
      rwa [hu] at this
    have htle : t.heap.Within (w + handleWork) k :=
      ht.mono (Nat.le_add_right _ _) (Nat.le_refl _)
    rw [Outcome.andThen_returned]
    split
    · refine withHandle_within htle fun c => ?_
      split
      · next label children hv =>
        obtain ⟨object, ho, hc⟩ := Option.bind_eq_some_iff.1 hv
        have := setContents_within (.value (.node label (children ++ [c]))) ho 1
          (by rw [children_toValue? hc]; simp [Contents.children, Value.children]) ht
        rwa [Nat.one_mul] at this
      · exact htle
    · exact htle

theorem performHandle_within (a : HandleAction) (h : s.heap.Within w k) :
    (s.performHandle a).Within (w + (a.work - 1)) k := by
  cases a with
  | create handle kind literal =>
    have hle : s.heap.Within (w + literal.childNames.length * handleWork) k :=
      h.mono (Nat.le_add_right _ _) (Nat.le_refl _)
    have hcreate : (s.createHandle handle kind literal).Within
        (w + literal.childNames.length * handleWork) k := by
      refine given_within hle fun (os, t) ht => ?_
      obtain ⟨hlen, hheap⟩ := takeHandles_eq_some ht
      refine given_within (hheap ▸ hle) fun v hv => ?_
      have hhold := hold_within v (hheap ▸ h : t.heap.Within w k)
      have hchildren := Nat.mul_le_mul_right handleWork (hlen ▸ children_value? hv)
      exact (hhold.mono (Nat.add_le_add_left hchildren w) (Nat.le_refl _)).andThen
        fun _ _ hs => hs
    have hwork : (HandleAction.create handle kind literal).work - 1 =
        literal.childNames.length * handleWork := Nat.add_sub_cancel_left ..
    rw [hwork]
    exact hcreate
  | push handle child =>
    have hle : s.heap.Within (w + handleWork) k := h.mono (Nat.le_add_right _ _) (Nat.le_refl _)
    have hpush : (s.withHandle handle fun o => s.pushChild o child).Within (w + handleWork) k :=
      withHandle_within hle fun o => pushChild_within child h
    exact hpush
  | clone handle copy =>
    exact withHandle_within h fun o => (retain_within h).andThen fun _ _ hs => hs
  | get handle =>
    exact withHandle_within h fun o => given_within h fun v _ => given_within h fun _ _ => h
  | count handle => exact withHandle_within h fun o => (count_within h).map _
  | isUnique handle => exact withHandle_within h fun o => (isUnique_within h).map _
  | set handle literal =>
    refine withHandle_within h fun o => (isUnique_within h).andThen fun unique t ht => ?_
    split
    · exact given_within ht fun _ ha => assign_within ht ha
    · exact ht
  | equal handle other =>
    exact withHandle_within h fun a => withHandle_within h fun b => given_within h fun _ _ =>
      given_within h fun _ _ => h
  | sameObject handle other =>
    exact withHandle_within h fun a => withHandle_within h fun b => h
  | write handle form =>
    exact withHandle_within h fun o => given_within h fun _ _ => given_within h fun _ _ => h
  | intoObject handle name => exact withHandle_within h fun o => h
  | asObject handle name => exact withHandle_within h fun o => h
  | fromObject name handle => exact given_within h fun o _ => h

end State

end Custody
