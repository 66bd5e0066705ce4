import Custody.Proofs.Books
import Custody.Proofs.Provenance

/-! What statistics must say of a heap.

A heap that nobody has put together by hand tells all that was counted while it came to be:
the objects there are, those that are gone, their sizes, and the references that are held. Only
how often references were given back leaves no trace in it. So statistics are right if they
are the heap's account for some number of releases (`Heap.account`), and every operation that
goes through changes the two alike (`State.Balanced`). One that fails changes neither. -/
namespace Custody

/-! ### Sums over lists -/

theorem total_congr {f g : α → Nat} {l : List α} (h : ∀ x ∈ l, f x = g x) :
    total f l = total g l := by
  induction l with
  | nil => rfl
  | cons x rest ih =>
    obtain ⟨hx, hrest⟩ := List.forall_mem_cons.1 h
    rw [total_cons, total_cons, hx, ih hrest]

/-- One term changes. -/
theorem total_range_change {f g : Nat → Nat} {i n : Nat} (hi : i < n) (h : ∀ j, j ≠ i → g j = f j) :
    total g (List.range n) + f i = total f (List.range n) + g i := by
  induction n with
  | zero => cases hi
  | succ n ih =>
    simp only [List.range_succ, total_append, total_cons, total_nil, Nat.add_zero]
    rcases Nat.lt_succ_iff_lt_or_eq.1 hi with hlt | rfl
    · have := ih hlt
      have := h n (Nat.ne_of_gt hlt)
      omega
    · have : total g (List.range i) = total f (List.range i) :=
        total_congr fun j hj => h j (Nat.ne_of_lt (List.mem_range.1 hj))
      omega

theorem total_modify_same {g : α → Nat} {f : α → α} (l : List α) (i : Nat) (hf : ∀ x, g (f x) = g x) :
    total g (l.modify i f) = total g l := by
  have h := total_modify g f l i
  simp only [hf] at h
  exact Nat.add_right_cancel h

namespace Heap

variable {h h' : Heap} {o : ObjectId} {c : CellId} {cell : Cell}

/-! ### Heaps -/

/-- The references held to all objects together; one that is gone has none. -/
def references (h : Heap) : Nat :=
  total h.countOf (List.range h.objects.length)

/-- How many objects have not been deallocated, with those that are being torn down. -/
def linked (h : Heap) : Nat :=
  h.objects.countP (·.link.isSome)

/-- The requested sizes of all objects. -/
def bytes (h : Heap) : Nat :=
  total (fun object => object.size.toNat) h.objects

/-- The statistics of a heap, if so many references to its objects were given back. -/
def account (h : Heap) (released : Nat) : Statistics where
  allocations := .ofNat h.objects.length
  deallocations := .ofNat (goneCount h.objects)
  payloadBytes := .ofNat h.bytes
  retains := .ofNat (released + h.references)
  releases := .ofNat released

theorem linked_add_goneCount (h : Heap) : h.linked + goneCount h.objects = h.objects.length := by
  unfold linked goneCount
  generalize h.objects = objects
  induction objects with
  | nil => rfl
  | cons object rest ih =>
    cases hlink : object.link <;> simp [hlink] <;> omega

theorem countOf_congr (hgoverning : h'.governing? o = h.governing? o) :
    h'.countOf o = h.countOf o := by
  rw [countOf, hgoverning, countOf]

theorem references_congr (hlength : h'.objects.length = h.objects.length)
    (hgoverning : ∀ o, h'.governing? o = h.governing? o) : h'.references = h.references := by
  unfold references
  rw [hlength]
  exact total_congr fun o _ => countOf_congr (hgoverning o)

/-- The count of one object changes. -/
theorem references_change (hlength : h'.objects.length = h.objects.length)
    (ho : o < h.objects.length) (hgoverning : ∀ p, p ≠ o → h'.governing? p = h.governing? p) :
    h'.references + h.countOf o = h.references + h'.countOf o := by
  unfold references
  rw [hlength]
  exact total_range_change ho fun p hp => countOf_congr (hgoverning p hp)

theorem lt_length_of_link? (hl : h.link? o = some c) : o < h.objects.length := by
  rcases Nat.lt_or_ge o h.objects.length with hlt | hge
  · exact hlt
  · rw [link?_of_length_le hge] at hl
    cases hl

/-! ### Changes to cells -/

theorem governing?_updateCell_of_ne (f : Cell → Cell) (hne : h.link? o ≠ some c) :
    (h.updateCell c f).governing? o = h.governing? o := by
  unfold governing?
  rw [link?_updateCell]
  cases hl : h.link? o with
  | none => rfl
  | some d =>
    have hcd : c ≠ d := fun heq => hne (heq ▸ hl)
    exact cell?_updateCell_of_ne f hcd

/-- A change to the cell of one object. -/
theorem references_updateCell (hopens : h.Opens o c cell)
    (hsingle : ∀ p, h.link? p = some c → p = o) (f : Cell → Cell) :
    (h.updateCell c f).references + cell.count.toNat = h.references + (f cell).count.toNat := by
  have hbefore : h.countOf o = cell.count.toNat := by
    simp [countOf, governing?, hopens.link, hopens.found]
  have hafter : (h.updateCell c f).countOf o = (f cell).count.toNat := by
    simp [countOf, governing?, hopens.link, hopens.found]
  rw [← hbefore, ← hafter]
  exact references_change rfl (lt_length_of_link? hopens.link) fun p hp =>
    governing?_updateCell_of_ne f fun hl => hp (hsingle p hl)

/-- A reference is handed out. -/
theorem account_of_retained (href : h'.references = h.references + 1)
    (hobjects : h'.objects = h.objects) (released : Nat) :
    h'.account released = (h.account released).addRetain := by
  have hretained : UInt64.ofNat (released + h'.references) =
      UInt64.ofNat (released + h.references) + 1 := by
    rw [href, ← Nat.add_assoc]
    exact UInt64.ofNat_add _ _
  simp only [account, bytes, Statistics.addRetain, hobjects, hretained]

/-- A reference is given back. -/
theorem account_of_released (href : h'.references + 1 = h.references)
    (hobjects : h'.objects = h.objects) (released : Nat) :
    h'.account (released + 1) = (h.account released).addRelease := by
  have hsum : released + 1 + h'.references = released + h.references := by omega
  have hreleased : UInt64.ofNat (released + 1) = UInt64.ofNat released + 1 := UInt64.ofNat_add _ _
  simp only [account, bytes, Statistics.addRelease, hobjects, hsum, hreleased]

/-- A cell that governs nothing is freed. -/
theorem references_freeCell (hfree : ∀ o, h.link? o ≠ some c) :
    (h.freeCell c).references = h.references := by
  refine references_congr rfl fun o => ?_
  unfold governing?
  rw [link?_freeCell]
  cases hl : h.link? o with
  | none => rfl
  | some d =>
    have hcd : c ≠ d := fun heq => hfree o (heq ▸ hl)
    exact cell?_freeCell_of_ne hcd

theorem references_addCell (halive : ∀ o d, h.link? o = some d → d < h.cells.length)
    (finalizer : Option Finalizer) : (h.addCell finalizer).2.references = h.references := by
  refine references_congr rfl fun o => ?_
  have hlink : (h.addCell finalizer).2.link? o = h.link? o := rfl
  unfold governing?
  rw [hlink]
  cases hl : h.link? o with
  | none => rfl
  | some d => exact cell?_addCell_of_lt finalizer (halive o d hl)

/-! ### Changes to objects -/

theorem references_addObject (halive : ∀ o d, h.link? o = some d → d < h.cells.length) (size : UInt64)
    (contents : Contents) (finalizer : Option Finalizer) :
    (h.addObject size contents finalizer).2.references = h.references := by
  have hlength : (h.addObject size contents finalizer).2.objects.length = h.objects.length + 1 := by
    simp [addObject, addCell]
  have hself : (h.addObject size contents finalizer).2.countOf h.objects.length = 0 := by
    rw [countOf, governing?_addObject halive, if_pos rfl]
    rfl
  unfold references
  rw [hlength, List.range_succ, total_append, total_cons, total_nil, hself]
  refine total_congr fun o ho => countOf_congr ?_
  rw [governing?_addObject halive, if_neg (Nat.ne_of_lt (List.mem_range.1 ho))]

theorem account_addObject (halive : ∀ o d, h.link? o = some d → d < h.cells.length) (size : UInt64)
    (contents : Contents) (finalizer : Option Finalizer) (released : Nat) :
    (h.addObject size contents finalizer).2.account released =
      (h.account released).addAllocation size := by
  have hobjects : (h.addObject size contents finalizer).2.objects =
      h.objects ++ [⟨size, some h.cells.length, contents⟩] := rfl
  have hbytes : (h.addObject size contents finalizer).2.bytes = h.bytes + size.toNat := by
    simp [bytes, hobjects, total_append]
  unfold account Statistics.addAllocation
  rw [hbytes, references_addObject halive, hobjects, goneCount_append]
  simp [UInt64.ofNat_add]

/-- What an object holds does not matter. -/
theorem account_setContents (contents : Contents) (released : Nat) :
    (h.setContents o contents).account released = h.account released := by
  have hlength : (h.setContents o contents).objects.length = h.objects.length := by
    simp [setContents, updateObject]
  have hgoverning (p : ObjectId) : (h.setContents o contents).governing? p = h.governing? p := by
    unfold governing?
    rw [link?_setContents]
    rfl
  have hgone : goneCount (h.setContents o contents).objects = goneCount h.objects :=
    total_modify_same h.objects o fun (_ : Object) => rfl
  have hbytes : (h.setContents o contents).bytes = h.bytes :=
    total_modify_same h.objects o fun (_ : Object) => rfl
  unfold account
  rw [hlength, hgone, hbytes, references_congr hlength hgoverning]

theorem references_setContents (contents : Contents) :
    (h.setContents o contents).references = h.references := by
  refine references_congr (by simp [setContents, updateObject]) fun p => ?_
  unfold governing?
  rw [link?_setContents]
  rfl

/-- The object of a teardown, whose count is down to zero, goes. -/
theorem references_bury {t : Teardown} (hl : h.link? t.object = some t.cell)
    (hc : h.cell? t.cell = some cell) (hzero : cell.count = 0)
    (hsingle : ∀ p, h.link? p = some t.cell → p = t.object) :
    (h.bury t).references = h.references := by
  have hlength : (h.bury t).objects.length = h.objects.length := by
    simp [bury, setLink, updateObject, freeCell]
  have hbefore : h.countOf t.object = 0 := by
    simp [countOf, governing?, hl, hc, hzero]
  have hafter : (h.bury t).countOf t.object = 0 := by
    simp [countOf, governing?, link?_bury]
  have hother : ∀ p, p ≠ t.object → (h.bury t).governing? p = h.governing? p := by
    intro p hp
    unfold governing?
    rw [link?_bury, if_neg (Ne.symm hp)]
    cases hlp : h.link? p with
    | none => rfl
    | some d =>
      have hd : t.cell ≠ d := fun heq => hp (hsingle p (heq ▸ hlp))
      rw [Option.bind_some, Option.bind_some, cell?_bury, if_neg hd]
  have hchange := references_change hlength (lt_length_of_link? hl) hother
  omega

theorem account_bury {t : Teardown} (hl : h.link? t.object = some t.cell)
    (hc : h.cell? t.cell = some cell) (hzero : cell.count = 0)
    (hsingle : ∀ p, h.link? p = some t.cell → p = t.object) (released : Nat) :
    (h.bury t).account released = (h.account released).addDeallocation := by
  obtain ⟨object, ho, hlink⟩ := Option.bind_eq_some_iff.1 hl
  have hlength : (h.bury t).objects.length = h.objects.length := by
    simp [bury, setLink, updateObject, freeCell]
  have hgone : goneCount (h.bury t).objects = goneCount h.objects + 1 := by
    have hmodify : goneCount (h.bury t).objects + object.link.isNone.toNat =
        goneCount h.objects + 1 := goneCount_modify ho fun object => {object with link := none}
    simpa [hlink] using hmodify
  have hbytes : (h.bury t).bytes = h.bytes :=
    total_modify_same h.objects t.object fun (_ : Object) => rfl
  unfold account Statistics.addDeallocation
  rw [hlength, hgone, hbytes, references_bury hl hc hzero hsingle]
  simp [UInt64.ofNat_add]

end Heap

variable {made : Nat} {ts : List Teardown} {rs : List (Routine Step)} {s t : State} {o : ObjectId}
  {c : CellId}

namespace State

/-- The slots of objects, and the locks, are as the teardowns under way left them. -/
structure Standing (ts : List Teardown) (s : State) : Prop where
  sound : Sound s.view ts
  tied (o : ObjectId) : Tied s.view ts o

/-- No slot is changed by hand. -/
theorem Standing.shifts (h : s.Standing ts)
    (hs : Shifts (fun _ => False) rs s.view t.view) : t.Standing ts := by
  have hkept := hs.kept (P := fun v => Sound v ts ∧ ∀ o, Tied v ts o)
    (fun _ _ _ hshift hv => ⟨hv.1.shift hshift, fun o => (hv.2 o).shift hshift hv.1 id⟩)
    ⟨h.sound, h.tied⟩
  exact ⟨hkept.1, hkept.2⟩

theorem Standing.single (h : s.Standing ts) (hl : s.heap.link? o = some c) (p : ObjectId)
    (hp : s.heap.link? p = some c) : p = o :=
  h.sound.single p o c hp hl

theorem Standing.alive (h : s.Standing ts) (o : ObjectId) (c : CellId)
    (hl : s.heap.link? o = some c) : c < s.heap.cells.length :=
  h.sound.lt_of_link hl

/-- The statistics are the heap's account, after no more than `made` allocations and retains. A
cell that is being torn down counts nothing any more. -/
structure Balanced (made : Nat) (s : State) : Prop where
  accounted : ∃ released, s.statistics = s.heap.account released ∧
    released + s.heap.references ≤ made
  objects : s.heap.objects.length ≤ made
  idle (c : CellId) (cell : Cell) (found : s.heap.cell? c = some cell)
    (locked : cell.locked = true) : cell.count = 0

namespace Balanced

theorem mono (h : s.Balanced made) {more : Nat} (hle : made ≤ more) : s.Balanced more := by
  obtain ⟨released, hstatistics, hbound⟩ := h.accounted
  exact ⟨⟨released, hstatistics, Nat.le_trans hbound hle⟩, Nat.le_trans h.objects hle, h.idle⟩

theorem congr (h : s.Balanced made) (hheap : t.heap = s.heap)
    (hstatistics : t.statistics = s.statistics) : t.Balanced made := by
  obtain ⟨haccounted, hobjects, hidle⟩ := h
  rw [← hheap] at haccounted hobjects hidle
  rw [← hstatistics] at haccounted
  exact ⟨haccounted, hobjects, hidle⟩

/-- The cell of one object changes, and the statistics with it. -/
theorem updateCell (h : s.Balanced made) {made' : Nat} {f : Cell → Cell}
    (hheap : t.heap = s.heap.updateCell c f)
    (haccounted : ∀ released, s.statistics = s.heap.account released →
      released + s.heap.references ≤ made → ∃ released', t.statistics = t.heap.account released' ∧
        released' + t.heap.references ≤ made')
    (hle : made ≤ made')
    (hidle : ∀ cell, s.heap.cell? c = some cell → (f cell).locked = true → (f cell).count = 0) :
    t.Balanced made' := by
  obtain ⟨released, hstatistics, hbound⟩ := h.accounted
  refine ⟨haccounted released hstatistics hbound, ?_, fun d cell hd hlocked => ?_⟩
  · rw [hheap]
    exact Nat.le_trans h.objects hle
  · rw [hheap, Heap.cell?_updateCell] at hd
    split at hd
    · next hcd =>
      obtain ⟨old, hold, rfl⟩ := Option.map_eq_some_iff.1 hd
      exact hidle old (hcd ▸ hold) hlocked
    · exact h.idle d cell hd hlocked

theorem setContents (h : s.Balanced made) (contents : Contents) :
    (s.onHeap (·.setContents o contents)).Balanced made := by
  obtain ⟨released, hstatistics, hbound⟩ := h.accounted
  refine ⟨⟨released, ?_, ?_⟩, ?_, h.idle⟩
  · show s.statistics = (s.heap.setContents o contents).account released
    rw [Heap.account_setContents]
    exact hstatistics
  · show released + (s.heap.setContents o contents).references ≤ made
    rwa [Heap.references_setContents]
  · show (s.heap.setContents o contents).objects.length ≤ made
    simpa [Heap.setContents, Heap.updateObject] using h.objects

theorem report (h : s.Balanced made) (f : Fault) : (s.report f : Outcome α).state.Balanced made := by
  unfold State.report
  split
  · exact h.congr rfl rfl
  · exact h.congr rfl rfl
  · split <;> exact h.congr rfl rfl

theorem discard (h : s.Balanced made) (finalizer : Option Finalizer) :
    (s.discard finalizer).Balanced made := by
  rw [State.discard_eq]
  exact h.congr rfl rfl

theorem given {found : Option α} {next : α → Outcome β} {k : Nat} (h : s.Balanced made)
    (hnext : ∀ a, found = some a → (next a).state.Balanced (made + k)) :
    (s.given found next).state.Balanced (made + k) := by
  cases found with
  | none => exact h.mono (Nat.le_add_right _ _)
  | some a => exact hnext a rfl

theorem andThen {out : Outcome α} {next : α → State → Outcome β} {k : Nat}
    (h : out.state.Balanced made)
    (hnext : ∀ a t, out = .returned a t → t.Balanced made → (next a t).state.Balanced (made + k)) :
    (out.andThen next).state.Balanced (made + k) := by
  cases out with
  | returned a t => exact hnext a t rfl h
  | unwound cause t => exact Balanced.mono (s := t) h (Nat.le_add_right _ _)
  | halted halt t => exact Balanced.mono (s := t) h (Nat.le_add_right _ _)

theorem map {out : Outcome α} (h : out.state.Balanced made) (f : α → β) :
    (out.map f).state.Balanced made := by
  cases out <;> exact h

end Balanced

/-! ### Counting -/

theorem balanced_isUnique (h : s.Balanced made) (o : ObjectId) :
    (s.isUnique o).state.Balanced made := by
  rcases s.heap.access o with hgone | ⟨c, hlink, hclosed⟩ | ⟨c, cell, hopens⟩
  · rw [isUnique, access_of_gone hgone]
    exact h.report _
  · rw [isUnique, access_of_barred hlink hclosed]
    exact h
  · rw [isUnique_of_opens hopens]
    exact h

theorem balanced_count (h : s.Balanced made) (o : ObjectId) : (s.count o).state.Balanced made := by
  rcases s.heap.access o with hgone | ⟨c, hlink, hclosed⟩ | ⟨c, cell, hopens⟩
  · rw [count, access_of_gone hgone]
    exact h.report _
  · rw [count, access_of_barred hlink hclosed]
    exact h
  · rw [count_of_opens hopens]
    exact h.congr rfl rfl

section Counting

variable (hst : s.Standing ts) (h : s.Balanced made)
include hst h

theorem balanced_retain (o : ObjectId) : (s.retain o).state.Balanced (made + 1) := by
  rcases s.heap.access o with hgone | ⟨c, hlink, hclosed⟩ | ⟨c, cell, hopens⟩
  · rw [retain, access_of_gone hgone]
    exact (h.report _).mono (Nat.le_succ _)
  · rw [retain, access_of_barred hlink hclosed]
    exact h.mono (Nat.le_succ _)
  · rw [retain_of_opens hopens]
    split
    · exact (h.report _).mono (Nat.le_succ _)
    · next hroom =>
      have href : (s.heap.setCount c (cell.count + 1)).references = s.heap.references + 1 := by
        have hchange : (s.heap.setCount c (cell.count + 1)).references + cell.count.toNat =
            s.heap.references + (cell.count + 1).toNat :=
          Heap.references_updateCell hopens (hst.single hopens.link) _
        have := (toNat_add_one hroom).2
        omega
      refine h.updateCell rfl (fun released hstatistics hbound => ⟨released, ?_, ?_⟩)
        (Nat.le_succ _) fun cell' hc hlocked => ?_
      · show s.statistics.addRetain = (s.heap.setCount c (cell.count + 1)).account released
        rw [hstatistics]
        exact (Heap.account_of_retained href rfl released).symm
      · show released + (s.heap.setCount c (cell.count + 1)).references ≤ made + 1
        omega
      · obtain rfl : cell = cell' := Option.some.inj (hopens.found.symm.trans hc)
        exact absurd hlocked (by simp [hopens.unlocked])

/-- What a release does to the books, whether it takes the last reference or not. -/
theorem balanced_released {cell : Cell} (hopens : s.heap.Opens o c cell) (hzero : cell.count ≠ 0)
    {f : Cell → Cell} (hcount : (f cell).count = cell.count - 1)
    (hidle : (f cell).locked = true → (f cell).count = 0) (hheap : t.heap = s.heap.updateCell c f)
    (hstatistics : t.statistics = s.statistics.addRelease) : t.Balanced made := by
  have href : t.heap.references + 1 = s.heap.references := by
    have := Heap.references_updateCell hopens (hst.single hopens.link) f
    have := toNat_sub_one hzero
    rw [hheap]
    rw [hcount] at *
    omega
  refine h.updateCell hheap (fun released haccount hbound => ⟨released + 1, ?_, ?_⟩)
    (Nat.le_refl _) fun cell' hc => ?_
  · rw [hstatistics, haccount, Heap.account_of_released href (by rw [hheap]; rfl)]
  · omega
  · obtain rfl : cell = cell' := Option.some.inj (hopens.found.symm.trans hc)
    exact hidle

theorem balanced_begin {cell : Cell} (hopens : s.heap.Opens o c cell) (hone : cell.count = 1) :
    (s.begin ⟨o, c⟩).Balanced made :=
  balanced_released hst h hopens (by rw [hone]; decide) (f := fun _ => {locked := true})
    (by rw [hone]; rfl) (fun _ => rfl) rfl rfl

theorem balanced_release (hlast : ∀ c cell, s.heap.Opens o c cell → cell.count ≠ 1) :
    (s.release o).state.Balanced made := by
  rcases s.heap.access o with hgone | ⟨c, hlink, hclosed⟩ | ⟨c, cell, hopens⟩
  · rw [release, access_of_gone hgone]
    exact h.report _
  · rw [release, access_of_barred hlink hclosed]
    exact h
  · rw [release_of_opens hopens, if_neg (hlast c cell hopens)]
    split
    · exact h.report _
    · next hzero =>
      refine balanced_released hst h hopens hzero
        (f := fun cell' => {cell' with count := cell.count - 1}) rfl (fun hlocked => ?_) rfl rfl
      exact absurd hlocked (by simp [hopens.unlocked])

theorem balanced_finish {t : Teardown} (hmem : t ∈ ts) : (s.finish t).Balanced made := by
  obtain ⟨cell, hc, hnone⟩ := hst.sound.taken t hmem
  have hlink : s.heap.link? t.object = some t.cell := hst.tied t.object t hmem rfl
  have hlocked : cell.locked = true := (hst.sound.locked t.cell cell hc).2 ⟨t, hmem, rfl⟩
  have hzero := h.idle t.cell cell hc hlocked
  obtain ⟨released, hstatistics, hbound⟩ := h.accounted
  rw [finish_of_taken hc hnone]
  refine ⟨⟨released, ?_, ?_⟩, ?_, fun d cell' hd => ?_⟩
  · show s.statistics.addDeallocation = (s.heap.bury t).account released
    rw [hstatistics, Heap.account_bury hlink hc hzero (hst.single hlink)]
  · show released + (s.heap.bury t).references ≤ made
    rwa [Heap.references_bury hlink hc hzero (hst.single hlink)]
  · show (s.heap.bury t).objects.length ≤ made
    simpa [Heap.bury, Heap.setLink, Heap.updateObject, Heap.freeCell] using h.objects
  · have hd' : (s.heap.bury t).cell? d = some cell' := hd
    rw [Heap.cell?_bury] at hd'
    split at hd'
    · cases hd'
    · exact h.idle d cell' hd'

omit hst in
/-- A cell that a name stands for, and that governs nothing, is freed. -/
theorem balanced_freeCell (hfree : ∀ o, s.heap.link? o ≠ some c) : (s.freeCell c).Balanced made := by
  obtain ⟨released, hstatistics, hbound⟩ := h.accounted
  have hdiscard := h.discard ((s.heap.cell? c).bind (·.finalizer))
  have hheap : (s.freeCell c).heap = s.heap.freeCell c := by
    simp [freeCell, onHeap, discard_eq]
  have hsame : (s.freeCell c).statistics = s.statistics := by
    simp [freeCell, onHeap, discard_eq]
  refine ⟨⟨released, ?_, ?_⟩, ?_, fun d cell hd => ?_⟩
  · have haccount : (s.heap.freeCell c).account released = s.heap.account released := by
      unfold Heap.account
      rw [Heap.references_freeCell hfree]
      rfl
    rw [hsame, hheap, haccount]
    exact hstatistics
  · rwa [hheap, Heap.references_freeCell hfree]
  · rw [hheap]
    exact h.objects
  · rw [hheap] at hd
    by_cases hcd : c = d
    · rw [← hcd, Heap.cell?_freeCell_self] at hd
      cases hd
    · rw [Heap.cell?_freeCell_of_ne hcd] at hd
      exact h.idle d cell hd

theorem balanced_addCell (finalizer : Option Finalizer) :
    ({s with heap := (s.heap.addCell finalizer).2} : State).Balanced made := by
  obtain ⟨released, hstatistics, hbound⟩ := h.accounted
  have href := Heap.references_addCell hst.alive finalizer
  refine ⟨⟨released, ?_, ?_⟩, h.objects, fun d cell hd => ?_⟩
  · show s.statistics = (s.heap.addCell finalizer).2.account released
    unfold Heap.account
    rw [href]
    exact hstatistics
  · show released + (s.heap.addCell finalizer).2.references ≤ made
    rwa [href]
  · have hd' : (s.view.addCell finalizer).cell? d = some cell := hd
    rw [View.cell?_addCell] at hd'
    split at hd'
    · cases hd'
      exact fun hlocked => absurd hlocked Bool.false_ne_true
    · exact h.idle d cell hd'

/-! ### Creation -/

omit hst in
theorem balanced_requestRegion (provider : Option AllocatorId) (layout : Layout) :
    (s.requestRegion provider layout).state.Balanced made := by
  unfold requestRegion State.given
  split
  · simp only [Outcome.state]
    split <;> exact h.congr rfl rfl
  · exact h

theorem balanced_addObject (size : UInt64) (contents : Contents) (finalizer : Option Finalizer) :
    (({s with heap := (s.heap.addObject size contents finalizer).2} : State).onStatistics
      (·.addAllocation size)).Balanced (made + 1) := by
  obtain ⟨released, hstatistics, hbound⟩ := h.accounted
  refine ⟨⟨released, ?_, ?_⟩, ?_, fun d cell hd => ?_⟩
  · show s.statistics.addAllocation size = (s.heap.addObject size contents finalizer).2.account released
    rw [Heap.account_addObject hst.alive, hstatistics]
  · show released + (s.heap.addObject size contents finalizer).2.references ≤ made + 1
    rw [Heap.references_addObject hst.alive]
    exact Nat.le_succ_of_le hbound
  · show (s.heap.addObject size contents finalizer).2.objects.length ≤ made + 1
    simpa [Heap.addObject, Heap.addCell] using h.objects
  · have hd' : (s.view.addCell finalizer).cell? d = some cell := hd
    rw [View.cell?_addCell] at hd'
    split at hd'
    · cases hd'
      exact fun hlocked => absurd hlocked Bool.false_ne_true
    · exact h.idle d cell hd'

theorem balanced_allocate (provider : Option AllocatorId) (size : UInt64) (contents : Contents)
    (finalizer : Option Finalizer) :
    (s.allocate provider size contents finalizer).state.Balanced (made + 1) := by
  unfold allocate
  split
  · have hreport := h.report (α := ObjectId) (.layoutOverflow size)
    revert hreport
    cases (s.report (.layoutOverflow size) : Outcome ObjectId) with
    | unwound cause t => exact fun ht => (Balanced.discard ht finalizer).mono (Nat.le_succ _)
    | _ => exact fun ht => Balanced.mono ht (Nat.le_succ _)
  · next layout _ =>
    refine (balanced_requestRegion h provider layout).andThen fun granted t ht hbalanced => ?_
    have hview := view_requestRegion (s := s) provider layout
    rw [ht] at hview
    have hst' : t.Standing ts := hst.shifts (.of_eq hview)
    cases granted with
    | true => exact (balanced_addObject hst' hbalanced size contents finalizer).congr rfl rfl
    | false => exact hbalanced.mono (Nat.le_succ _)

theorem balanced_hold (v : Value) : (s.hold v).state.Balanced (made + 1 + 1) := by
  refine (balanced_allocate hst h _ _ _ _).andThen fun o t ht hbalanced => ?_
  have hshifts : Shifts (fun _ => False) _ s.view _ := shifts_allocate s.allocators.installed
    v.kind.size (.value v) (if v.kind.owning then some .dropValue else none)
  rw [ht] at hshifts
  exact (balanced_retain (hst.shifts hshifts) hbalanced o).map _

end Counting

theorem balanced_retainEach (hst : s.Standing ts) (h : s.Balanced made) (os : List ObjectId) :
    (s.retainEach os).2.state.Balanced (made + os.length) := by
  induction os generalizing s made with
  | nil => exact h
  | cons o rest ih =>
    have hretain := balanced_retain hst h o
    have hshifts : Shifts (fun _ => False) [] s.view (s.retain o).state.view := shifts_retain
    unfold retainEach
    cases hr : s.retain o with
    | returned u t =>
      rw [hr] at hretain hshifts
      have := ih (hst.shifts hshifts) hretain
      rwa [Nat.add_assoc, Nat.add_comm 1] at this
    | unwound cause t =>
      rw [hr] at hretain
      exact hretain.mono (Nat.add_le_add_left (Nat.succ_le_succ (Nat.zero_le _)) _)
    | halted halt t =>
      rw [hr] at hretain
      exact hretain.mono (Nat.add_le_add_left (Nat.succ_le_succ (Nat.zero_le _)) _)

/-! ### Actions -/

theorem balanced_guard (h : s.Balanced made) (o : ObjectId) : (s.guard o).state.Balanced made := by
  unfold guard
  refine h.given (k := 0) fun c hl => ?_
  rcases s.heap.access o with hgone | ⟨d, hlink, hclosed⟩ | ⟨d, cell, hopens⟩
  · rw [hl] at hgone
    cases hgone
  · obtain rfl : c = d := Option.some.inj (hl.symm.trans hlink)
    rw [lock_of_closed hclosed]
    exact h
  · obtain rfl : c = d := Option.some.inj (hl.symm.trans hopens.link)
    rw [lock_of_unlocked hopens.found hopens.unlocked, Outcome.andThen_returned,
      unlock_lock hopens.found hopens.unlocked]
    exact h.given (k := 0) fun _ _ => h

theorem balanced_guardCell (h : s.Balanced made) (c : CellId) :
    (s.guardCell c).state.Balanced made := by
  unfold guardCell
  by_cases hopen : ∃ cell, s.heap.cell? c = some cell ∧ cell.locked = false
  · obtain ⟨cell, hc, hunlocked⟩ := hopen
    rw [lock_of_unlocked hc hunlocked, Outcome.andThen_returned, unlock_lock hc hunlocked]
    exact h
  · rw [lock_of_closed fun cell hc => by
      cases hlocked : cell.locked with
      | true => rfl
      | false => exact absurd ⟨cell, hc, hlocked⟩ hopen]
    exact h

theorem balanced_withInstance (h : s.Balanced made) {exportName : String} {name : Option String}
    {next : ObjectId → Outcome β} (hnext : ∀ o, (next o).state.Balanced made) :
    (s.withInstance exportName name next).state.Balanced made := by
  cases name with
  | none => exact h.report _
  | some name => exact h.given (k := 0) fun o _ => hnext o

end State

/-- The allocations and retains that an action on handles makes. -/
def HandleAction.operations : HandleAction → Nat
  | .create _ _ _ => 2
  | .clone _ _ => 1
  | _ => 0

/-- A step that puts an object together by hand, or changes a count or a slot past the operations. -/
def Step.byHand : Step → Bool
  | .assemble _ _ _ | .reinstall _ _ => true
  | .act (.object (.clearSlot _)) | .act (.object (.forceCount _ _)) => true
  | _ => false

namespace State

theorem balanced_performObject (hst : s.Standing ts) (h : s.Balanced made) {action : ObjectAction}
    (hhand : Step.byHand (.act (.object action)) = false) :
    (s.performObject action).state.Balanced made := by
  cases action with
  | count name via =>
    rw [performObject, Outcome.state_through]
    exact balanced_withInstance h fun o => (balanced_count h o).map _
  | isUnique name via =>
    rw [performObject, Outcome.state_through]
    exact balanced_withInstance h fun o => (balanced_isUnique h o).map _
  | resolve name =>
    refine h.given (k := 0) fun o _ => Balanced.map ?_ _
    unfold resolve
    split
    · exact h
    · exact h.report _
  | guard name => exact h.given (k := 0) fun o _ => balanced_guard h o
  | guardCell name => exact h.given (k := 0) fun c _ => balanced_guardCell h c
  | write name start bytes =>
    exact h.given (k := 0) fun o _ => h.given (k := 0) fun object _ => h.setContents _
  | freeCell name =>
    refine h.given (k := 0) fun c hc => ?_
    have hfree (o : ObjectId) : s.heap.link? o ≠ some c := (hst.sound.apart name c hc).2.1 o
    exact (balanced_freeCell h hfree).congr rfl rfl
  | clearSlot name => cases hhand
  | forceCount name count => cases hhand
  | read name start length => exact h.given (k := 0) fun o _ => h.given (k := 0) fun object _ => h
  | statistics => exact h
  | faultCount => exact h
  | isDeallocated name => exact h.given (k := 0) fun o _ => h
  | hasCell name => exact h.given (k := 0) fun o _ => h
  | slotIsNull name => exact h.given (k := 0) fun o _ => h
  | offsets name => exact h.given (k := 0) fun o _ => h

theorem balanced_performLog (h : s.Balanced made) (action : LogAction) :
    (s.performLog action).2.Balanced made := by
  cases action <;> exact h.congr rfl rfl

theorem balanced_readEnvironment (h : s.Balanced made) : s.readEnvironment.2.Balanced made := by
  unfold readEnvironment
  generalize s.environment.warnings = warnings
  induction warnings generalizing s with
  | nil => exact h
  | cons warning rest ih => exact ih (h.congr rfl rfl)

theorem balanced_configure (h : s.Balanced made) (c : Configuration) :
    (s.configure c).2.Balanced made := by
  unfold configure
  split
  · exact h
  · exact h.congr rfl rfl

theorem balanced_performSetting (h : s.Balanced made) (action : SettingAction) :
    (s.performSetting action).state.Balanced made := by
  cases action with
  | report fault => exact h.report _
  | raiseForeign message =>
    rw [performSetting, Outcome.state_through]
    exact h.report _
  | readEnvironment => exact balanced_readEnvironment h
  | configure settings => exact balanced_configure h _
  | configureFromEnvironment via =>
    have hread := balanced_readEnvironment h
    show s.configureFromEnvironment.2.Balanced made
    unfold configureFromEnvironment
    simp only
    split
    · exact balanced_configure hread _
    · next e _ =>
      have hsaid : (s.readEnvironment.2.say .error
          (e.message ++ "; falling back to default configuration")).Balanced made :=
        hread.congr rfl rfl
      exact balanced_configure hsaid {}
  | setAllocatorLimit name limit =>
    exact h.given (k := 0) fun i _ => h.given (k := 0) fun q _ => h.congr rfl rfl
  | allocatorQuota name => exact h.given (k := 0) fun i _ => h.given (k := 0) fun q _ => h
  | installAllocator name =>
    refine h.given (k := 0) fun i _ => h.given (k := 0) fun q _ => ?_
    dsimp only
    split <;> exact h.congr rfl rfl
  | _ => exact h.congr rfl rfl

/-! ### Handles -/

theorem balanced_takeHandles (h : s.Balanced made) {names : List String} {os : List ObjectId}
    (ht : s.takeHandles names = some (os, t)) : t.Balanced made := by
  induction names generalizing s os t with
  | nil =>
    cases ht
    exact h
  | cons name rest ih =>
    obtain ⟨o, _, hmap⟩ := Option.bind_eq_some_iff.1 ht
    obtain ⟨⟨os', t'⟩, hrest, heq⟩ := Option.map_eq_some_iff.1 hmap
    cases heq
    have hforget : (s.forgetHandle name).Balanced made := h.congr rfl rfl
    exact ih hforget hrest

theorem balanced_assign (h : s.Balanced made) {literal : Literal} (ht : s.assign o literal = some t) :
    t.Balanced made := by
  obtain ⟨v, _, hmap⟩ := Option.bind_eq_some_iff.1 ht
  obtain ⟨v', _, rfl⟩ := Option.map_eq_some_iff.1 hmap
  exact h.setContents _

theorem balanced_setHandle (h : s.Balanced made) (o : ObjectId) (literal : Literal) :
    (s.setHandle o literal).state.Balanced made := by
  refine (balanced_isUnique h o).andThen (k := 0) fun unique t _ ht => ?_
  split
  · exact ht.given (k := 0) fun u hu => balanced_assign ht hu
  · exact ht

theorem balanced_pushChild (h : s.Balanced made) (o : ObjectId) (child : String) :
    (s.pushChild o child).state.Balanced made := by
  refine (balanced_isUnique h o).andThen (k := 0) fun unique t _ ht => ?_
  split
  · refine ht.given (k := 0) fun c _ => ?_
    split
    · exact (ht.setContents _).congr rfl rfl
    · exact ht
  · exact ht

theorem balanced_performHandle (hst : s.Standing ts) (h : s.Balanced made) (action : HandleAction) :
    (s.performHandle action).state.Balanced (made + action.operations) := by
  cases action with
  | create handle kind literal =>
    refine h.given fun (os, t) ht => ?_
    have hst' : t.Standing ts := hst.shifts (.of_eq (view_takeHandles ht))
    refine (balanced_takeHandles h ht).given fun v _ => ?_
    exact (balanced_hold hst' (balanced_takeHandles h ht) v).andThen (k := 0)
      fun o u _ hu => hu.congr rfl rfl
  | clone handle copy =>
    exact h.given fun o _ => (balanced_retain hst h o).andThen (k := 0)
      fun _ u _ hu => hu.congr rfl rfl
  | count handle => exact h.given (k := 0) fun o _ => (balanced_count h o).map _
  | isUnique handle => exact h.given (k := 0) fun o _ => (balanced_isUnique h o).map _
  | set handle literal => exact h.given (k := 0) fun o _ => balanced_setHandle h o literal
  | push handle child => exact h.given (k := 0) fun o _ => balanced_pushChild h o child
  | get handle =>
    exact h.given (k := 0) fun o _ => h.given (k := 0) fun v _ => h.given (k := 0) fun answer _ => h
  | equal handle other =>
    exact h.given (k := 0) fun a _ => h.given (k := 0) fun b _ => h.given (k := 0) fun x _ =>
      h.given (k := 0) fun y _ => h
  | sameObject handle other => exact h.given (k := 0) fun a _ => h.given (k := 0) fun b _ => h
  | write handle form =>
    exact h.given (k := 0) fun o _ => h.given (k := 0) fun image _ => h.given (k := 0) fun text _ => h
  | intoObject handle name => exact h.given (k := 0) fun o _ => h.congr rfl rfl
  | asObject handle name => exact h.given (k := 0) fun o _ => h.congr rfl rfl
  | fromObject name handle => exact h.given (k := 0) fun o _ => h.congr rfl rfl

end State

/-! ### Operations that fail -/

/-- An operation that does not come back has not touched the statistics. -/
def Outcome.Uncounted (out : Outcome α) (s : State) : Prop :=
  match out with
  | .returned _ _ => True
  | .unwound _ t | .halted _ t => t.statistics = s.statistics

namespace Outcome.Uncounted

theorem same {out : Outcome α} (h : out.state.statistics = s.statistics) : out.Uncounted s := by
  cases out with
  | returned a t => trivial
  | unwound cause t => exact h
  | halted halt t => exact h

theorem report (f : Fault) : (s.report f : Outcome α).Uncounted s := by
  unfold State.report
  split
  · exact rfl
  · exact rfl
  · split <;> exact rfl

/-- What comes after an operation either comes back or leaves alone what was there before both. -/
theorem andThen {out : Outcome α} {next : α → State → Outcome β} (h : out.Uncounted s)
    (hnext : ∀ a t, out = .returned a t → (next a t).Uncounted s) :
    (out.andThen next).Uncounted s := by
  cases out with
  | returned a t => exact hnext a t rfl
  | unwound cause t => exact h
  | halted halt t => exact h

end Outcome.Uncounted

namespace State

open Outcome

/-- What the operations on a count share. -/
theorem uncounted_access {next : CellId → Cell → State → Outcome β} (s : State) (o : ObjectId)
    (hnext : ∀ c cell, s.heap.Opens o c cell →
      (next c {cell with locked := true} (s.onHeap (·.setLocked c true))).Uncounted s) :
    ((s.resolve o).andThen fun c s => (s.lock c).andThen fun cell s => next c cell s).Uncounted s := by
  rcases s.heap.access o with hgone | ⟨c, hlink, hclosed⟩ | ⟨c, cell, hopens⟩
  · rw [access_of_gone hgone]
    exact .report _
  · rw [access_of_barred hlink hclosed]
    exact .same rfl
  · rw [access_of_opens hopens]
    exact hnext c cell hopens

theorem uncounted_retain (s : State) (o : ObjectId) : (s.retain o).Uncounted s := by
  refine uncounted_access s o fun c cell hopens => ?_
  split
  · rw [unlock_lock hopens.found hopens.unlocked]
    exact .report _
  · exact trivial

theorem uncounted_release (s : State) (o : ObjectId) : (s.release o).Uncounted s := by
  refine uncounted_access s o fun c cell hopens => ?_
  split
  · rw [unlock_lock hopens.found hopens.unlocked]
    exact .report _
  · simp only
    split <;> exact trivial

theorem uncounted_allocate (s : State) (provider : Option AllocatorId) (size : UInt64)
    (contents : Contents) (finalizer : Option Finalizer) :
    (s.allocate provider size contents finalizer).Uncounted s := by
  unfold allocate
  split
  · have hreport := Uncounted.report (s := s) (α := ObjectId) (.layoutOverflow size)
    revert hreport
    cases (s.report (.layoutOverflow size) : Outcome ObjectId) with
    | unwound cause t =>
      intro hreport
      show (t.discard finalizer).statistics = s.statistics
      rw [discard_eq]
      exact hreport
    | _ => exact id
  · have hrequest (layout : Layout) :
        (s.requestRegion provider layout).state.statistics = s.statistics := by
      unfold requestRegion State.given
      split
      · simp only [Outcome.state]
        split <;> rfl
      · rfl
    refine (Uncounted.same (hrequest _)).andThen fun granted t ht => ?_
    have hsame := hrequest ‹_›
    rw [ht] at hsame
    split
    · exact trivial
    · exact .same hsame

end State
end Custody
