import Custody.Proofs.Owners

/-! Operations on objects that keep to their owners.

While every cell counts its object's owners, no operation on handles fails: a count that is
raised has room, and one that is lowered is not zero. What each operation leaves is said by
the objects, the handles and the allocations (`State.Becomes`); the cells follow from the
owners (`Heap.Keeps`). -/
namespace Custody

variable {s t u : State} {o p : ObjectId} {ts : List ObjectId} {owners owners' : ObjectId → Nat}

/-- What a state comes to beside its cells, if no fault is reported and nothing is deallocated. -/
structure State.Becomes (s t : State) (objects : List Object) (handles : Bindings ObjectId)
    (allocated : UInt64) : Prop where
  objects : t.heap.objects = objects
  handles : t.names.handles = handles
  faults : t.faults = s.faults
  allocations : t.statistics.allocations = s.statistics.allocations + allocated
  deallocations : t.statistics.deallocations = s.statistics.deallocations

/-- Nothing but cells and what is told has changed. -/
abbrev State.Stays (s t : State) : Prop :=
  s.Becomes t s.heap.objects s.names.handles 0

namespace State

theorem Stays.refl (s : State) : s.Stays s :=
  ⟨rfl, rfl, rfl, (UInt64.add_zero _).symm, rfl⟩

/-- What comes before allocates nothing. -/
theorem Becomes.after {objects earlier : List Object} {handles old : Bindings ObjectId}
    {allocated : UInt64} (h : t.Becomes u objects handles allocated)
    (hs : s.Becomes t earlier old 0) :
    s.Becomes u objects handles allocated where
  objects := h.objects
  handles := h.handles
  faults := h.faults.trans hs.faults
  allocations := by
    rw [h.allocations, hs.allocations, UInt64.add_zero]
  deallocations := h.deallocations.trans hs.deallocations

/-- A handle is given to an object afterwards. -/
theorem Becomes.nameHandle {objects : List Object} {handles : Bindings ObjectId}
    {allocated : UInt64} (h : s.Becomes t objects handles allocated) (name : String)
    (o : ObjectId) : s.Becomes (t.nameHandle name o) objects (handles.bind name o) allocated :=
  {h with handles := congrArg (·.bind name o) h.handles}

/-- Where a state comes to, owners are told from the handles and the objects. -/
theorem Becomes.owners_eq {objects : List Object} {handles : Bindings ObjectId}
    {allocated : UInt64} (h : s.Becomes t objects handles allocated) (lent : List ObjectId)
    (p : ObjectId) : t.owners lent p = handles.uses p + t.heap.holds p + lent.count p := by
  rw [owners, h.handles]

end State

namespace Heap

variable {h : Heap}

/-- An object with owners can be locked, and its count is their number. -/
theorem Keeps.opens (hk : h.Keeps ts owners) (ho : 0 < owners o) :
    ∃ cell, h.Opens o o cell ∧ cell.count.toNat = owners o := by
  obtain ⟨size, v, count, hobject, hcell, _, hcounted⟩ := hk.live ho
  exact ⟨_, ⟨by simp [link?, hobject], hcell, rfl⟩, hcounted⟩

theorem Keeps.setCount (hk : h.Keeps ts owners) (owners' : ObjectId → Nat) (ho : 0 < owners o)
    {count : UInt32} (hcount : count.toNat = owners' o) (hleft : 0 < owners' o)
    (howners : ∀ p, p ≠ o → owners' p = owners p) : (h.setCount o count).Keeps ts owners' := by
  obtain ⟨size, v, before, hobject, hcell, hidle, _⟩ := hk.live ho
  refine hk.change o ?_ (fun p _ => rfl) (fun p hp => cell?_updateCell_of_ne _ hp.symm)
    (fun p _ => .rfl) howners ?_
  · simpa [Heap.setCount, updateCell] using hk.level
  · refine .live size v count hobject ?_ hidle hcount hleft
    rw [Heap.setCount, cell?_updateCell_self, hcell]
    rfl

/-- A value that goes as the old one would have gone. -/
theorem Keeps.setContents (hk : h.Keeps ts owners) {size : UInt64} {v : Value} (v' : Value)
    (ho : 0 < owners o) (hobject : h.object? o = some ⟨size, some o, .value v⟩)
    (hfinalizer : v'.finalizer = v.finalizer) : (h.setContents o (.value v')).Keeps ts owners := by
  obtain ⟨size', w, count, hobject', hcell, hidle, hcounted⟩ := hk.live ho
  obtain ⟨rfl, rfl⟩ : size = size' ∧ v = w := by
    rw [hobject] at hobject'
    simpa using hobject'
  refine hk.change o ?_ (fun p hp => object?_updateObject_of_ne _ hp.symm) (fun p _ => rfl)
    (fun p _ => .rfl) (fun p _ => rfl) ?_
  · simpa [Heap.setContents, updateObject] using hk.level
  · refine .live size v' count ?_ ?_ hidle hcounted ho
    · rw [Heap.setContents, object?_updateObject_self, hobject]
      rfl
    · rw [hfinalizer]
      exact hcell

theorem Keeps.unborn (hk : h.Keeps ts owners) (ho : h.objects.length ≤ o) :
    owners o = 0 ∧ o ∉ ts := by
  have hnone : h.object? o = none := List.getElem?_eq_none ho
  cases hk.stands o with
  | unborn _ _ idle left => exact ⟨left, idle⟩
  | live _ _ _ object _ _ _ _ => exact absurd (hnone.symm.trans object) nofun
  | going _ _ object _ _ _ _ => exact absurd (hnone.symm.trans object) nofun
  | gone _ _ object _ _ _ _ => exact absurd (hnone.symm.trans object) nofun

/-- A new object that holds a value and has its first owner. -/
theorem Keeps.addObject (hk : h.Keeps ts owners) (v : Value) {count : UInt32}
    (hcount : count.toNat = owners' h.objects.length) (hleft : 0 < owners' h.objects.length)
    (howners : ∀ p, p ≠ h.objects.length → owners' p = owners p) :
    ((h.addObject v.kind.size (.value v) v.finalizer).2.setCount h.cells.length count).Keeps ts
      owners' := by
  have hidle := (hk.unborn (Nat.le_refl _)).2
  have hcells (p : CellId) :
      (h.addObject v.kind.size (.value v) v.finalizer).2.cell? p =
        if p = h.cells.length then some {finalizer := v.finalizer} else h.cell? p := by
    show (h.cells ++ [some {finalizer := v.finalizer}])[p]?.join = _
    rw [getElem?_snoc]
    split <;> rfl
  have hobjects (p : ObjectId) :
      (h.addObject v.kind.size (.value v) v.finalizer).2.object? p =
        if p = h.objects.length then some ⟨v.kind.size, some h.cells.length, .value v⟩
        else h.object? p :=
    getElem?_snoc _ _ _
  refine hk.change h.objects.length ?_ (fun p hp => ?_) (fun p hp => ?_) (fun p _ => .rfl) howners ?_
  · simpa [Heap.setCount, updateCell, Heap.addObject, addCell] using hk.level
  · exact (hobjects p).trans (if_neg hp)
  · rw [← hk.level] at hp
    rw [Heap.setCount, cell?_updateCell_of_ne _ hp.symm, hcells, if_neg hp]
  · refine .live v.kind.size v count ?_ ?_ hidle hcount hleft
    · rw [← hk.level, Heap.setCount, object?_updateCell, hobjects, if_pos hk.level]
    · rw [← hk.level, Heap.setCount, cell?_updateCell_self, hcells, if_pos rfl]
      rfl

end Heap

namespace State

/-! ### Counting -/

section Counting

variable (hk : s.heap.Keeps ts owners) (ho : 0 < owners o)
include hk ho

theorem exists_retain (hroom : owners o < maxCount.toNat) :
    ∃ t, s.retain o = .returned () t ∧ s.Stays t ∧ t.allocators = s.allocators ∧
      t.heap.Keeps ts fun p => owners p + if o = p then 1 else 0 := by
  obtain ⟨cell, hopens, hcount⟩ := hk.opens ho
  have hmax : cell.count ≠ maxCount := by
    intro heq
    rw [heq] at hcount
    omega
  have hnext := (toNat_add_one hmax).2
  rw [retain_of_opens hopens, if_neg hmax]
  refine ⟨_, rfl, ⟨rfl, rfl, rfl, (UInt64.add_zero _).symm, rfl⟩, rfl, ?_⟩
  refine hk.setCount (fun p => owners p + if o = p then 1 else 0) ho ?_ ?_ fun p hp => ?_
  · simp only [if_true]
    omega
  · simp
  · simp [hp.symm]

/-- A release that leaves an owner. -/
theorem exists_release (hmore : owners o ≠ 1) :
    ∃ t, s.release o = .returned none t ∧ s.Stays t ∧
      t.heap.Keeps ts fun p => owners p - if o = p then 1 else 0 := by
  obtain ⟨cell, hopens, hcount⟩ := hk.opens ho
  have hzero : cell.count ≠ 0 := by
    intro heq
    rw [heq] at hcount
    exact absurd hcount.symm (Nat.ne_of_gt ho)
  have hone : cell.count ≠ 1 := by
    intro heq
    rw [heq] at hcount
    exact hmore hcount.symm
  have hnext := toNat_sub_one hzero
  rw [release_of_opens hopens, if_neg hzero, if_neg hone]
  refine ⟨_, rfl, ⟨rfl, rfl, rfl, (UInt64.add_zero _).symm, rfl⟩, ?_⟩
  refine hk.setCount (fun p => owners p - if o = p then 1 else 0) ho ?_ ?_ fun p hp => ?_
  · simp only [if_true]
    omega
  · simp only [if_true]
    omega
  · simp [hp.symm]

/-- Whether the owner is the only one. -/
theorem isUnique_of_keeps : s.isUnique o = .returned (decide (owners o = 1)) s := by
  obtain ⟨cell, hopens, hcount⟩ := hk.opens ho
  have hone : (cell.count == 1) = decide (owners o = 1) := by
    have hiff : cell.count = 1 ↔ cell.count.toNat = 1 := UInt32.toNat_inj.symm
    rw [← hcount, Bool.eq_iff_iff, beq_iff_eq, decide_eq_true_iff, hiff]
  rw [isUnique_of_opens hopens, hone]

theorem exists_count : ∃ n t, s.count o = .returned n t ∧ n.toNat = owners o ∧ t.heap = s.heap ∧
    s.Stays t := by
  obtain ⟨cell, hopens, hcount⟩ := hk.opens ho
  rw [count_of_opens hopens]
  exact ⟨_, _, rfl, hcount, rfl, ⟨rfl, rfl, rfl, (UInt64.add_zero _).symm, rfl⟩⟩

end Counting

/-- How several references are taken: all of them, or those in front of one whose count has no room. -/
inductive Retains (s : State) (ts : List ObjectId) (owners : ObjectId → Nat) (os : List ObjectId) :
    List ObjectId × Outcome Unit → Prop
  | all (t : State) (stays : s.Stays t) (allocators : t.allocators = s.allocators)
      (keeps : t.heap.Keeps ts fun p => owners p + os.count p) :
    Retains s ts owners os (os, .returned () t)
  | some (retained : List ObjectId) (cause : Cause) (t : State)
      (full : ∃ o ∈ os, maxCount.toNat < owners o + os.count o) (sub : ∀ o ∈ retained, o ∈ os)
      (objects : t.heap.objects = s.heap.objects) (handles : t.names.handles = s.names.handles)
      (keeps : t.heap.Keeps ts fun p => owners p + retained.count p) :
    Retains s ts owners os (retained, .unwound cause t)
  | none (retained : List ObjectId) (halt : Halt) (t : State)
      (full : ∃ o ∈ os, maxCount.toNat < owners o + os.count o) :
    Retains s ts owners os (retained, .halted halt t)

theorem report_cases (f : Fault) (s : State) :
    (∃ cause t, (s.report f : Outcome α) = .unwound cause t ∧ t.heap = s.heap ∧
      t.names = s.names) ∨ ∃ halt t, (s.report f : Outcome α) = .halted halt t := by
  unfold report
  split
  · exact .inl ⟨_, _, rfl, rfl, rfl⟩
  · exact .inr ⟨_, _, rfl⟩
  · split
    · exact .inr ⟨_, _, rfl⟩
    · exact .inl ⟨_, _, rfl, rfl, rfl⟩

/-- A count without room is left as it is. -/
theorem retain_full (hk : s.heap.Keeps ts owners) (ho : 0 < owners o)
    (hfull : ¬ owners o < maxCount.toNat) :
    (∃ cause t, s.retain o = .unwound cause t ∧ t.heap = s.heap ∧ t.names = s.names) ∨
      ∃ halt t, s.retain o = .halted halt t := by
  obtain ⟨cell, hopens, hcount⟩ := hk.opens ho
  have hmax : cell.count = maxCount := by
    by_contra hne
    have := (toNat_add_one hne).1
    omega
  rw [retain_of_opens hopens, if_pos hmax]
  exact report_cases _ s

theorem retainEach_cases (hk : s.heap.Keeps ts owners) (os : List ObjectId)
    (hos : ∀ o ∈ os, 0 < owners o) : Retains s ts owners os (s.retainEach os) := by
  induction os generalizing s owners with
  | nil => exact .all s (.refl s) rfl hk
  | cons o rest ih =>
    have hpos := hos o List.mem_cons_self
    have hcount (p : ObjectId) : (o :: rest).count p = rest.count p + if o = p then 1 else 0 := by
      rw [List.count_cons]
      simp only [beq_iff_eq]
    by_cases hroom : owners o < maxCount.toNat
    · obtain ⟨t, hretain, hstays, hallocators, ht⟩ := exists_retain hk hpos hroom
      have hrest := ih ht fun p hp => Nat.lt_of_lt_of_le
        (hos p (List.mem_cons_of_mem _ hp)) (Nat.le_add_right _ _)
      have hfull (h : ∃ p ∈ rest, maxCount.toNat <
          owners p + (if o = p then 1 else 0) + rest.count p) :
          ∃ p ∈ o :: rest, maxCount.toNat < owners p + (o :: rest).count p := by
        obtain ⟨p, hp, hlt⟩ := h
        refine ⟨p, List.mem_cons_of_mem _ hp, ?_⟩
        rw [hcount]
        omega
      rw [retainEach, hretain]
      simp only
      generalize t.retainEach rest = out at hrest
      cases hrest with
      | all u stays allocators keeps =>
        refine .all u ?_ (allocators.trans hallocators) (keeps.congr fun p => ?_)
        · have := stays.after hstays
          rwa [hstays.objects, hstays.handles] at this
        · rw [hcount]
          omega
      | some retained cause u full sub objects handles keeps =>
        refine .some (o :: retained) cause u (hfull full) (fun p hp => ?_)
          (objects.trans hstays.objects) (handles.trans hstays.handles) (keeps.congr fun p => ?_)
        · rcases List.mem_cons.1 hp with rfl | hp
          · exact List.mem_cons_self
          · exact List.mem_cons_of_mem _ (sub p hp)
        · rw [List.count_cons]
          simp only [beq_iff_eq]
          omega
      | none retained halt u full => exact .none _ halt u (hfull full)
    · have hfull : ∃ p ∈ o :: rest, maxCount.toNat < owners p + (o :: rest).count p := by
        refine ⟨o, List.mem_cons_self, ?_⟩
        rw [List.count_cons_self]
        omega
      rw [retainEach]
      rcases retain_full hk hpos hroom with ⟨cause, t, hretain, hheap, hnames⟩ | ⟨halt, t, hretain⟩
      · rw [hretain]
        refine .some [] cause t hfull (fun p hp => absurd hp List.not_mem_nil) (by rw [hheap])
          (by rw [hnames]) ?_
        rw [hheap]
        exact hk
      · rw [hretain]
        exact .none [] halt t hfull

theorem exists_retainEach (hk : s.heap.Keeps ts owners) (os : List ObjectId)
    (hos : ∀ o ∈ os, 0 < owners o ∧ owners o + os.count o ≤ maxCount.toNat) :
    ∃ t, s.retainEach os = (os, .returned () t) ∧ s.Stays t ∧ t.allocators = s.allocators ∧
      t.heap.Keeps ts fun p => owners p + os.count p := by
  have hnot : ¬ ∃ o ∈ os, maxCount.toNat < owners o + os.count o := by
    rintro ⟨o, ho, hlt⟩
    exact absurd hlt (Nat.not_lt.2 (hos o ho).2)
  have hcases := retainEach_cases hk os fun o ho => (hos o ho).1
  generalize hout : s.retainEach os = out at hcases
  cases hcases with
  | all t stays allocators keeps => exact ⟨t, rfl, stays, allocators, keeps⟩
  | some retained cause t full => exact absurd full hnot
  | none retained halt t full => exact absurd full hnot

/-! ### Creation -/

/-- The global allocator grants a region for a value of a kind. -/
def grants (kind : Kind) (s : State) : Bool :=
  match Layout.ofPayload? kind.size with
  | none => false
  | some layout =>
    match s.requestRegion s.allocators.installed layout with
    | .returned granted _ => granted
    | _ => false

theorem grants_congr (h : t.allocators = s.allocators) (kind : Kind) :
    t.grants kind = s.grants kind := by
  unfold grants requestRegion
  rw [h]
  cases Layout.ofPayload? kind.size with
  | none => rfl
  | some layout =>
    cases s.allocators.quota? s.allocators.installed with
    | none => rfl
    | some q => rfl

/-- What is requested shows in the allocator's account alone. -/
theorem requestRegion_stays {provider : Option AllocatorId} {layout : Layout} {granted : Bool}
    (h : s.requestRegion provider layout = .returned granted t) : t.heap = s.heap ∧ s.Stays t := by
  unfold requestRegion given at h
  split at h
  · simp only [Outcome.returned.injEq] at h
    obtain ⟨_, rfl⟩ := h
    split <;> exact ⟨rfl, rfl, rfl, rfl, (UInt64.add_zero _).symm, rfl⟩
  · cases h

theorem exists_hold (hk : s.heap.Keeps ts owners) (v : Value) (h : s.grants v.kind = true) :
    ∃ t, s.hold v = .returned s.heap.objects.length t ∧
      s.Becomes t (s.heap.objects ++ [⟨v.kind.size, some s.heap.objects.length, .value v⟩])
        s.names.handles 1 ∧
      t.heap.Keeps ts fun p => owners p + if s.heap.objects.length = p then 1 else 0 := by
  unfold grants at h
  unfold hold allocate
  cases hlayout : Layout.ofPayload? v.kind.size with
  | none =>
    rw [hlayout] at h
    cases h
  | some layout =>
    rw [hlayout] at h
    simp only at h ⊢
    cases hr : s.requestRegion s.allocators.installed layout with
    | unwound cause t => rw [hr] at h; cases h
    | halted halt t => rw [hr] at h; cases h
    | returned granted t =>
      rw [hr] at h
      obtain rfl : granted = true := h
      obtain ⟨hheap, hstays⟩ := requestRegion_stays hr
      rw [Outcome.andThen_returned]
      simp only [if_true, Outcome.andThen_returned]
      have hroom : (0 : UInt32) ≠ maxCount := by decide
      rw [retain_of_opens (Heap.opens_addObject (h := t.heap) _ _ _), if_neg hroom]
      rw [← hheap] at hk ⊢
      have hnew := (hk.unborn (Nat.le_refl _)).1
      have hbecomes : t.Becomes
          (((({t with heap := (t.heap.addObject v.kind.size (.value v) v.finalizer).2}.onStatistics
            (·.addAllocation v.kind.size)).trace .created t.heap.objects.length 0).onHeap
              (·.setCount t.heap.cells.length 1)).onStatistics (·.addRetain))
          (t.heap.objects ++ [⟨v.kind.size, some t.heap.objects.length, .value v⟩])
          t.names.handles 1 := by
        refine ⟨?_, rfl, rfl, rfl, rfl⟩
        rw [← hk.level]
        rfl
      refine ⟨_, rfl, ?_, ?_⟩
      · have := hbecomes.after hstays
        rw [hstays.handles] at this
        exact {this with objects := this.objects, handles := this.handles}
      · exact hk.addObject v (by simp [hnew]) (by simp) fun p hp => by simp [hp.symm]

end State
end Custody
