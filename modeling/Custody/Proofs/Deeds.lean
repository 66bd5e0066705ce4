import Custody.Proofs.Atomicity

/-! What operations do to counts.

An object is created, a reference to it is handed out or given back, its count is asked for, or
a fault is reported: these are the deeds of a process, and each writes to the log what it has
done. All that operations do to counts they do in deeds, one after the other, and what comes in
between shows in no count, in no slot, and in no line (`State.Does`). So the log is the list of
the deeds' entries (`State.Does.logger`), and the settings stay what they were
(`State.Does.inForce`). -/
namespace Custody

/-- Something that was done to one count, with the count that it led to, or a fault. -/
inductive Deed where
  | create (o : ObjectId)
  | retain (o : ObjectId) (count : UInt32)
  | release (o : ObjectId) (count : UInt32)
  | count (o : ObjectId) (count : UInt32)
  | fault (f : Fault)
  deriving DecidableEq, Repr

/-- What a deed writes to the log. Of a fault that a custom reporter is told of it writes
nothing. -/
def Deed.entries (reporter : Option Reporter) : Deed → List Log.Entry
  | create o => [Transition.created.entry o 0]
  | retain o n => [Transition.retained.entry o n]
  | release o n =>
    Transition.released.entry o n :: if n = 0 then [Transition.deallocating.entry o 0] else []
  | count o n => [Transition.counted.entry o n]
  | fault f => if reporter = none then [f.entry] else []

/-- The retain count of an object that has not been deallocated. -/
def Heap.count? (h : Heap) (o : ObjectId) : Option UInt32 :=
  (h.governing? o).map (·.count)

/-- The settings that a configuration puts into force, and the configuration they come from. -/
structure InForce where
  level : Log.Level
  format : Log.Format
  policy : Policy
  limit : UInt64
  configuration : Option Configuration
  deriving DecidableEq

namespace State

def inForce (s : State) : InForce :=
  ⟨s.logger.level, s.logger.format, s.faults.policy, s.allocators.system.limit, s.configuration⟩

/-- Nothing was done to a count, a slot or a setting, and nothing was written. -/
structure Still (s t : State) : Prop where
  cells : t.heap.cells = s.heap.cells
  size : t.heap.objects.length = s.heap.objects.length
  links : t.heap.link? = s.heap.link?
  logger : t.logger = s.logger
  faults : t.faults = s.faults
  inForce : t.inForce = s.inForce

/-- One state leads to another by a single deed: an operation that succeeds, or a fault. -/
inductive Enacts : State → Deed → State → Prop where
  | create {s t : State} {provider : Option AllocatorId} {size : UInt64} {contents : Contents}
    {finalizer : Option Finalizer} {o : ObjectId}
    (h : s.allocate provider size contents finalizer = .returned o t) : Enacts s (.create o) t
  | retain {s t : State} {o : ObjectId} {n : UInt32} (h : s.retain o = .returned () t)
    (count : t.heap.count? o = some n) : Enacts s (.retain o n) t
  | release {s t : State} {o : ObjectId} {n : UInt32}
    {begun : Option (Teardown × Option Finalizer)} (h : s.release o = .returned begun t)
    (count : t.heap.count? o = some n) : Enacts s (.release o n) t
  | count {s t : State} {o : ObjectId} {n : UInt32} (h : s.count o = .returned n t) :
    Enacts s (.count o n) t
  | fault (f : Fault) (s : State) : Enacts s (.fault f) (s.noted f)

/-- One state leads to another by deeds, in order. -/
inductive Does : State → List Deed → State → Prop where
  | still {s t : State} (h : s.Still t) : Does s [] t
  | deed {s t : State} {d : Deed} (h : s.Enacts d t) : Does s [d] t
  | trans {s t u : State} {ds ds' : List Deed} (first : Does s ds t) (rest : Does t ds' u) :
    Does s (ds ++ ds') u

/-- One state leads to another by some deeds. -/
def Leads (s t : State) : Prop :=
  ∃ ds, s.Does ds t

variable {s t u : State} {o : ObjectId} {c : CellId} {cell : Cell}

/-! ### What changes nothing -/

theorem Still.refl (s : State) : s.Still s :=
  ⟨rfl, rfl, rfl, rfl, rfl, rfl⟩

theorem Still.trans (h : s.Still t) (h' : t.Still u) : s.Still u :=
  ⟨h'.cells.trans h.cells, h'.size.trans h.size, h'.links.trans h.links, h'.logger.trans h.logger,
    h'.faults.trans h.faults, h'.inForce.trans h.inForce⟩

/-- Names and events do not matter, and neither do the accounts of allocators. -/
theorem Still.of_eq (hheap : t.heap = s.heap) (hlogger : t.logger = s.logger)
    (hfaults : t.faults = s.faults) (hinForce : t.inForce = s.inForce) : s.Still t :=
  ⟨congrArg Heap.cells hheap, congrArg (·.objects.length) hheap, congrArg Heap.link? hheap,
    hlogger, hfaults, hinForce⟩

theorem still_observe (event : Event) (s : State) : s.Still (s.observe event) :=
  .of_eq rfl rfl rfl rfl

theorem still_setContents (o : ObjectId) (contents : Contents) (s : State) :
    s.Still (s.onHeap (·.setContents o contents)) where
  cells := rfl
  size := by simp [onHeap, Heap.setContents, Heap.updateObject]
  links := Heap.link?_setContents contents
  logger := rfl
  faults := rfl
  inForce := rfl

theorem still_discard (finalizer : Option Finalizer) (s : State) :
    s.Still (s.discard finalizer) := by
  unfold discard
  split
  · exact still_observe _ s
  · exact .refl s

/-! ### Combining deeds -/

namespace Leads

theorem of_still (h : s.Still t) : s.Leads t :=
  ⟨[], .still h⟩

theorem refl (s : State) : s.Leads s :=
  of_still (.refl s)

theorem trans (h : s.Leads t) (h' : t.Leads u) : s.Leads u := by
  obtain ⟨ds, hds⟩ := h
  obtain ⟨ds', hds'⟩ := h'
  exact ⟨ds ++ ds', hds.trans hds'⟩

theorem andThen {out : Outcome α} {next : α → State → Outcome β} (h : s.Leads out.state)
    (hnext : ∀ a t, out = .returned a t → t.Leads (next a t).state) :
    s.Leads (out.andThen next).state := by
  cases out with
  | returned a t => exact h.trans (hnext a t rfl)
  | unwound cause t => exact h
  | halted halt t => exact h

theorem map {out : Outcome α} (h : s.Leads out.state) (f : α → β) : s.Leads (out.map f).state := by
  cases out <;> exact h

theorem given {found : Option α} {next : α → Outcome β}
    (h : ∀ a, found = some a → s.Leads (next a).state) : s.Leads (s.given found next).state := by
  cases found with
  | none => exact .refl s
  | some a => exact h a rfl

end Leads

/-! ### Counting -/

theorem state_report (f : Fault) (s : State) : (s.report f : Outcome α).state = s.noted f := by
  unfold report noted
  split
  · next hreporter => simp [Outcome.state, hreporter]
  · next hreporter => simp [Outcome.state, hreporter]
  · next hreporter => split <;> simp [Outcome.state, hreporter, log]

theorem leads_report (f : Fault) (s : State) : s.Leads (s.report f : Outcome α).state := by
  rw [state_report]
  exact ⟨_, .deed (.fault f s)⟩

/-- What the operations on a count share. -/
theorem leads_access {next : CellId → Cell → State → Outcome β} (s : State) (o : ObjectId)
    (hnext : ∀ c cell, s.heap.Opens o c cell →
      s.Leads (next c {cell with locked := true} (s.onHeap (·.setLocked c true))).state) :
    s.Leads ((s.resolve o).andThen fun c s =>
      (s.lock c).andThen fun cell s => next c cell s).state := by
  rcases s.heap.access o with hgone | ⟨c, hlink, hclosed⟩ | ⟨c, cell, hopens⟩
  · rw [access_of_gone hgone]
    exact leads_report _ s
  · rw [access_of_barred hlink hclosed]
    exact .refl s
  · rw [access_of_opens hopens]
    exact hnext c cell hopens

/-- The count of an object whose cell was changed. -/
theorem count?_updateCell (h : s.heap.Opens o c cell) (f : Cell → Cell) :
    (s.heap.updateCell c f).count? o = some (f cell).count := by
  simp [Heap.count?, Heap.governing?, h.link, h.found]

theorem leads_retain (s : State) (o : ObjectId) : s.Leads (s.retain o).state := by
  rcases s.heap.access o with hgone | ⟨c, hlink, hclosed⟩ | ⟨c, cell, hopens⟩
  · rw [retain, access_of_gone hgone]
    exact leads_report _ s
  · rw [retain, access_of_barred hlink hclosed]
    exact .refl s
  · rw [retain_of_opens hopens]
    split
    · exact leads_report _ s
    · next hroom =>
      have hretain := retain_of_opens hopens
      rw [if_neg hroom] at hretain
      exact ⟨_, .deed (.retain hretain (count?_updateCell hopens _))⟩

theorem leads_release (s : State) (o : ObjectId) : s.Leads (s.release o).state := by
  rcases s.heap.access o with hgone | ⟨c, hlink, hclosed⟩ | ⟨c, cell, hopens⟩
  · rw [release, access_of_gone hgone]
    exact leads_report _ s
  · rw [release, access_of_barred hlink hclosed]
    exact .refl s
  · have hrelease := release_of_opens hopens
    rw [hrelease]
    split
    · exact leads_report _ s
    · next hzero =>
      rw [if_neg hzero] at hrelease
      split
      · next hone =>
        rw [if_pos hone] at hrelease
        exact ⟨_, .deed (.release hrelease (count?_updateCell hopens _))⟩
      · next hmore =>
        rw [if_neg hmore] at hrelease
        exact ⟨_, .deed (.release hrelease (count?_updateCell hopens _))⟩

theorem leads_isUnique (s : State) (o : ObjectId) : s.Leads (s.isUnique o).state := by
  refine leads_access s o fun c cell hopens => ?_
  rw [unlock_lock hopens.found hopens.unlocked]
  exact .refl s

theorem leads_count (s : State) (o : ObjectId) : s.Leads (s.count o).state := by
  rcases s.heap.access o with hgone | ⟨c, hlink, hclosed⟩ | ⟨c, cell, hopens⟩
  · rw [count, access_of_gone hgone]
    exact leads_report _ s
  · rw [count, access_of_barred hlink hclosed]
    exact .refl s
  · have hcount := count_of_opens hopens
    rw [hcount]
    exact ⟨_, .deed (.count hcount)⟩

theorem leads_retainEach (s : State) (os : List ObjectId) : s.Leads (s.retainEach os).2.state := by
  induction os generalizing s with
  | nil => exact .refl s
  | cons o rest ih =>
    have hretain := leads_retain s o
    unfold retainEach
    cases hr : s.retain o with
    | returned _ t =>
      rw [hr] at hretain
      exact hretain.trans (ih t)
    | unwound cause t =>
      rw [hr] at hretain
      exact hretain
    | halted halt t =>
      rw [hr] at hretain
      exact hretain

/-! ### Creation -/

theorem limit_request (q : Quota) (backed : Bool) (size : UInt64) :
    (q.request backed size).2.limit = q.limit := by
  unfold Quota.request Quota.reserve?
  split
  · rfl
  · next reserved hreserved =>
    split at hreserved
    · cases hreserved
      split <;> rfl
    · cases hreserved

/-- An allocator's account changes, but not its limit. -/
theorem still_setQuota {provider : Option AllocatorId} {q q' : Quota}
    (hq : s.allocators.quota? provider = some q) (hlimit : q'.limit = q.limit) :
    s.Still (s.setQuota provider q') := by
  have hsystem : (s.allocators.setQuota q' provider).system.limit = s.allocators.system.limit := by
    cases provider with
    | none =>
      cases hq
      exact hlimit
    | some i => rfl
  exact .of_eq rfl rfl rfl (by simp only [inForce, setQuota, hsystem])

theorem still_requestRegion (provider : Option AllocatorId) (layout : Layout) (s : State) :
    s.Still (s.requestRegion provider layout).state := by
  unfold requestRegion
  cases hq : s.allocators.quota? provider with
  | none => exact .refl s
  | some q =>
    have hcharged :
        s.Still (s.setQuota provider (q.request (s.allocators.memory layout.size) layout.size).2) :=
      still_setQuota hq (limit_request _ _ _)
    simp only [given, Outcome.state]
    split
    · exact hcharged
    · exact hcharged.trans (still_observe _ _)

/-- What a new object is added to is the state that was, but for the allocator's account. -/
theorem allocate_eq_returned {provider : Option AllocatorId} {size : UInt64} {contents : Contents}
    {finalizer : Option Finalizer}
    (h : s.allocate provider size contents finalizer = .returned o t) :
    ∃ r, s.Still r ∧ o = r.heap.objects.length ∧
      t = ((r.onHeap fun heap => (heap.addObject size contents finalizer).2).onStatistics
        (·.addAllocation size)).trace .created o 0 := by
  cases hlayout : Layout.ofPayload? size with
  | none =>
    have hreport : (s.report (.layoutOverflow size)).whenUnwinding (·.discard finalizer) =
        .returned o t := by rwa [allocate, hlayout] at h
    cases hout : (s.report (.layoutOverflow size) : Outcome ObjectId) with
    | returned a r => exact absurd hout report_ne_returned
    | unwound cause r | halted halt r =>
      rw [hout] at hreport
      cases hreport
  | some layout =>
    have hstill := still_requestRegion provider layout s
    rw [allocate, hlayout] at h
    dsimp only at h
    cases hrequest : s.requestRegion provider layout with
    | unwound cause r | halted halt r =>
      rw [hrequest] at h
      cases h
    | returned granted r =>
      rw [hrequest] at h hstill
      cases granted with
      | false => cases h
      | true =>
        cases h
        exact ⟨r, hstill, rfl, rfl⟩

theorem leads_allocate (s : State) (provider : Option AllocatorId) (size : UInt64)
    (contents : Contents) (finalizer : Option Finalizer) :
    s.Leads (s.allocate provider size contents finalizer).state := by
  cases hallocate : s.allocate provider size contents finalizer with
  | returned o t => exact ⟨_, .deed (.create hallocate)⟩
  | unwound cause t | halted halt t =>
    rw [← hallocate]
    cases hlayout : Layout.ofPayload? size with
    | none =>
      have hreport := leads_report (α := ObjectId) (.layoutOverflow size) s
      rw [allocate, hlayout]
      dsimp only
      cases hout : (s.report (.layoutOverflow size) : Outcome ObjectId) with
      | returned a r => exact absurd hout report_ne_returned
      | unwound cause r =>
        rw [hout] at hreport
        exact hreport.trans (.of_still (still_discard finalizer r))
      | halted halt r =>
        rw [hout] at hreport
        exact hreport
    | some layout =>
      have hstill := still_requestRegion provider layout s
      rw [allocate, hlayout] at hallocate ⊢
      dsimp only at hallocate ⊢
      cases hrequest : s.requestRegion provider layout with
      | unwound cause r | halted halt r =>
        rw [hrequest] at hstill
        exact .of_still hstill
      | returned granted r =>
        rw [hrequest] at hallocate hstill
        cases granted with
        | true => cases hallocate
        | false => exact .of_still hstill

theorem leads_hold (s : State) (v : Value) : s.Leads (s.hold v).state :=
  (leads_allocate s _ _ _ _).andThen fun o t _ => (leads_retain t o).map _

/-! ### Steps on objects -/

theorem leads_withInstance {exportName : String} {name : Option String}
    {next : ObjectId → Outcome β} (hnext : ∀ o, s.Leads (next o).state) :
    s.Leads (s.withInstance exportName name next).state := by
  cases name with
  | none => exact leads_report _ s
  | some name => exact .given fun o _ => hnext o

theorem leads_guard (s : State) (o : ObjectId) : s.Leads (s.guard o).state := by
  refine .given fun c hl => ?_
  rcases s.heap.access o with hgone | ⟨d, hlink, hclosed⟩ | ⟨d, cell, hopens⟩
  · rw [hl] at hgone
    cases hgone
  · obtain rfl : c = d := Option.some.inj (hl.symm.trans hlink)
    rw [lock_of_closed hclosed]
    exact .refl s
  · obtain rfl : c = d := Option.some.inj (hl.symm.trans hopens.link)
    rw [lock_of_unlocked hopens.found hopens.unlocked, Outcome.andThen_returned,
      unlock_lock hopens.found hopens.unlocked]
    exact .given fun _ _ => .refl s

theorem leads_guardCell (s : State) (c : CellId) : s.Leads (s.guardCell c).state := by
  unfold guardCell
  by_cases hopen : ∃ cell, s.heap.cell? c = some cell ∧ cell.locked = false
  · obtain ⟨cell, hc, hunlocked⟩ := hopen
    rw [lock_of_unlocked hc hunlocked, Outcome.andThen_returned, unlock_lock hc hunlocked]
    exact .refl s
  · rw [lock_of_closed fun cell hc => by
      cases hlocked : cell.locked with
      | true => rfl
      | false => exact absurd ⟨cell, hc, hlocked⟩ hopen]
    exact .refl s

end State

/-- Steps that do to counts only what operations do. Cells are not made or freed, and slots and
counts not changed, by hand, and neither are settings; nothing is written past the operations. -/
def Step.plain : Step → Bool
  | .assemble _ _ _ | .reinstall _ _ | .newCell _ _ => false
  | .act (.object (.clearSlot _)) | .act (.object (.forceCount _ _)) => false
  | .act (.object (.freeCell _)) => false
  | .act (.log _) | .act (.setting _) => false
  | _ => true

namespace State

variable {s t : State}

theorem leads_performObject {action : ObjectAction}
    (hplain : Step.plain (.act (.object action)) = true) :
    s.Leads (s.performObject action).state := by
  cases action with
  | clearSlot _ | forceCount _ _ | freeCell _ => cases hplain
  | count name via =>
    rw [performObject, Outcome.state_through]
    exact leads_withInstance fun o => (leads_count s o).map _
  | isUnique name via =>
    rw [performObject, Outcome.state_through]
    exact leads_withInstance fun o => (leads_isUnique s o).map _
  | resolve name =>
    refine .given fun o _ => Leads.map ?_ _
    unfold resolve
    split
    · exact .refl s
    · exact leads_report _ s
  | guard name => exact .given fun o _ => leads_guard s o
  | guardCell name => exact .given fun c _ => leads_guardCell s c
  | write name start bytes =>
    exact .given fun o _ => .given fun object _ => .of_still (still_setContents o _ s)
  | read name start length => exact .given fun o _ => .given fun object _ => .refl s
  | isDeallocated name | hasCell name | slotIsNull name | offsets name =>
    exact .given fun o _ => .refl s
  | statistics | faultCount => exact .refl s

/-! ### Steps on handles -/

theorem still_takeHandles {names : List String} {os : List ObjectId}
    (h : s.takeHandles names = some (os, t)) : s.Still t := by
  induction names generalizing s os t with
  | nil =>
    cases h
    exact .refl s
  | cons name rest ih =>
    obtain ⟨o, _, hmap⟩ := Option.bind_eq_some_iff.1 h
    obtain ⟨⟨os', t'⟩, hrest, heq⟩ := Option.map_eq_some_iff.1 hmap
    cases heq
    have hforgotten : s.Still (s.forgetHandle name) := .of_eq rfl rfl rfl rfl
    exact hforgotten.trans (ih hrest)

theorem still_assign {o : ObjectId} {literal : Literal} (h : s.assign o literal = some t) :
    s.Still t := by
  obtain ⟨v, _, hmap⟩ := Option.bind_eq_some_iff.1 h
  obtain ⟨v', _, rfl⟩ := Option.map_eq_some_iff.1 hmap
  exact still_setContents o _ s

theorem leads_setHandle (s : State) (o : ObjectId) (literal : Literal) :
    s.Leads (s.setHandle o literal).state := by
  refine (leads_isUnique s o).andThen fun unique t _ => ?_
  split
  · exact .given fun u hu => .of_still (still_assign hu)
  · exact .refl t

theorem leads_pushChild (s : State) (o : ObjectId) (child : String) :
    s.Leads (s.pushChild o child).state := by
  refine (leads_isUnique s o).andThen fun unique t _ => ?_
  split
  · refine .given fun c _ => ?_
    split
    · exact .of_still ((still_setContents o _ t).trans (.of_eq rfl rfl rfl rfl))
    · exact .refl t
  · exact .refl t

theorem leads_performHandle (s : State) (action : HandleAction) :
    s.Leads (s.performHandle action).state := by
  cases action with
  | create handle kind literal =>
    refine .given fun (os, t) ht => (Leads.of_still (still_takeHandles ht)).trans ?_
    exact .given fun v _ => (leads_hold t v).andThen fun o u _ => .of_still (.of_eq rfl rfl rfl rfl)
  | clone handle copy =>
    exact .given fun o _ => (leads_retain s o).andThen fun _ u _ =>
      .of_still (.of_eq rfl rfl rfl rfl)
  | count handle => exact .given fun o _ => (leads_count s o).map _
  | isUnique handle => exact .given fun o _ => (leads_isUnique s o).map _
  | set handle literal => exact .given fun o _ => leads_setHandle s o literal
  | push handle child => exact .given fun o _ => leads_pushChild s o child
  | get handle => exact .given fun o _ => .given fun v _ => .given fun answer _ => .refl s
  | equal handle other =>
    exact .given fun a _ => .given fun b _ => .given fun x _ => .given fun y _ => .refl s
  | sameObject handle other => exact .given fun a _ => .given fun b _ => .refl s
  | write handle form =>
    exact .given fun o _ => .given fun image _ => .given fun text _ => .refl s
  | intoObject handle name | asObject handle name | fromObject name handle =>
    exact .given fun o _ => .of_still (.of_eq rfl rfl rfl rfl)

/-! ### What a deed changes -/

/-- What an operation that comes back has found. -/
theorem opens_of_returned {next : CellId → Cell → State → Outcome β} {b : β}
    (h : ((s.resolve o).andThen fun c s => (s.lock c).andThen fun cell s => next c cell s) =
      .returned b t) : ∃ c cell, s.heap.Opens o c cell := by
  rcases s.heap.access o with hgone | ⟨c, hlink, hclosed⟩ | ⟨c, cell, hopens⟩
  · rw [access_of_gone hgone] at h
    exact absurd h report_ne_returned
  · rw [access_of_barred hlink hclosed] at h
    cases h
  · exact ⟨c, cell, hopens⟩

/-- The changes that deeds come to, with what they have found. -/
inductive Changes (s : State) : Deed → State → Prop where
  | create (r : State) (still : s.Still r) (size : UInt64) (contents : Contents)
    (finalizer : Option Finalizer) :
    Changes s (.create r.heap.objects.length)
      (((r.onHeap fun heap => (heap.addObject size contents finalizer).2).onStatistics
        (·.addAllocation size)).trace .created r.heap.objects.length 0)
  | retain {o : ObjectId} {c : CellId} {cell : Cell} (opens : s.heap.Opens o c cell)
    (room : cell.count ≠ maxCount) :
    Changes s (.retain o (cell.count + 1))
      (((s.onHeap (·.setCount c (cell.count + 1))).onStatistics (·.addRetain)).trace
        .retained o (cell.count + 1))
  | release {o : ObjectId} {c : CellId} {cell : Cell} (opens : s.heap.Opens o c cell)
    (held : cell.count ≠ 0) (more : cell.count ≠ 1) :
    Changes s (.release o (cell.count - 1))
      (((s.onHeap (·.setCount c (cell.count - 1))).onStatistics (·.addRelease)).trace
        .released o (cell.count - 1))
  | begin {o : ObjectId} {c : CellId} {cell : Cell} (opens : s.heap.Opens o c cell)
    (last : cell.count = 1) : Changes s (.release o 0) (s.begin ⟨o, c⟩)
  | count {o : ObjectId} {c : CellId} {cell : Cell} (opens : s.heap.Opens o c cell) :
    Changes s (.count o cell.count) (s.trace .counted o cell.count)
  | fault (f : Fault) : Changes s (.fault f) (s.noted f)

theorem Enacts.changes {d : Deed} (h : s.Enacts d t) : s.Changes d t := by
  cases h with
  | create h =>
    obtain ⟨r, hstill, rfl, rfl⟩ := allocate_eq_returned h
    exact .create r hstill _ _ _
  | retain h count =>
    obtain ⟨c, cell, hopens⟩ := opens_of_returned h
    rw [retain_of_opens hopens] at h
    split at h
    · exact absurd h report_ne_returned
    · next hroom =>
      cases h
      cases count.symm.trans
        (count?_updateCell hopens fun cell' => {cell' with count := cell.count + 1})
      exact .retain hopens hroom
  | release h count =>
    obtain ⟨c, cell, hopens⟩ := opens_of_returned h
    rw [release_of_opens hopens] at h
    split at h
    · exact absurd h report_ne_returned
    · next hheld =>
      split at h
      · next hlast =>
        cases h
        cases count.symm.trans (count?_updateCell hopens fun _ => {locked := true})
        exact .begin hopens hlast
      · next hmore =>
        cases h
        cases count.symm.trans
          (count?_updateCell hopens fun cell' => {cell' with count := cell.count - 1})
        exact .release hopens hheld hmore
  | count h =>
    obtain ⟨c, cell, hopens⟩ := opens_of_returned h
    rw [count_of_opens hopens] at h
    cases h
    exact .count hopens
  | fault f => exact .fault f

/-! ### What deeds leave alone -/

theorem format_emit (entry : Log.Entry) (l : Log.Logger) : (l.emit entry).format = l.format := by
  unfold Log.Logger.emit Log.Logger.put
  split
  · split <;> rfl
  · rfl

theorem inForce_log (entry : Log.Entry) (s : State) : (s.log entry).inForce = s.inForce := by
  simp only [inForce, log, Log.Logger.emit_level, format_emit]

theorem inForce_noted (f : Fault) (s : State) : (s.noted f).inForce = s.inForce := by
  unfold noted
  split
  · exact inForce_log f.entry s
  · rfl

theorem inForce_finish (t : Teardown) (s : State) : (s.finish t).inForce = s.inForce := by
  have hfree : ((s.unlock t.cell).freeCell t.cell).inForce = s.inForce := by
    unfold freeCell
    exact (still_discard _ (s.unlock t.cell)).inForce
  exact hfree

/-- A deed writes its entries, and nothing else. -/
theorem Changes.logger {d : Deed} (h : s.Changes d t) :
    t.logger = (d.entries s.faults.reporter).foldl (fun l entry => l.emit entry) s.logger := by
  cases h with
  | create r hstill size contents finalizer =>
    show r.logger.emit _ = s.logger.emit _
    rw [hstill.logger]
  | retain opens room => rfl
  | @release o c cell opens held more =>
    have hremaining : cell.count - 1 ≠ 0 := fun hzero => more ((sub_one_eq_zero_iff held).1 hzero)
    simp only [Deed.entries, if_neg hremaining]
    rfl
  | begin opens last => rfl
  | count opens => rfl
  | fault f =>
    unfold noted Deed.entries
    split <;> rfl

theorem Changes.reporter {d : Deed} (h : s.Changes d t) :
    t.faults.reporter = s.faults.reporter := by
  cases h with
  | create r hstill size contents finalizer => exact congrArg FaultHandling.reporter hstill.faults
  | _ => rfl

theorem Changes.inForce {d : Deed} (h : s.Changes d t) : t.inForce = s.inForce := by
  cases h with
  | create r hstill size contents finalizer => exact (inForce_log _ _).trans hstill.inForce
  | begin opens last => exact (inForce_log _ _).trans (inForce_log _ _)
  | fault f => exact inForce_noted f s
  | _ => exact inForce_log _ _

namespace Does

variable {ds : List Deed}

/-- **Deeds leave the settings as they were.** -/
theorem inForce (h : s.Does ds t) : t.inForce = s.inForce := by
  induction h with
  | still h => exact h.inForce
  | deed h => exact h.changes.inForce
  | trans _ _ ih ih' => exact ih'.trans ih

theorem reporter (h : s.Does ds t) : t.faults.reporter = s.faults.reporter := by
  induction h with
  | still h => exact congrArg FaultHandling.reporter h.faults
  | deed h => exact h.changes.reporter
  | trans _ _ ih ih' => exact ih'.trans ih

/-- **The log is the list of the deeds' entries.** -/
theorem logger (h : s.Does ds t) :
    t.logger = (ds.flatMap (Deed.entries s.faults.reporter)).foldl (fun l entry => l.emit entry)
      s.logger := by
  induction h with
  | still h => exact h.logger
  | deed h =>
    rw [List.flatMap_singleton]
    exact h.changes.logger
  | trans first _ ih ih' =>
    rw [ih', first.reporter, ih, List.flatMap_append, List.foldl_append]

end Does

end State
end Custody
