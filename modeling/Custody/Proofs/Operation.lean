import Custody.Proofs.View

/-! Operations as shifts.

What each operation that starts and ends no teardown does to the view of a state,
whichever way it ends. Most leave the view as it was: faults, queries, settings and
log entries, and whatever handles do beyond retaining and creating. -/
namespace Custody

/-- The state that an operation leaves. -/
def Outcome.state : Outcome α → State
  | .returned _ s | .unwound _ s | .halted _ s => s

variable {edits : ObjectId → Prop} {rs rs' : List (Routine Step)} {s : State} {v : View}
  {o : ObjectId} {c : CellId}

namespace Shifts

/-- One operation after the other puts to use the routines of both. If the first one fails, those of
the second are not used. -/
theorem andThen {out : Outcome α} {next : α → State → Outcome β}
    (h : Shifts edits rs v out.state.view)
    (hnext : ∀ a t, out = .returned a t → Shifts edits rs' t.view (next a t).state.view) :
    Shifts edits (rs ++ rs') v (out.andThen next).state.view := by
  cases out with
  | returned a t => exact h.trans (hnext a t rfl)
  | unwound cause t => exact h.pad rs'
  | halted halt t => exact h.pad rs'

/-- A look-up that finds nothing puts no routine to use. -/
theorem given {found : Option α} {next : α → Outcome β}
    (h : ∀ a, found = some a → Shifts edits rs s.view (next a).state.view) :
    Shifts edits rs s.view (s.given found next).state.view := by
  cases found with
  | none => exact .waste rs _
  | some a => exact h a rfl

theorem map (f : α → β) {out : Outcome α} (h : Shifts edits rs v out.state.view) :
    Shifts edits rs v (out.map f).state.view := by
  cases out <;> exact h

end Shifts

/-- A foreign call stops an unwinding, and the state stays as it is. -/
theorem Outcome.state_through (via : Convention) (out : Outcome α) :
    (out.through via).state = out.state := by
  cases via <;> cases out <;> rfl

namespace State

/-- A fault is counted and told of, neither of which is in view. -/
theorem view_report (f : Fault) : (s.report f : Outcome α).state.view = s.view := by
  unfold report
  split
  · rfl
  · rfl
  · split <;> rfl

/-! ### Counting -/

/-- A retain changes a count or reports a fault. -/
theorem shifts_retain : Shifts edits [] s.view (s.retain o).state.view := by
  rcases s.heap.access o with hgone | ⟨c, hlink, hclosed⟩ | ⟨c, cell, hopens⟩
  · rw [retain, access_of_gone hgone, view_report]
    exact .refl _
  · rw [retain, access_of_barred hlink hclosed]
    exact .refl _
  · rw [retain_of_opens hopens]
    split
    · rw [view_report]
      exact .refl _
    · exact .single (.recount _ _ _)

/-- A query locks the cell and unlocks it again. -/
theorem view_isUnique : (s.isUnique o).state.view = s.view := by
  rcases s.heap.access o with hgone | ⟨c, hlink, hclosed⟩ | ⟨c, cell, hopens⟩
  · rw [isUnique, access_of_gone hgone, view_report]
  · rw [isUnique, access_of_barred hlink hclosed]
    rfl
  · rw [isUnique_of_opens hopens]
    rfl

theorem view_count : (s.count o).state.view = s.view := by
  rcases s.heap.access o with hgone | ⟨c, hlink, hclosed⟩ | ⟨c, cell, hopens⟩
  · rw [count, access_of_gone hgone, view_report]
  · rw [count, access_of_barred hlink hclosed]
    rfl
  · rw [count_of_opens hopens]
    rfl

/-- A release that starts no teardown. -/
theorem shifts_release_of_opens {cell : Cell} (h : s.heap.Opens o c cell) (hcount : cell.count ≠ 1) :
    Shifts edits [] s.view (s.release o).state.view := by
  rw [release_of_opens h, if_neg hcount]
  split
  · rw [view_report]
    exact .refl _
  · exact .single (.recount _ _ _)

/-- A release that does not take the last reference. -/
theorem shifts_release (hlast : ∀ c cell, s.heap.Opens o c cell → cell.count ≠ 1) :
    Shifts edits [] s.view (s.release o).state.view ∧
      ∀ begun t, s.release o ≠ .returned (some begun) t := by
  rcases s.heap.access o with hgone | ⟨c, hlink, hclosed⟩ | ⟨c, cell, hopens⟩
  · rw [release, access_of_gone hgone]
    exact ⟨.of_eq (view_report _), fun begun t => report_ne_returned⟩
  · rw [release, access_of_barred hlink hclosed]
    exact ⟨.refl _, fun begun t h => by cases h⟩
  · refine ⟨shifts_release_of_opens hopens (hlast c cell hopens), fun begun t => ?_⟩
    rw [release_of_opens hopens, if_neg (hlast c cell hopens)]
    split
    · exact report_ne_returned
    · simp

/-- Each child that is retained has its count changed, up to the first that fails. -/
theorem shifts_retainEach (os : List ObjectId) :
    Shifts edits [] s.view (s.retainEach os).2.state.view := by
  induction os generalizing s with
  | nil => exact .refl _
  | cons o rest ih =>
    have hretain : Shifts edits [] s.view (s.retain o).state.view := shifts_retain
    unfold retainEach
    cases hr : s.retain o with
    | returned u t =>
      rw [hr] at hretain
      exact hretain.trans ih
    | unwound cause t =>
      rw [hr] at hretain
      exact hretain
    | halted halt t =>
      rw [hr] at hretain
      exact hretain

/-! ### Creation -/

/-- Allocators and their accounts are not in view. -/
theorem view_requestRegion (provider : Option AllocatorId) (layout : Layout) :
    (s.requestRegion provider layout).state.view = s.view := by
  unfold requestRegion given
  split
  · simp only [Outcome.state]
    split
    · rfl
    · exact view_observe rfl
  · rfl

/-- **An allocation hands its finalizer to the new cell**, or discards it if there is no layout for
the size, or loses it with the process. -/
theorem shifts_allocate (provider : Option AllocatorId) (size : UInt64) (contents : Contents)
    (finalizer : Option Finalizer) :
    Shifts edits (Cell.routine? {finalizer}).toList s.view
      (s.allocate provider size contents finalizer).state.view := by
  unfold allocate
  split
  · have hview := view_report (s := s) (α := ObjectId) (.layoutOverflow size)
    revert hview
    cases (s.report (.layoutOverflow size) : Outcome ObjectId) with
    | returned a t => exact fun hview => hview ▸ .waste _ _
    | halted halt t => exact fun hview => hview ▸ .waste _ _
    | unwound cause t =>
      intro hview
      show Shifts edits _ s.view (t.discard finalizer).view
      rw [view_discard, show t.view = s.view from hview]
      cases finalizer with
      | none => exact .refl _
      | some finalizer =>
        cases finalizer with
        | routine r => exact .single (.discard _ r)
        | dropValue => exact .refl _
  · next layout _ =>
    have hrequest := view_requestRegion (s := s) provider layout
    rw [← List.nil_append (Cell.routine? {finalizer}).toList]
    refine .andThen (.of_eq hrequest) fun granted t _ => ?_
    cases granted with
    | true =>
      have hcreated : Shifts edits _ t.view (t.view.create finalizer) := .single (.create _ _)
      rw [← view_addObject size contents] at hcreated
      exact hcreated
    | false => exact .waste _ _

theorem shifts_assemble (size : UInt64) (finalizer : Option Finalizer) :
    Shifts edits (Cell.routine? {finalizer}).toList s.view (s.assemble size finalizer).2.view := by
  have hcreated : Shifts edits _ s.view (s.view.create finalizer) := .single (.create _ _)
  rw [← view_addObject size (.bytes [])] at hcreated
  exact hcreated

/-- A value is put into an object of its own, whose finalizer drops the value and is no routine. -/
theorem shifts_hold (v : Value) : Shifts edits [] s.view (s.hold v).state.view := by
  have hallocate : Shifts edits _ s.view (s.allocate s.allocators.installed v.kind.size (.value v)
      (if v.kind.owning then some .dropValue else none)).state.view := shifts_allocate _ _ _ _
  have hroutine : Cell.routine? {finalizer := if v.kind.owning then some .dropValue else none} =
      none := by
    cases v.kind.owning <;> rfl
  rw [hroutine] at hallocate
  exact hallocate.andThen fun o t _ => shifts_retain.map _

/-! ### Actions -/

/-- A guard is taken, looked at and given back. -/
theorem view_guard : (s.guard o).state.view = s.view := by
  unfold guard
  cases hl : s.heap.link? o with
  | none => rfl
  | some c =>
    simp only [given]
    rcases s.heap.access o with hgone | ⟨d, hlink, hclosed⟩ | ⟨d, cell, hopens⟩
    · rw [hl] at hgone
      cases hgone
    · obtain rfl : c = d := Option.some.inj (hl.symm.trans hlink)
      rw [lock_of_closed hclosed]
      rfl
    · obtain rfl : c = d := Option.some.inj (hl.symm.trans hopens.link)
      rw [lock_of_unlocked hopens.found hopens.unlocked, Outcome.andThen_returned,
        unlock_lock hopens.found hopens.unlocked, hopens.found]
      rfl

theorem view_guardCell : (s.guardCell c).state.view = s.view := by
  unfold guardCell
  cases hc : s.heap.cell? c with
  | none =>
    rw [lock_of_closed (by simp [hc])]
    rfl
  | some cell =>
    cases hlocked : cell.locked with
    | true =>
      rw [lock_of_closed (by simp [hc, hlocked])]
      rfl
    | false =>
      rw [lock_of_unlocked hc hlocked, Outcome.andThen_returned, unlock_lock hc hlocked]
      rfl

/-- A call through an export without an instance reports a fault. -/
theorem view_withInstance {exportName : String} {name : Option String}
    {next : ObjectId → Outcome β} (h : ∀ o, (next o).state.view = s.view) :
    (s.withInstance exportName name next).state.view = s.view := by
  cases name with
  | none => exact view_report _
  | some name =>
    unfold withInstance withObject given
    simp only
    split
    · exact h _
    · rfl

theorem view_map (f : α → β) (out : Outcome α) : (out.map f).state.view = out.state.view := by
  cases out <;> rfl

/-- Three actions on objects change the view: one unlinks a slot, one sets a count and one frees a
cell. -/
theorem shifts_performObject (a : ObjectAction)
    (hedits : ∀ name, a = .clearSlot name → ∀ o, s.names.objects.find? name = some o → edits o) :
    Shifts edits [] s.view (s.performObject a).state.view := by
  cases a with
  | count name via =>
    refine .of_eq ?_
    rw [performObject, Outcome.state_through]
    exact view_withInstance fun o => (view_map _ _).trans view_count
  | isUnique name via =>
    refine .of_eq ?_
    rw [performObject, Outcome.state_through]
    exact view_withInstance fun o => (view_map _ _).trans view_isUnique
  | resolve name =>
    refine .given fun o _ => .of_eq ?_
    rw [view_map]
    unfold resolve
    split
    · rfl
    · exact view_report _
  | clearSlot name =>
    refine .given fun o ho => ?_
    show Shifts edits [] s.view (s.onHeap (·.setLink o none)).view
    rw [view_clearLink]
    exact .single (.unlink _ o (hedits name rfl o ho))
  | guard name => exact .given fun o _ => .of_eq view_guard
  | forceCount name count =>
    exact .given fun o _ => .given fun c _ => .single (.recount _ c count)
  | write name start bytes =>
    exact .given fun o _ => .given fun object _ => .of_eq (view_setContents _)
  | guardCell name => exact .given fun c _ => .of_eq view_guardCell
  | freeCell name =>
    refine .given fun c hc => ?_
    show Shifts edits [] s.view ((s.freeCell c).forgetCell name).view
    rw [view_free]
    exact .single (.free _ hc)
  | isDeallocated name => exact .given fun o _ => .refl _
  | hasCell name => exact .given fun o _ => .refl _
  | slotIsNull name => exact .given fun o _ => .refl _
  | offsets name => exact .given fun o _ => .refl _
  | read name start length => exact .given fun o _ => .given fun object _ => .refl _
  | statistics => exact .refl _
  | faultCount => exact .refl _

theorem view_performLog (a : LogAction) : (s.performLog a).2.view = s.view := by
  cases a <;> rfl

/-- Warnings are written to the log. -/
theorem view_say (warnings : List ConfigurationError) :
    (warnings.foldl (fun s warning => s.say .warn warning.message) s).view = s.view := by
  induction warnings generalizing s with
  | nil => rfl
  | cons warning rest ih => exact ih

theorem view_configure (c : Configuration) : (s.configure c).2.view = s.view := by
  unfold configure
  split <;> rfl

theorem view_configureFromEnvironment : s.configureFromEnvironment.2.view = s.view := by
  unfold configureFromEnvironment
  simp only
  split
  · rw [view_configure]
    exact view_say _
  · simp only [view_configure]
    exact view_say _

theorem view_given {found : Option α} {next : α → Outcome β}
    (h : ∀ a, (next a).state.view = s.view) : (s.given found next).state.view = s.view := by
  cases found with
  | none => rfl
  | some a => exact h a

/-- Neither settings nor the allocators that they name are in view. -/
theorem view_performSetting (a : SettingAction) : (s.performSetting a).state.view = s.view := by
  cases a with
  | report fault => exact view_report _
  | raiseForeign message =>
    rw [performSetting, Outcome.state_through]
    exact view_report _
  | readEnvironment => exact view_say _
  | configure settings => exact view_configure _
  | configureFromEnvironment via => exact view_configureFromEnvironment
  | setAllocatorLimit name limit => exact view_given fun i => view_given fun q => rfl
  | allocatorQuota name => exact view_given fun i => view_given fun q => rfl
  | installAllocator name =>
    refine view_given fun i => view_given fun q => ?_
    dsimp only
    split <;> rfl
  | _ => rfl

/-- Handles that are handed over lose their names. -/
theorem view_takeHandles {names : List String} {os : List ObjectId} {t : State}
    (h : s.takeHandles names = some (os, t)) : t.view = s.view := by
  induction names generalizing s os t with
  | nil => cases h; rfl
  | cons name rest ih =>
    obtain ⟨o, _, hmap⟩ := Option.bind_eq_some_iff.1 h
    obtain ⟨⟨os', t'⟩, hrest, heq⟩ := Option.map_eq_some_iff.1 hmap
    cases heq
    have hforget : (s.forgetHandle name).view = s.view := rfl
    exact (ih hrest).trans hforget

theorem view_assign {literal : Literal} {t : State} (h : s.assign o literal = some t) :
    t.view = s.view := by
  obtain ⟨v, _, hmap⟩ := Option.bind_eq_some_iff.1 h
  obtain ⟨v', _, rfl⟩ := Option.map_eq_some_iff.1 hmap
  exact view_setContents _

/-- A value is set in place where its handle is the only one. -/
theorem view_setHandle (literal : Literal) : (s.setHandle o literal).state.view = s.view := by
  have hunique := view_isUnique (s := s) (o := o)
  unfold setHandle
  cases hu : s.isUnique o with
  | unwound cause t => rwa [hu] at hunique
  | halted halt t => rwa [hu] at hunique
  | returned unique t =>
    have ht : t.view = s.view := by rwa [hu] at hunique
    rw [Outcome.andThen_returned]
    split
    · cases ha : t.assign o literal with
      | none => exact ht
      | some u => exact (view_assign ha).trans ht
    · exact ht

/-- A child moves into its parent with its count as it is. -/
theorem view_pushChild (child : String) : (s.pushChild o child).state.view = s.view := by
  have hunique := view_isUnique (s := s) (o := o)
  unfold pushChild
  cases hu : s.isUnique o with
  | unwound cause t => rwa [hu] at hunique
  | halted halt t => rwa [hu] at hunique
  | returned unique t =>
    have ht : t.view = s.view := by rwa [hu] at hunique
    rw [Outcome.andThen_returned]
    split
    · refine (view_given fun c => ?_).trans ht
      split
      · exact view_setContents _
      · rfl
    · exact ht

/-- Handles change the view where they are created and where they are cloned. -/
theorem shifts_performHandle (a : HandleAction) :
    Shifts edits [] s.view (s.performHandle a).state.view := by
  cases a with
  | create handle kind literal =>
    refine .given fun (os, t) ht => ?_
    have hview := view_takeHandles ht
    rw [← hview]
    refine .given fun v _ => ?_
    exact (shifts_hold v).andThen fun _ u _ => .refl u.view
  | clone handle copy =>
    exact .given fun o _ => shifts_retain.andThen fun _ u _ => .refl u.view
  | count handle => exact .given fun o _ => .of_eq ((view_map _ _).trans view_count)
  | isUnique handle => exact .given fun o _ => .of_eq ((view_map _ _).trans view_isUnique)
  | set handle literal => exact .given fun o _ => .of_eq (view_setHandle literal)
  | push handle child => exact .given fun o _ => .of_eq (view_pushChild child)
  | get handle =>
    exact .of_eq (view_given fun o => view_given fun v => view_given fun answer => rfl)
  | equal handle other =>
    exact .of_eq (view_given fun a => view_given fun b => view_given fun x => view_given fun y => rfl)
  | sameObject handle other => exact .of_eq (view_given fun a => view_given fun b => rfl)
  | write handle form =>
    exact .of_eq (view_given fun o => view_given fun image => view_given fun text => rfl)
  | intoObject handle name => exact .of_eq (view_given fun o => rfl)
  | asObject handle name => exact .of_eq (view_given fun o => rfl)
  | fromObject name handle => exact .of_eq (view_given fun o => rfl)

end State
end Custody
