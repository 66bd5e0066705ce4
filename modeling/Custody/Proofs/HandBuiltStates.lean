import Custody.Proofs.HandBuilt

/-! Objects put together by hand: the states.

The states that two scripts go through are the same, but for what the objects put together by hand
leave out (`State.Rebuilt`). Whatever counts references, tears an object down or makes another one
goes by slots and cells, and keeps them so. An object put together by hand is the one that would
have been allocated, and adds to what is left out (`State.rebuilt_assemble`). -/
namespace Custody

variable {made : List HandBuilt} {gone : List Log.Line} {size : UInt64} {layout : Layout}

/-! ### States -/

/-- The same state, but for what was not counted, not asked for and not told of because some
objects were put together by hand. -/
structure State.Rebuilt (made : List HandBuilt) (gone : List Log.Line) (s t : State) : Prop where
  heap : s.heap.Rebuilt t.heap
  statistics : s.statistics.Rebuilt made t.statistics
  logger : s.logger.Rebuilt gone t.logger
  faults : t.faults = s.faults
  allocators : s.allocators.Rebuilt made t.allocators
  environment : t.environment = s.environment
  configuration : t.configuration = s.configuration
  names : t.names = s.names
  events : t.events = s.events

/-- Two operations end the same way. -/
abbrev Outcome.Rebuilt (made : List HandBuilt) (gone : List Log.Line) (R : α → β → Prop) :
    Outcome α → Outcome β → Prop :=
  Outcome.Related (State.Rebuilt made gone) R

namespace State.Rebuilt

theorem refl (s : State) : s.Rebuilt [] [] s :=
  ⟨.refl _, .refl _, .refl _, rfl, .refl _, rfl, rfl, rfl, rfl⟩

variable {s t : State} (h : s.Rebuilt made gone t)
include h

theorem onHeap {f g : Heap → Heap} (hfg : (f s.heap).Rebuilt (g t.heap)) :
    (s.onHeap f).Rebuilt made gone (t.onHeap g) :=
  {h with heap := hfg}

theorem withHeap {heap heap' : Heap} (hheap : heap.Rebuilt heap') :
    State.Rebuilt made gone {s with heap} {t with heap := heap'} :=
  {h with heap := hheap}

theorem withAllocators {a b : Allocators} (hab : a.Rebuilt made b) :
    State.Rebuilt made gone {s with allocators := a} {t with allocators := b} :=
  {h with allocators := hab}

theorem onNames (f : Names → Names) : (s.onNames f).Rebuilt made gone (t.onNames f) :=
  {h with names := congrArg f h.names}

theorem nameObject (name : String) (o : ObjectId) :
    (s.nameObject name o).Rebuilt made gone (t.nameObject name o) :=
  h.onNames _

theorem nameHandle (name : String) (o : ObjectId) :
    (s.nameHandle name o).Rebuilt made gone (t.nameHandle name o) :=
  h.onNames _

theorem nameCell (name : String) (c : CellId) :
    (s.nameCell name c).Rebuilt made gone (t.nameCell name c) :=
  h.onNames _

theorem forgetHandle (name : String) :
    (s.forgetHandle name).Rebuilt made gone (t.forgetHandle name) :=
  h.onNames _

theorem onStatistics {f : Statistics → Statistics}
    (hf : (f s.statistics).Rebuilt made (f t.statistics)) :
    (s.onStatistics f).Rebuilt made gone (t.onStatistics f) :=
  {h with statistics := hf}

theorem addRetain :
    (s.onStatistics (·.addRetain)).Rebuilt made gone (t.onStatistics (·.addRetain)) :=
  h.onStatistics {h.statistics with retains := congrArg (· + 1) h.statistics.retains}

theorem addRelease :
    (s.onStatistics (·.addRelease)).Rebuilt made gone (t.onStatistics (·.addRelease)) :=
  h.onStatistics {h.statistics with releases := congrArg (· + 1) h.statistics.releases}

theorem addDeallocation :
    (s.onStatistics (·.addDeallocation)).Rebuilt made gone (t.onStatistics (·.addDeallocation)) :=
  h.onStatistics {h.statistics with deallocations := congrArg (· + 1) h.statistics.deallocations}

theorem log (entry : Log.Entry) : (s.log entry).Rebuilt made gone (t.log entry) :=
  {h with logger := h.logger.emit entry}

theorem observe (event : Event) : (s.observe event).Rebuilt made gone (t.observe event) :=
  {h with events := congrArg (event :: ·) h.events}

/-- What was observed before a step does not matter once the step begins. -/
theorem fresh : State.Rebuilt made gone {s with events := []} {t with events := []} :=
  {h with events := rfl}

/-- A finalizer that is discarded is told of by its label, which is the same. -/
theorem discard {f f' : Option Finalizer} (hf : Option.Rel Finalizer.Rebuilt f f') :
    (s.discard f).Rebuilt made gone (t.discard f') := by
  cases hf with
  | none => exact h
  | some hf =>
    cases hf with
    | dropValue => exact h
    | routine hr =>
      obtain ⟨convention, label, -⟩ := hr
      cases convention with
      | native => exact h.observe (.discarded label)
      | foreign => exact h

end State.Rebuilt

/-- Both report a fault alike. -/
theorem Outcome.Rebuilt.report {R : α → β → Prop} {s t : State} (h : s.Rebuilt made gone t)
    (f : Fault) : (s.report f : Outcome α).Rebuilt made gone R (t.report f : Outcome β) :=
  Related.report h.faults (fun _ => {h with faults := rfl}) (fun _ _ entry h => h.log entry) f

/-! ### Retaining and releasing -/

namespace State

variable {s t : State} (h : s.Rebuilt made gone t)
include h

/-- Slots are the same, so the same objects are gone. -/
theorem rebuilt_resolve (o : ObjectId) : (s.resolve o).Rebuilt made gone Eq (t.resolve o) := by
  unfold resolve
  rw [h.heap.link?]
  split
  · exact .returned rfl h
  · exact .report h _

/-- Cells are locked in both or in neither. -/
theorem rebuilt_lock (c : CellId) :
    (s.lock c).Rebuilt made gone Cell.Rebuilt (t.lock c) := by
  have hcell := h.heap.cell? c
  unfold lock
  generalize s.heap.cell? c = cell at hcell
  generalize t.heap.cell? c = cell' at hcell
  cases hcell with
  | none => exact .halted .blocked h
  | some hcell =>
    dsimp only
    rw [hcell.locked]
    split
    · exact .halted .blocked h
    · exact .returned {hcell with locked := rfl} (h.onHeap (h.heap.setLocked c true))

theorem rebuilt_unlock (c : CellId) : (s.unlock c).Rebuilt made gone (t.unlock c) :=
  h.onHeap (h.heap.setLocked c false)

/-- What the operations on a count share. -/
theorem rebuilt_access {R : α → β → Prop} (o : ObjectId) {next : CellId → Cell → State → Outcome α}
    {next' : CellId → Cell → State → Outcome β}
    (hnext : ∀ c cell cell' s t, cell.Rebuilt cell' → s.Rebuilt made gone t →
      (next c cell s).Rebuilt made gone R (next' c cell' t)) :
    ((s.resolve o).andThen fun c s => (s.lock c).andThen fun cell s =>
        next c cell s).Rebuilt made gone R
      ((t.resolve o).andThen fun c t => (t.lock c).andThen fun cell t => next' c cell t) :=
  (rebuilt_resolve h o).thenSame fun c _ _ h => (rebuilt_lock h c).andThen (hnext c)

theorem rebuilt_retain (o : ObjectId) : (s.retain o).Rebuilt made gone Eq (t.retain o) :=
  rebuilt_access h o fun c cell cell' s t hcell h => by
    rw [hcell.count]
    split
    · exact .report (rebuilt_unlock h c) _
    · have hcounted := h.onHeap (h.heap.setCount c (cell.count + 1))
      exact .returned rfl ((rebuilt_unlock hcounted c).addRetain.log _)

theorem rebuilt_isUnique (o : ObjectId) : (s.isUnique o).Rebuilt made gone Eq (t.isUnique o) :=
  rebuilt_access h o fun c _ _ _ _ hcell h => by
    rw [hcell.count]
    exact .returned rfl (rebuilt_unlock h c)

theorem rebuilt_count (o : ObjectId) : (s.count o).Rebuilt made gone Eq (t.count o) :=
  rebuilt_access h o fun c _ _ _ _ hcell h => by
    rw [hcell.count]
    exact .returned rfl ((rebuilt_unlock h c).log _)

/-- A teardown that begins, with the finalizer it hands over. -/
inductive Begun : Teardown × Option Finalizer → Teardown × Option Finalizer → Prop where
  | mk (t : Teardown) {f f' : Option Finalizer} (hf : Option.Rel Finalizer.Rebuilt f f') :
    Begun (t, f) (t, f')

/-- **The same releases start the same teardowns**, with finalizers that do the same. -/
theorem rebuilt_release (o : ObjectId) :
    (s.release o).Rebuilt made gone (Option.Rel Begun) (t.release o) :=
  rebuilt_access h o fun c cell cell' s t hcell h => by
    rw [hcell.count]
    split
    · exact .report (rebuilt_unlock h c) _
    · have hcounted := h.onHeap (h.heap.setCount c (cell.count - 1))
      have hreleased := hcounted.addRelease.log (Transition.released.entry o (cell.count - 1))
      dsimp only
      split
      · have htraced := hreleased.log (Transition.deallocating.entry o 0)
        exact .returned (.some (.mk ⟨o, c⟩ hcell.finalizer))
          (htraced.onHeap (htraced.heap.takeFinalizer c))
      · exact .returned .none (rebuilt_unlock hreleased c)

theorem rebuilt_freeCell (c : CellId) : (s.freeCell c).Rebuilt made gone (t.freeCell c) := by
  have hfinalizer : Option.Rel Finalizer.Rebuilt ((s.heap.cell? c).bind (·.finalizer))
      ((t.heap.cell? c).bind (·.finalizer)) :=
    rel_bind (fun _ _ hcell => hcell.finalizer) (h.heap.cell? c)
  have hdiscarded := h.discard hfinalizer
  exact hdiscarded.onHeap (hdiscarded.heap.freeCell c)

/-- A teardown ends with the slot null and the cell freed in both. -/
theorem rebuilt_finish (teardown : Teardown) :
    (s.finish teardown).Rebuilt made gone (t.finish teardown) := by
  have hfreed := rebuilt_freeCell (rebuilt_unlock h teardown.cell) teardown.cell
  exact (hfreed.onHeap (hfreed.heap.updateObject teardown.object _)).addDeallocation

/-- The children that were retained are the same, wherever a fault came in. -/
theorem rebuilt_retainEach (os : List ObjectId) :
    (t.retainEach os).1 = (s.retainEach os).1 ∧
      (s.retainEach os).2.Rebuilt made gone Eq (t.retainEach os).2 := by
  induction os generalizing s t with
  | nil => exact ⟨rfl, .returned rfl h⟩
  | cons o os ih =>
    have hretain := rebuilt_retain h o
    unfold retainEach
    generalize s.retain o = out at hretain
    generalize t.retain o = out' at hretain
    cases hretain with
    | returned result h =>
      obtain ⟨hretained, hout⟩ := ih h
      exact ⟨congrArg (o :: ·) hretained, hout⟩
    | unwound cause h => exact ⟨rfl, .unwound cause h⟩
    | halted halt h => exact ⟨rfl, .halted halt h⟩

end State

/-! ### Creating -/

/-- A request for the region of an object, and the state in which it is made. -/
structure Request where
  state : State
  provider : Option AllocatorId
  size : UInt64

/-- Whether the allocator that is asked grants the region, where there can be one. -/
def Request.granted (r : Request) : Bool :=
  (Layout.ofPayload? r.size).all fun layout => (r.state.allocators.quota? r.provider).all fun q =>
    (q.request (r.state.allocators.memory layout.size) layout.size).1

/-- What is granted without a custom allocator is granted by the system allocator. -/
theorem Request.system_of_granted {s : State} (hlayout : Layout.ofPayload? size = some layout)
    (hgranted : Request.granted ⟨s, none, size⟩ = true) :
    (s.allocators.system.request (s.allocators.memory layout.size) layout.size).1 = true := by
  simpa only [Request.granted, hlayout, Option.all_some, Allocators.quota?] using hgranted

namespace State

/-- The object that is made next, if it is put together by hand. -/
def handBuilt (size : UInt64) (s : State) : HandBuilt where
  object := s.heap.objects.length
  size := size
  line := s.logger.line? (Transition.created.entry s.heap.objects.length 0)

variable {s t : State} (h : s.Rebuilt made gone t) {provider : Option AllocatorId}
  {f f' : Option Finalizer} (hf : Option.Rel Finalizer.Rebuilt f f')
include h

/-- A region that is granted to the one that asked for more is granted to the other. -/
theorem rebuilt_requestRegion (hlayout : Layout.ofPayload? size = some layout)
    (hgranted : Request.granted ⟨s, provider, size⟩ = true) :
    (s.requestRegion provider layout).Rebuilt made gone Eq (t.requestRegion provider layout) := by
  unfold requestRegion
  rw [h.allocators.memory]
  cases provider with
  | none =>
    have hyes := Request.system_of_granted hlayout hgranted
    simp only [Allocators.quota?, given, hyes, h.allocators.granted hyes]
    exact .returned rfl (h.withAllocators (h.allocators.request hyes))
  | some i =>
    rw [h.allocators.quota? i]
    refine .given h fun q _ => ?_
    have hcharged := h.withAllocators
      (h.allocators.setQuota i (q.request (s.allocators.memory layout.size) layout.size).2)
    have hname := hcharged.allocators.name? i
    dsimp only at hname ⊢
    rw [hname]
    cases Allocators.name? _ (some i) with
    | none => exact .returned rfl hcharged
    | some name => exact .returned rfl (hcharged.observe _)

include hf

/-- An object that both processes allocate. -/
theorem rebuilt_allocate (contents : Contents)
    (hgranted : Request.granted ⟨s, provider, size⟩ = true) :
    (s.allocate provider size contents f).Rebuilt made gone Eq
      (t.allocate provider size contents f') := by
  unfold allocate
  split
  · exact (Outcome.Rebuilt.report h _).whenUnwinding fun _ _ h => h.discard hf
  · next layout hlayout =>
    refine (rebuilt_requestRegion h hlayout hgranted).thenSame fun granted s t h => ?_
    split
    · obtain ⟨ho, hadded⟩ := h.heap.addObject size contents hf
      dsimp only
      rw [ho]
      have hcounted := (h.withHeap hadded).onStatistics (h.statistics.addAllocation size)
      exact .returned rfl (hcounted.log _)
    · exact .halted .aborted h

/-- **An object that is put together by hand** is the one that would have been allocated. -/
theorem rebuilt_assemble (hlayout : Layout.ofPayload? size = some layout)
    (hgranted : Request.granted ⟨s, none, size⟩ = true) :
    (s.allocate none size (.bytes []) f).Rebuilt (s.handBuilt size :: made)
      ((s.handBuilt size).line.toList ++ gone) Eq
      (.returned (t.assemble size f').1 (t.assemble size f').2) := by
  have hyes := Request.system_of_granted hlayout hgranted
  obtain ⟨ho, hadded⟩ := h.heap.addObject size (.bytes []) hf
  simp only [allocate, hlayout, requestRegion, given, Allocators.quota?, hyes]
  refine .returned ho.symm ?_
  exact {
    heap := hadded
    statistics := h.statistics.leaveOut (s.handBuilt size)
    logger := h.logger.leaveOut (Transition.created.entry s.heap.objects.length 0)
    faults := h.faults
    allocators := h.allocators.leaveOut (s.handBuilt size) hlayout hyes
    environment := h.environment
    configuration := h.configuration
    names := h.names
    events := h.events }

omit hf in
/-- A value is held in an object that both allocate. -/
theorem rebuilt_hold (v : Value)
    (hgranted : Request.granted ⟨s, s.allocators.installed, v.kind.size⟩ = true) :
    (s.hold v).Rebuilt made gone Eq (t.hold v) := by
  unfold hold
  rw [h.allocators.installed]
  exact (rebuilt_allocate h (rel_refl .refl _) _ hgranted).thenSame fun o _ _ h =>
    (rebuilt_retain h o).mapSame _

omit hf in
/-- An object that both put together is left out by neither. -/
theorem rebuilt_assembled (hf : Option.Rel Finalizer.Rebuilt f f') (size : UInt64) :
    (t.assemble size f').1 = (s.assemble size f).1 ∧
      (s.assemble size f).2.Rebuilt made gone (t.assemble size f').2 := by
  obtain ⟨ho, hadded⟩ := h.heap.addObject size (.bytes []) hf
  exact ⟨ho, h.withHeap hadded⟩

theorem rebuilt_reinstall (o : ObjectId) :
    (s.reinstall o f).Rebuilt made gone (t.reinstall o f') := by
  obtain ⟨hc, hadded⟩ := h.heap.addCell hf
  unfold reinstall
  dsimp only
  rw [hc]
  exact h.withHeap (hadded.updateObject o _)

end State
end Custody
