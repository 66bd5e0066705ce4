import Mathlib.Data.List.Forall2
import Custody.Proofs.SideBySide

/-! Foreign calls and native ones: the operations.

Whether an object is created, retained, released or asked about by a native call or by a foreign
one makes no difference to what is done to it. A script that makes some of its calls the foreign
way is compared with the one that makes all of them natively (`Step.native`). The states the two go
through are the same, but for the steps that wait in finalizers, and but for the answer to whether
a reference is the only one, which a foreign call gives as a number (`State.Parallel`). The
operations keep them so. -/
namespace Custody

/-! ### Scripts -/

mutual

/-- The same step with every call in it made natively. -/
def Step.native : Step → Step
  | .allocate name size routine provider _ =>
    .allocate name size (routineNative routine) provider .native
  | .assemble name size routine => .assemble name size (routineNative routine)
  | .reinstall name routine => .reinstall name (routineNative routine)
  | .newCell name routine => .newCell name (routineNative routine)
  | .describe routine => .describe (routineNative routine)
  | .call c name times _ => .call c name times .native
  | .attempt step => .attempt step.native
  | .act (.object (.count name _)) => .act (.object (.count name .native))
  | .act (.object (.isUnique name _)) => .act (.object (.isUnique name .native))
  | step => step

def routineNative : Option (Routine Step) → Option (Routine Step)
  | none => none
  | some routine => some routine.native

/-- A routine is entered as before. -/
def Routine.native : Routine Step → Routine Step
  | ⟨convention, label, body⟩ => ⟨convention, label, bodyNative body⟩

def bodyNative : List Step → List Step
  | [] => []
  | step :: rest => step.native :: bodyNative rest

end

/-- Steps that can be taken the native way or the foreign one: a creation without a finalizer or
with a foreign one, and calls on objects that are not null. -/
def Step.portable : Step → Bool
  | .allocate _ _ routine _ _ => routine.all (·.convention == .foreign)
  | .call _ name _ _ => name.isSome
  | .act (.object (.count name _)) | .act (.object (.isUnique name _)) => name.isSome
  | .attempt _ => true
  | _ => false

/-! ### Answers -/

/-- A native answer as a foreign call may give it. -/
inductive Answer.Reads : Answer → Answer → Prop where
  | same (answer : Answer) : Reads answer answer
  | unique (b : Bool) : Reads (.flag b) (.number b.toNat)
  | succeeded {answer answer' : Answer} (h : Reads answer answer') :
    Reads (.succeeded answer) (.succeeded answer')

inductive Event.Reads : Event → Event → Prop where
  | same (event : Event) : Reads event event
  | stepped {answer answer' : Answer} (h : answer.Reads answer') :
    Reads (.stepped answer) (.stepped answer')

/-! ### Heaps -/

def Finalizer.native : Finalizer → Finalizer
  | routine r => routine r.native
  | dropValue => dropValue

def Cell.native (cell : Cell) : Cell :=
  {cell with finalizer := cell.finalizer.map Finalizer.native}

namespace Heap

/-- The same heap with native calls in all finalizers. -/
def native (h : Heap) : Heap :=
  {h with cells := h.cells.map (Option.map Cell.native)}

variable {h : Heap} {o : ObjectId} {c : CellId}

@[simp] theorem link?_native : h.native.link? o = h.link? o := rfl

@[simp] theorem value?_native : h.native.value? o = h.value? o := rfl

/-- Only the finalizer of a cell is another one. -/
@[simp] theorem cell?_native : h.native.cell? c = (h.cell? c).map Cell.native := by
  unfold cell? native
  rw [List.getElem?_map]
  cases h.cells[c]? <;> rfl

@[simp] theorem governing?_native :
    h.native.governing? o = (h.governing? o).map Cell.native := by
  unfold governing?
  rw [link?_native]
  cases h.link? o with
  | none => rfl
  | some c => exact cell?_native

/-- Changes to a cell that leave its finalizer's steps alone. -/
theorem native_updateCell {f g : Cell → Cell} (hfg : ∀ cell, (f cell).native = g cell.native) :
    (h.updateCell c f).native = h.native.updateCell c g := by
  unfold updateCell native
  simp only [Heap.mk.injEq, true_and]
  refine List.ext_getElem? fun d => ?_
  simp only [List.getElem?_map, List.getElem?_modify]
  cases h.cells[d]? with
  | none => rfl
  | some place =>
    by_cases hd : c = d
    · cases place <;> simp [hd, hfg]
    · simp [hd]

theorem native_setLocked (locked : Bool) :
    (h.setLocked c locked).native = h.native.setLocked c locked :=
  native_updateCell fun _ => rfl

theorem native_setCount (count : UInt32) :
    (h.setCount c count).native = h.native.setCount c count :=
  native_updateCell fun _ => rfl

theorem native_takeFinalizer : (h.takeFinalizer c).native = h.native.takeFinalizer c :=
  native_updateCell fun _ => rfl

theorem native_freeCell : (h.freeCell c).native = h.native.freeCell c := by
  unfold freeCell native
  simp [List.map_set]

theorem native_setLink (link : Option CellId) :
    (h.setLink o link).native = h.native.setLink o link := rfl

theorem native_setContents (contents : Contents) :
    (h.setContents o contents).native = h.native.setContents o contents := rfl

/-- A new object gets the finalizer with native calls. -/
theorem native_addObject (size : UInt64) (contents : Contents) (finalizer : Option Finalizer) :
    (h.native.addObject size contents (finalizer.map Finalizer.native)) =
      ((h.addObject size contents finalizer).1, (h.addObject size contents finalizer).2.native) := by
  unfold addObject addCell native
  simp [Cell.native]

end Heap

/-! ### States and outcomes -/

/-- The first state is the second one after native calls. -/
structure State.Parallel (s t : State) : Prop where
  heap : s.heap = t.heap.native
  statistics : s.statistics = t.statistics
  logger : s.logger = t.logger
  faults : s.faults = t.faults
  allocators : s.allocators = t.allocators
  environment : s.environment = t.environment
  configuration : s.configuration = t.configuration
  names : s.names = t.names
  events : List.Forall₂ Event.Reads s.events t.events

/-- Two operations end the same way in parallel states. -/
abbrev Outcome.Parallel (R : α → β → Prop) : Outcome α → Outcome β → Prop :=
  Outcome.Related State.Parallel R

namespace State.Parallel

variable {s t : State} (h : s.Parallel t)
include h

theorem onHeap {f g : Heap → Heap} (hfg : g t.heap.native = (f t.heap).native) :
    (s.onHeap g).Parallel (t.onHeap f) :=
  {h with heap := by rw [State.onHeap, h.heap, hfg, State.onHeap]}

theorem onStatistics (f : Statistics → Statistics) :
    (s.onStatistics f).Parallel (t.onStatistics f) :=
  {h with statistics := congrArg f h.statistics}

theorem onNames (f : Names → Names) : (s.onNames f).Parallel (t.onNames f) :=
  {h with names := congrArg f h.names}

theorem log (entry : Log.Entry) : (s.log entry).Parallel (t.log entry) :=
  {h with logger := congrArg (·.emit entry) h.logger}

theorem observe {event event' : Event} (hread : event.Reads event') :
    (s.observe event).Parallel (t.observe event') :=
  {h with events := .cons hread h.events}

theorem withAllocators (allocators : Allocators) :
    State.Parallel {s with allocators} {t with allocators} :=
  {h with allocators := rfl}

/-- What was observed before a step does not matter once the step begins. -/
theorem fresh : State.Parallel {s with events := []} {t with events := []} :=
  {h with events := .nil}

/-- A native finalizer that is discarded is told of by its label. -/
theorem discard (finalizer : Option Finalizer) :
    (s.discard (finalizer.map Finalizer.native)).Parallel (t.discard finalizer) := by
  match finalizer with
  | none | some .dropValue => exact h
  | some (.routine ⟨.native, label, body⟩) => exact h.observe (.same _)
  | some (.routine ⟨.foreign, label, body⟩) => exact h

end State.Parallel

/-- Parallel states report a fault alike. -/
theorem Outcome.Parallel.report {R : α → β → Prop} {s t : State} (h : s.Parallel t) (f : Fault) :
    (s.report f : Outcome α).Parallel R (t.report f : Outcome β) :=
  Related.report h.faults.symm (fun _ => {h with faults := rfl}) (fun _ _ entry h => h.log entry) f

/-! ### Operations -/

namespace State

variable {s t : State} (h : s.Parallel t)
include h

/-- Slots are the same, so the same objects are gone. -/
theorem parallel_resolve (o : ObjectId) : (s.resolve o).Parallel Eq (t.resolve o) := by
  unfold resolve
  rw [h.heap, Heap.link?_native]
  split
  · exact .returned rfl h
  · exact .report h _

theorem parallel_lock (c : CellId) :
    (s.lock c).Parallel (fun cell cell' => cell = cell'.native) (t.lock c) := by
  unfold lock
  rw [h.heap, Heap.cell?_native]
  cases t.heap.cell? c with
  | none => exact .halted .blocked h
  | some cell =>
    rw [Option.map_some]
    dsimp only
    cases hlocked : cell.locked with
    | true =>
      rw [if_pos (show cell.native.locked = true from hlocked), if_pos rfl]
      exact .halted .blocked h
    | false =>
      rw [if_neg (show ¬ cell.native.locked = true by simp [Cell.native, hlocked]),
        if_neg Bool.false_ne_true]
      refine .returned ?_ (h.onHeap (Heap.native_setLocked true).symm)
      rfl

theorem parallel_unlock (c : CellId) : (s.unlock c).Parallel (t.unlock c) :=
  h.onHeap (Heap.native_setLocked false).symm

/-- What the operations on a count share. -/
theorem parallel_access {R : α → β → Prop} (o : ObjectId)
    {next : CellId → Cell → State → Outcome α} {next' : CellId → Cell → State → Outcome β}
    (hnext : ∀ c cell s t, s.Parallel t →
      (next c (Cell.native cell) s).Parallel R (next' c cell t)) :
    ((s.resolve o).andThen fun c s => (s.lock c).andThen fun cell s => next c cell s).Parallel R
      ((t.resolve o).andThen fun c t => (t.lock c).andThen fun cell t => next' c cell t) :=
  (parallel_resolve h o).andThen fun c _ _ _ hc h => by
    subst hc
    exact (parallel_lock h c).andThen fun cell cell' _ _ hcell h => by
      subst hcell
      exact hnext c cell' _ _ h

/-- Counts are the same, so the same retains are refused. -/
theorem parallel_retain (o : ObjectId) : (s.retain o).Parallel Eq (t.retain o) :=
  parallel_access h o fun c cell s t h => by
    have hsame : cell.native.count = cell.count := rfl
    rw [hsame]
    by_cases hfull : cell.count = maxCount
    · rw [if_pos hfull, if_pos hfull]
      exact .report (parallel_unlock h c) _
    · rw [if_neg hfull, if_neg hfull]
      have hcounted := h.onHeap (Heap.native_setCount (c := c) (h := t.heap) (cell.count + 1)).symm
      exact .returned rfl (((parallel_unlock hcounted c).onStatistics _).log _)

theorem parallel_isUnique (o : ObjectId) : (s.isUnique o).Parallel Eq (t.isUnique o) :=
  parallel_access h o fun c _ _ _ h => .returned rfl (parallel_unlock h c)

theorem parallel_count (o : ObjectId) : (s.count o).Parallel Eq (t.count o) :=
  parallel_access h o fun c _ _ _ h => .returned rfl ((parallel_unlock h c).log _)

/-- A teardown that begins hands over a finalizer with native calls. -/
theorem parallel_release (o : ObjectId) :
    (s.release o).Parallel
      (fun begun begun' => begun = begun'.map fun b => (b.1, b.2.map Finalizer.native))
      (t.release o) :=
  parallel_access h o fun c cell s t h => by
    have hsame : cell.native.count = cell.count := rfl
    rw [hsame]
    by_cases hzero : cell.count = 0
    · rw [if_pos hzero, if_pos hzero]
      exact .report (parallel_unlock h c) _
    · rw [if_neg hzero, if_neg hzero]
      have hcounted := h.onHeap (Heap.native_setCount (c := c) (h := t.heap) (cell.count - 1)).symm
      have hreleased := (hcounted.onStatistics (·.addRelease)).log
        (Transition.released.entry o (cell.count - 1))
      dsimp only
      by_cases hlast : cell.count - 1 = 0
      · rw [if_pos hlast, if_pos hlast]
        refine .returned ?_ ((hreleased.log _).onHeap Heap.native_takeFinalizer.symm)
        rfl
      · rw [if_neg hlast, if_neg hlast]
        refine .returned ?_ (parallel_unlock hreleased c)
        rfl

theorem parallel_freeCell (c : CellId) : (s.freeCell c).Parallel (t.freeCell c) := by
  have hfinalizer : (s.heap.cell? c).bind (·.finalizer) =
      ((t.heap.cell? c).bind (·.finalizer)).map Finalizer.native := by
    rw [h.heap, Heap.cell?_native]
    cases t.heap.cell? c <;> rfl
  unfold freeCell
  rw [hfinalizer]
  exact (h.discard _).onHeap Heap.native_freeCell.symm

/-- A teardown ends with the slot null and the cell freed in both. -/
theorem parallel_finish (teardown : Teardown) :
    (s.finish teardown).Parallel (t.finish teardown) :=
  ((parallel_freeCell (parallel_unlock h teardown.cell) teardown.cell).onHeap
    (Heap.native_setLink none).symm).onStatistics _

/-- The same allocator is asked for the same region. -/
theorem parallel_requestRegion (provider : Option AllocatorId) (layout : Layout) :
    (s.requestRegion provider layout).Parallel Eq (t.requestRegion provider layout) := by
  unfold requestRegion
  rw [h.allocators]
  refine .given h fun q _ => ?_
  have hcharged := h.withAllocators
    (t.allocators.setQuota (q.request (t.allocators.memory layout.size) layout.size).2 provider)
  dsimp only
  cases Allocators.name? _ provider with
  | none => exact .returned rfl hcharged
  | some name => exact .returned rfl (hcharged.observe (.same _))

/-- **An allocation makes the same object** with a finalizer whose calls are native. -/
theorem parallel_allocate (provider : Option AllocatorId) (size : UInt64) (contents : Contents)
    (finalizer : Option Finalizer) :
    (s.allocate provider size contents (finalizer.map Finalizer.native)).Parallel Eq
      (t.allocate provider size contents finalizer) := by
  unfold allocate
  split
  · exact (Outcome.Parallel.report h _).whenUnwinding fun _ _ h => h.discard finalizer
  · refine (parallel_requestRegion h provider _).andThen fun granted granted' s t heq h => ?_
    subst heq
    split
    · have hadded := Heap.native_addObject (h := t.heap) size contents finalizer
      rw [← h.heap] at hadded
      rw [hadded]
      have hcreated : State.Parallel
          {s with heap := (t.heap.addObject size contents finalizer).2.native}
          {t with heap := (t.heap.addObject size contents finalizer).2} := {h with heap := rfl}
      exact .returned rfl ((hcreated.onStatistics _).log _)
    · exact .halted .aborted h

end State
end Custody
