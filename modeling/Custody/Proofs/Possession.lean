import Custody.Proofs.Atomicity

/-! What belongs to an object alone.

An object and the cell that was made for it carry the same number, and what an operation on the
object does to the heap, it does to these two (`Heap.put`). Everything else it does is added to
what all objects share: counters go up and events are told (`Gain`). Additions come out the same in
any order, and so do changes to different objects. -/
namespace Custody

/-! ### An object and its cell -/

/-- An object with the cell that was made for it, unless that has been freed. -/
structure Own where
  object : Object
  cell : Option Cell

namespace Heap

/-- What belongs to an object alone. -/
def own? (h : Heap) (o : ObjectId) : Option Own :=
  match h.objects[o]?, h.cells[o]? with
  | some object, some cell => some ⟨object, cell⟩
  | _, _ => none

/-- A heap in which something else belongs to an object. -/
def put (o : ObjectId) (w : Own) (h : Heap) : Heap where
  objects := h.objects.set o w.object
  cells := h.cells.set o w.cell

variable {h : Heap} {o p : ObjectId} {v w : Own}

theorem own?_eq_some_iff :
    h.own? o = some w ↔ h.objects[o]? = some w.object ∧ h.cells[o]? = some w.cell := by
  unfold own?
  constructor
  · intro hown
    split at hown
    · next object cell hobject hcell =>
      cases hown
      exact ⟨hobject, hcell⟩
    · cases hown
  · rintro ⟨hobject, hcell⟩
    rw [hobject, hcell]

theorem own?_isSome (ho : o < h.objects.length) (hc : o < h.cells.length) :
    ∃ w, h.own? o = some w :=
  ⟨⟨h.objects[o], h.cells[o]⟩,
    own?_eq_some_iff.2 ⟨List.getElem?_eq_getElem ho, List.getElem?_eq_getElem hc⟩⟩

theorem lt_of_own? (hw : h.own? o = some w) : o < h.objects.length :=
  (List.getElem?_eq_some_iff.1 (own?_eq_some_iff.1 hw).1).1

/-! ### What is looked up -/

theorem object?_of_own? (hw : h.own? o = some w) : h.object? o = some w.object :=
  (own?_eq_some_iff.1 hw).1

theorem link?_of_own? (hw : h.own? o = some w) : h.link? o = w.object.link := by
  rw [link?, object?_of_own? hw, Option.bind_some]

theorem cell?_of_own? (hw : h.own? o = some w) : h.cell? o = w.cell := by
  rw [cell?, (own?_eq_some_iff.1 hw).2]
  rfl

/-! ### What is put -/

theorem own?_put_self (hw : h.own? o = some v) : (h.put o w).own? o = some w := by
  obtain ⟨hobject, hcell⟩ := own?_eq_some_iff.1 hw
  have hlo := (List.getElem?_eq_some_iff.1 hobject).1
  have hlc := (List.getElem?_eq_some_iff.1 hcell).1
  exact own?_eq_some_iff.2 ⟨List.getElem?_set_self hlo, List.getElem?_set_self hlc⟩

/-- What belongs to one object is put in its place and nowhere else. -/
theorem own?_put_of_ne (hne : o ≠ p) : (h.put o w).own? p = h.own? p := by
  unfold own? put
  rw [List.getElem?_set_ne hne, List.getElem?_set_ne hne]

theorem put_put : (h.put o v).put o w = h.put o w := by
  unfold put
  rw [List.set_set, List.set_set]

/-- Changes to different objects come out the same in either order. -/
theorem put_comm (hne : o ≠ p) : (h.put o v).put p w = (h.put p w).put o v := by
  unfold put
  rw [List.set_comm _ _ hne, List.set_comm _ _ hne]

/-- Putting back what is there changes nothing. -/
theorem put_self (hw : h.own? o = some w) : h.put o w = h := by
  obtain ⟨hobject, hcell⟩ := own?_eq_some_iff.1 hw
  have hset {α : Type} {l : List α} {x : α} (hx : l[o]? = some x) : l.set o x = l := by
    obtain ⟨hlt, rfl⟩ := List.getElem?_eq_some_iff.1 hx
    exact List.set_getElem_self hlt
  unfold put
  rw [hset hobject, hset hcell]

@[simp] theorem length_objects_put : (h.put o w).objects.length = h.objects.length :=
  List.length_set

@[simp] theorem length_cells_put : (h.put o w).cells.length = h.cells.length :=
  List.length_set

/-! ### The changes that operations make -/

theorem modify_of_getElem? {l : List α} {x : α} (hx : l[o]? = some x) (f : α → α) :
    l.modify o f = l.set o (f x) := by
  obtain ⟨hlt, rfl⟩ := List.getElem?_eq_some_iff.1 hx
  apply List.ext_getElem?
  intro i
  rw [List.getElem?_modify, List.getElem?_set]
  by_cases hi : o = i
  · subst hi
    simp [hlt]
  · simp [hi]

/-- A change to a cell is a change to what belongs to its object. -/
theorem updateCell_eq_put (hw : h.own? o = some w) (f : Cell → Cell) :
    h.updateCell o f = h.put o {w with cell := w.cell.map f} := by
  obtain ⟨hobject, hcell⟩ := own?_eq_some_iff.1 hw
  have hobjects : h.objects.set o w.object = h.objects := congrArg objects (put_self hw)
  unfold updateCell put
  rw [modify_of_getElem? hcell, hobjects]

theorem updateObject_eq_put (hw : h.own? o = some w) (f : Object → Object) :
    h.updateObject o f = h.put o {w with object := f w.object} := by
  obtain ⟨hobject, hcell⟩ := own?_eq_some_iff.1 hw
  have hcells : h.cells.set o w.cell = h.cells := congrArg cells (put_self hw)
  unfold updateObject put
  rw [modify_of_getElem? hobject, hcells]

/-- A teardown that ends leaves its object with a null slot and without a cell. -/
theorem bury_eq_put (hw : h.own? o = some w) :
    h.bury ⟨o, o⟩ = h.put o ⟨{w.object with link := none}, none⟩ := by
  have hfree : h.freeCell o = h.put o {w with cell := none} := by
    have hobjects : h.objects.set o w.object = h.objects := congrArg objects (put_self hw)
    unfold freeCell put
    rw [hobjects]
  have hfreed : (h.put o {w with cell := none}).own? o = some {w with cell := none} :=
    own?_put_self hw
  unfold bury setLink
  rw [hfree, updateObject_eq_put hfreed, put_put]

/-- A new object has its cell at its own number, as long as there are as many of either. -/
theorem own?_addObject (hlength : h.objects.length = h.cells.length) (size : UInt64)
    (contents : Contents) (finalizer : Option Finalizer) :
    (h.addObject size contents finalizer).2.own? p =
      if p = h.objects.length then
        some ⟨⟨size, some h.objects.length, contents⟩, some {finalizer}⟩
      else h.own? p := by
  unfold own? addObject addCell
  simp only [getElem?_snoc, ← hlength]
  by_cases hp : p = h.objects.length
  · simp only [hp, if_true]
  · simp only [hp, if_false]

end Heap

/-! ### What is added -/

instance : Add Statistics where
  add s t :=
    { allocations := s.allocations + t.allocations
      deallocations := s.deallocations + t.deallocations
      payloadBytes := s.payloadBytes + t.payloadBytes
      retains := s.retains + t.retains
      releases := s.releases + t.releases }

namespace Statistics

theorem add_def (s t : Statistics) :
    s + t = ⟨s.allocations + t.allocations, s.deallocations + t.deallocations,
      s.payloadBytes + t.payloadBytes, s.retains + t.retains, s.releases + t.releases⟩ := rfl

theorem add_assoc (s t u : Statistics) : s + t + u = s + (t + u) := by
  simp only [add_def, UInt64.add_assoc]

theorem add_right_comm (s t u : Statistics) : s + t + u = s + u + t := by
  simp only [add_def, mk.injEq, UInt64.add_assoc]
  refine ⟨?_, ?_, ?_, ?_, ?_⟩ <;> exact congrArg _ (UInt64.add_comm _ _)

@[simp] theorem add_zero (s : Statistics) : s + {} = s := by
  simp [add_def]

end Statistics

/-- What is added to what all objects share. -/
structure Gain where
  statistics : Statistics := {}
  faults : UInt64 := 0
  /-- Newest first. -/
  events : List Event := []

namespace Gain

def on (g : Gain) (s : State) : State :=
  {s with
    statistics := s.statistics + g.statistics
    faults := {s.faults with count := s.faults.count + g.faults}
    events := g.events ++ s.events}

/-- One addition after the other. -/
def followed (g g' : Gain) : Gain where
  statistics := g.statistics + g'.statistics
  faults := g.faults + g'.faults
  events := g'.events ++ g.events

/-- Gains one after the other add up. -/
theorem on_on (g g' : Gain) (s : State) : g'.on (g.on s) = (g.followed g').on s := by
  simp only [on, followed, Statistics.add_assoc, UInt64.add_assoc, List.append_assoc]

@[simp] theorem on_zero (s : State) : on {} s = s := by
  simp [on]

end Gain

/-! ### What is only written down -/

/-- An answer without what it tells of counters, settings and the log: of what was attempted, and
whether it failed, nothing is lost. -/
def Answer.outline : Answer → Answer
  | .succeeded answer => .succeeded answer.outline
  | .failed cause => .failed cause
  | _ => .nothing

def Event.outline : Event → Event
  | .stepped answer => .stepped answer.outline
  | event => event

/-! ### Numbers of objects -/

def Address.unnumbered : Address → Address
  | .object _ => .object 0
  | address => address

def Fault.unnumbered : Fault → Fault
  | useAfterFree a => useAfterFree a.unnumbered
  | retainOverflow a count => retainOverflow a.unnumbered count
  | releaseUnderflow a => releaseUnderflow a.unnumbered
  | teardownViolation a count => teardownViolation a.unnumbered count
  | f => f

def Cause.unnumbered : Cause → Cause
  | panic message => panic message
  | fault f => fault f.unnumbered
  | reported f => reported f.unnumbered

def Answer.unnumbered : Answer → Answer
  | succeeded answer => succeeded answer.unnumbered
  | failed cause => failed cause.unnumbered
  | answer => answer

def Event.unnumbered : Event → Event
  | entered label _ locked => entered label 0 locked
  | stepped answer => stepped answer.unnumbered
  | event => event

def Gain.unnumbered (g : Gain) : Gain :=
  {g with events := g.events.map Event.unnumbered}

/-- What is gained does not depend on the numbers that events tell. -/
theorem Gain.unnumbered_followed (g g' : Gain) :
    (g.followed g').unnumbered = g.unnumbered.followed g'.unnumbered := by
  simp [unnumbered, followed]

/-- How a fault is raised does not depend on the number of its object. -/
theorem FaultHandling.raises_unnumbered {faults : FaultHandling} {raise : Fault → Cause}
    (h : faults.raises = some raise) {f f' : Fault} (hf : f'.unnumbered = f.unnumbered) :
    (raise f').unnumbered = (raise f).unnumbered := by
  unfold raises at h
  split at h <;> cases h
  · exact congrArg Cause.reported hf
  · exact congrArg Cause.fault hf

namespace Own

variable {w : Own} {o p : ObjectId}

/-- What belongs to the object, under another number. -/
def numbered (w : Own) (o : ObjectId) : Own :=
  {w with object := {w.object with link := w.object.link.map fun _ => o}}

@[simp] theorem cell_numbered : (w.numbered o).cell = w.cell := rfl

@[simp] theorem contents_numbered : (w.numbered o).object.contents = w.object.contents := rfl

@[simp] theorem link_numbered : (w.numbered o).object.link = w.object.link.map fun _ => o := rfl

@[simp] theorem numbered_numbered : (w.numbered o).numbered p = w.numbered p := by
  simp [numbered, Function.comp_def]

end Own

namespace State

/-- A state without its log and its variables, with the answers inside finalizers in outline. -/
def hushed (s : State) : State :=
  {s with logger := {}, environment := [], events := s.events.map Event.outline}

/-- A state without what was written down. -/
def bare (s : State) : State :=
  {s with logger := {}, environment := [], events := []}

variable {s t : State}

theorem hushed_observe (event : Event) (s : State) :
    (s.observe event).hushed = Gain.on {events := [event.outline]} s.hushed := by
  simp [hushed, observe, Gain.on]

theorem hushed_noted (f : Fault) (s : State) :
    (s.noted f).hushed = Gain.on {faults := 1} s.hushed := by
  simp [hushed, noted, Gain.on]

theorem hushed_discard (finalizer : Option Finalizer) (s : State) :
    (s.discard finalizer).hushed = Gain.on {events := View.discarded finalizer} s.hushed := by
  have houtline : (View.discarded finalizer).map Event.outline = View.discarded finalizer := by
    rcases finalizer with _ | ⟨⟨_ | _, label, body⟩⟩ | _ <;> rfl
  rw [discard_eq]
  simp [hushed, Gain.on, houtline]

theorem raises_of_hushed {g : Gain} {raise : Fault → Cause} (h : t.hushed.faults = (g.on s).faults)
    (hs : s.faults.raises = some raise) : t.faults.raises = some raise := by
  have hfaults : t.faults = {s.faults with count := s.faults.count + g.faults} := h
  rw [hfaults]
  exact hs

end State

end Custody
