import Custody.Proofs.Arrivals
import Custody.Proofs.Stage

/-! Steps that each concern one object.

In a session of allocations and of steps on single objects every object keeps the cell that was
made for it (`State.Orderly`). What a step comes to then follows from its object alone, or from the
allocators alone (`Step.Yields`), and it leaves every other object as it was (`State.Alike`). -/
namespace Custody

/-- Allocations with finalizers that touch no object, and steps on one object. -/
def Step.solitary : Step → Bool
  | .allocate _ _ routine _ _ => routine.all Routine.detached
  | step => step.name?.isSome

/-- A step of a session ends this way, tells of this, newest first, and leaves this state, but for
what is written down. -/
structure Step.Yields (step : Step) (s : State) (e : Ending) (told : List Event) (t : State) :
    Prop where
  control : (Session.runStep step s).control = e.control
  told : (Session.runStep step s).state.events.map Event.outline = told
  state : (Session.runStep step s).state.bare = t.bare

/-- Objects and cells come in pairs, nobody is at work on any of them, no object has two names, and
faults unwind. -/
structure State.Orderly (raise : Fault → Cause) (s : State) : Prop where
  raises : s.faults.raises = some raise
  paired : s.heap.objects.length = s.heap.cells.length
  settled (o : ObjectId) (w : Own) (own : s.heap.own? o = some w) : w.Settled o
  named (name : String) (o : ObjectId) (found : s.names.objects.find? name = some o) :
    o < s.heap.objects.length
  distinct (name other : String) (o : ObjectId) (found : s.names.objects.find? name = some o)
    (found' : s.names.objects.find? other = some o) : name = other

section Steps

variable {raise : Fault → Cause} {name : String} {o : ObjectId} {w : Own} {s t : State}
  {step : Step}

theorem Step.Yields.of_ends {e : Ending} {u : State}
    (h : (Machine.start step {s with events := []}).Ends u e []) (hu : u.hushed = t) :
    step.Yields s e t.events t := by
  obtain ⟨hstate, hcontrol⟩ := h.rest
  subst hu
  exact ⟨hcontrol, congrArg (·.events.map Event.outline) hstate,
    (congrArg State.bare hstate).trans rfl⟩

theorem Step.Yields.result? {e : Ending} {told : List Event} (h : step.Yields s e told t) :
    (Session.runStep step s).control.result? = e.result? :=
  congrArg Control.result? h.control

/-- **A step on an object comes to what follows from the object**, whatever number it has. -/
theorem Step.exists_yields_uniformly {faults : FaultHandling} (hraise : faults.raises = some raise)
    (hname : step.name? = some name) (hw : w.Settled o) :
    ∃ e : ObjectId → Effect, Effect.Uniform e ∧
      (step.lasting = true → ∀ p, (e p).ending.result?.isSome) ∧
      ∀ p (s : State), s.Shows raise name p (w.numbered p) →
        step.Yields s (e p).ending (e p).gain.events ((e p).on p s) := by
  obtain ⟨e, he, huniform, hlasting⟩ := step.exists_of hraise hname hw
  refine ⟨e, huniform, hlasting, fun p s h => ?_⟩
  obtain ⟨t, ht, hstate⟩ := he p {s with events := []} [] ⟨h.raises, h.named, h.own⟩
  have hyields := Step.Yields.of_ends ht hstate
  exact ⟨hyields.control, hyields.told.trans (List.append_nil _), hyields.state⟩

theorem Step.exists_yields_of_named {faults : FaultHandling} (hraise : faults.raises = some raise)
    (hname : step.name? = some name) (hw : w.Settled o) :
    ∃ e : Effect, e.own.Settled o ∧ (step.lasting = true → e.ending.result?.isSome) ∧
      ∀ s : State, s.Shows raise name o w → step.Yields s e.ending e.gain.events (e.on o s) := by
  obtain ⟨e, huniform, hlasting, hyields⟩ := step.exists_yields_uniformly hraise hname hw
  refine ⟨e o, huniform.settled o, fun h => hlasting h o, fun s h => hyields o s ?_⟩
  rwa [hw.numbered_self]

/-- **An allocation comes to what follows from the allocators.** -/
theorem State.Supplies.yields_allocate {a : Allocators} {names : Bindings AllocatorId}
    (h : s.Supplies raise a names) (name : String) (size : UInt64)
    (routine : Option (Routine Step)) (provider : Option String) (via : Convention) :
    (Step.allocate name size routine provider via).Yields s
      (Step.arrival raise names size routine provider via a).ending
      (Step.arrival raise names size routine provider via a).gain.events
      ((Step.arrival raise names size routine provider via a).on name s) := by
  have hs : ({s with events := []} : State).Supplies raise a names :=
    ⟨h.raises, h.allocators, h.names⟩
  obtain ⟨t, ht, hstate⟩ := hs.ends_allocate name size routine provider via []
  have hyields := Step.Yields.of_ends ht hstate
  have htold := (Step.arrival raise names size routine provider via a).events_on name
    ({s with events := []} : State).hushed
  exact ⟨hyields.control, hyields.told.trans (htold.trans (List.append_nil _)),
    hyields.state.trans (Arrival.bare_on _ name s)⟩

/-- A step on a name that stands for nothing leaves everything as it was. -/
theorem Step.exists_yields_of_unnamed (hname : step.name? = some name) :
    ∃ e : Ending, ∀ s : State, s.names.objects.find? name = none → step.Yields s e [] s := by
  obtain ⟨e, he⟩ := step.exists_ends_of_unnamed hname
  refine ⟨e, fun s hnone => ?_⟩
  have hyields := Step.Yields.of_ends (he {s with events := []} [] hnone) rfl
  exact ⟨hyields.control, hyields.told, hyields.state⟩

/-! ### Order is kept -/

theorem State.Fresh.orderly (h : s.Fresh) (hraise : s.faults.raises = some raise) :
    s.Orderly raise where
  raises := hraise
  paired := by
    rw [h.heap]
    rfl
  settled o w hw := by
    rw [h.heap] at hw
    cases hw
  named name o hname := by
    rw [h.objects] at hname
    cases hname
  distinct name other o hname := by
    rw [h.objects] at hname
    cases hname

namespace State

theorem heap_eq_of_bare (h : t.bare = s.bare) : t.heap = s.heap := by
  have hheap := congrArg heap h
  exact hheap

theorem names_eq_of_bare (h : t.bare = s.bare) : t.names = s.names := by
  have hnames := congrArg names h
  exact hnames

theorem faults_eq_of_bare (h : t.bare = s.bare) : t.faults = s.faults := by
  have hfaults := congrArg faults h
  exact hfaults

theorem allocators_eq_of_bare (h : t.bare = s.bare) : t.allocators = s.allocators := by
  have hallocators := congrArg allocators h
  exact hallocators

namespace Orderly

theorem of_bare (h : s.Orderly raise) (ht : t.bare = s.bare) : t.Orderly raise where
  raises := faults_eq_of_bare ht ▸ h.raises
  paired := heap_eq_of_bare ht ▸ h.paired
  settled := heap_eq_of_bare ht ▸ h.settled
  named := heap_eq_of_bare ht ▸ names_eq_of_bare ht ▸ h.named
  distinct := names_eq_of_bare ht ▸ h.distinct

/-- Whatever a name stands for is an object that is there. -/
theorem exists_shows (h : s.Orderly raise) (hname : s.names.objects.find? name = some o) :
    ∃ w, s.Shows raise name o w ∧ w.Settled o := by
  have hlt := h.named name o hname
  obtain ⟨w, hw⟩ := Heap.own?_isSome hlt (h.paired ▸ hlt)
  exact ⟨w, ⟨h.raises, hname, hw⟩, h.settled o w hw⟩

theorem on_effect {e : Effect} (h : s.Orderly raise) (hw : s.heap.own? o = some w)
    (he : e.own.Settled o) : (e.on o s).Orderly raise where
  raises := h.raises
  paired := by
    show (s.heap.put o e.own).objects.length = (s.heap.put o e.own).cells.length
    rw [Heap.length_objects_put, Heap.length_cells_put, h.paired]
  settled p v hv := by
    have hv' : (s.heap.put o e.own).own? p = some v := hv
    by_cases hp : o = p
    · subst hp
      rw [Heap.own?_put_self hw] at hv'
      cases hv'
      exact he
    · rw [Heap.own?_put_of_ne hp] at hv'
      exact h.settled p v hv'
  named name' p hp := by
    show p < (s.heap.put o e.own).objects.length
    rw [Heap.length_objects_put]
    exact h.named name' p hp
  distinct := h.distinct

theorem on_arrival {r : Arrival} (h : s.Orderly raise)
    (hmade : ∀ size f, r.made = some (size, f) → Finalizer.detached f = true) :
    (r.on name s).Orderly raise := by
  unfold Arrival.on
  split
  · exact ⟨h.raises, h.paired, h.settled, h.named, h.distinct⟩
  · next size finalizer heq =>
    -- The new name is the only one for the new number, which no other name has reached.
    have hfind {other : String} {p : ObjectId}
        (hp : (s.names.objects.bind name s.heap.objects.length).find? other = some p) :
        other = name ∧ p = s.heap.objects.length ∨
          other ≠ name ∧ s.names.objects.find? other = some p := by
      by_cases hname : other = name
      · rw [hname, Bindings.find?_bind_self] at hp
        exact .inl ⟨hname, (Option.some.inj hp).symm⟩
      · exact .inr ⟨hname, (Bindings.find?_bind_of_ne _ _ hname).symm.trans hp⟩
    refine ⟨h.raises, ?_, fun p v hv => ?_, fun other p hp => ?_, fun other other' p hp hp' => ?_⟩
    · simp [Gain.on, Heap.addObject, Heap.addCell, h.paired]
    · have hv' : (s.heap.addObject size (.bytes []) finalizer).2.own? p = some v := hv
      rw [Heap.own?_addObject h.paired] at hv'
      split at hv'
      · next hp =>
        cases hv'
        exact .live {finalizer} (by rw [hp]) rfl rfl (hmade _ _ heq)
      · exact h.settled p v hv'
    · show p < (s.heap.objects ++ [_]).length
      rw [List.length_append, List.length_singleton]
      rcases hfind hp with ⟨-, rfl⟩ | ⟨-, hfound⟩
      · exact Nat.lt_succ_self _
      · exact Nat.lt_succ_of_lt (h.named other p hfound)
    · rcases hfind hp with ⟨rfl, rfl⟩ | ⟨-, hfound⟩ <;>
        rcases hfind hp' with ⟨rfl, heq'⟩ | ⟨-, hfound'⟩
      · rfl
      · exact absurd (h.named other' _ hfound') (Nat.lt_irrefl _)
      · exact absurd (heq' ▸ h.named other p hfound) (Nat.lt_irrefl _)
      · exact h.distinct other other' p hfound hfound'

end Orderly

/-! ### Other objects stay as they are -/

/-- The states agree about an object, about how many there are and what they are called, and about
the allocators. -/
structure Alike (x : ObjectId) (s t : State) : Prop where
  names : t.names = s.names
  allocators : t.allocators = s.allocators
  length : t.heap.objects.length = s.heap.objects.length
  own : t.heap.own? x = s.heap.own? x

namespace Alike

variable {x : ObjectId} {u : State}

protected theorem refl (x : ObjectId) (s : State) : s.Alike x s := ⟨rfl, rfl, rfl, rfl⟩

theorem symm (h : s.Alike x t) : t.Alike x s :=
  ⟨h.names.symm, h.allocators.symm, h.length.symm, h.own.symm⟩

theorem trans (h : s.Alike x t) (h' : t.Alike x u) : s.Alike x u :=
  ⟨h'.names.trans h.names, h'.allocators.trans h.allocators, h'.length.trans h.length,
    h'.own.trans h.own⟩

theorem of_bare (h : t.bare = s.bare) : s.Alike x t where
  names := names_eq_of_bare h
  allocators := allocators_eq_of_bare h
  length := by rw [heap_eq_of_bare h]
  own := by rw [heap_eq_of_bare h]

/-- **An operation on another object does not show.** -/
theorem on_effect_of_ne (e : Effect) (hne : o ≠ x) (s : State) : s.Alike x (e.on o s) where
  names := rfl
  allocators := rfl
  length := Heap.length_objects_put
  own := Heap.own?_put_of_ne hne

theorem on_effect (h : s.Alike x t) (e : Effect) (hw : s.heap.own? x = some w) :
    (e.on x s).Alike x (e.on x t) where
  names := h.names
  allocators := h.allocators
  length := Heap.length_objects_put.trans (h.length.trans Heap.length_objects_put.symm)
  own := (Heap.own?_put_self (h.own.trans hw)).trans (Heap.own?_put_self hw).symm

theorem on_arrival (h : s.Alike x t) (hs : s.Orderly raise) (ht : t.Orderly raise) (r : Arrival)
    (name : String) : (r.on name s).Alike x (r.on name t) := by
  unfold Arrival.on
  split
  · exact ⟨h.names, rfl, h.length, h.own⟩
  · next size finalizer heq =>
    refine ⟨?_, rfl, ?_, ?_⟩
    · simp only [Gain.on, h.names, h.length]
    · simp [Gain.on, Heap.addObject, Heap.addCell, h.length]
    · show (t.heap.addObject size (.bytes []) finalizer).2.own? x =
        (s.heap.addObject size (.bytes []) finalizer).2.own? x
      rw [Heap.own?_addObject ht.paired, Heap.own?_addObject hs.paired, h.length, h.own]

/-- What can be looked up about the object is the same. -/
theorem looked_up (h : s.Alike x t) (hs : s.Orderly raise) :
    t.heap.object? x = s.heap.object? x ∧ t.heap.governing? x = s.heap.governing? x := by
  by_cases hx : x < s.heap.objects.length
  · obtain ⟨w, hw⟩ := Heap.own?_isSome hx (hs.paired ▸ hx)
    have hw' := h.own.trans hw
    refine ⟨(Heap.object?_of_own? hw').trans (Heap.object?_of_own? hw).symm, ?_⟩
    unfold Heap.governing?
    rw [Heap.link?_of_own? hw', Heap.link?_of_own? hw]
    cases hs.settled x w hw with
    | gone link => rw [link, Option.bind_none, Option.bind_none]
    | live cell link found unlocked detached =>
      rw [link, Option.bind_some, Option.bind_some, Heap.cell?_of_own? hw', Heap.cell?_of_own? hw]
  · have hnone {u : State} (hu : u.heap.objects.length = s.heap.objects.length) :
        u.heap.object? x = none :=
      List.getElem?_eq_none (hu ▸ Nat.le_of_not_lt hx)
    have hnone_s := hnone (u := s) rfl
    have hnone_t := hnone h.length
    refine ⟨hnone_t.trans hnone_s.symm, ?_⟩
    unfold Heap.governing? Heap.link?
    rw [hnone_s, hnone_t]
    rfl

end Alike
end State

end Steps
end Custody
