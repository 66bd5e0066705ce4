import Custody.Proofs.Effects

/-! What bringing an object into being does, as a function of the allocators alone.

Which objects are there already matters for nothing but the number of the new one. -/
namespace Custody

/-- What comes of an allocation: the size and the finalizer of the new object, if there is one, the
accounts of the allocators, what is added, and how it ends. -/
structure Arrival where
  made : Option (UInt64 × Option Finalizer) := none
  allocators : Allocators
  gain : Gain := {}
  ending : Ending

namespace Arrival

/-- The new object has the next number. -/
def on (a : Arrival) (name : String) (s : State) : State :=
  a.gain.on (match a.made with
    | none => {s with allocators := a.allocators}
    | some (size, finalizer) =>
      {s with
        allocators := a.allocators
        heap := (s.heap.addObject size (.bytes []) finalizer).2
        names := {s.names with objects := s.names.objects.bind name s.heap.objects.length}})

theorem events_on (a : Arrival) (name : String) (s : State) :
    (a.on name s).events = a.gain.events ++ s.events := by
  unfold on
  cases a.made <;> rfl

/-- What was written down does not matter. -/
theorem bare_on (a : Arrival) (name : String) (s : State) :
    (a.on name s.bare).bare = (a.on name s).bare := by
  unfold on
  cases a.made <;> rfl

variable {r : Arrival} {name : String} {s : State}

@[simp] theorem allocators_on : (r.on name s).allocators = r.allocators := by
  unfold on
  cases r.made <;> rfl

@[simp] theorem suppliers_on : (r.on name s).names.allocators = s.names.allocators := by
  unfold on
  cases r.made <;> rfl

@[simp] theorem statistics_on :
    (r.on name s).statistics = s.statistics + r.gain.statistics := by
  unfold on
  cases r.made <;> rfl

@[simp] theorem faults_on :
    (r.on name s).faults = {s.faults with count := s.faults.count + r.gain.faults} := by
  unfold on
  cases r.made <;> rfl

/-- The allocation ends this way and comes to this, up to what is only written down. -/
abbrev Fits (a : Arrival) (name : String) (s : State) (out : Outcome Answer) : Prop :=
  out.ComesTo a.ending (a.on name s.hushed)

end Arrival

theorem Statistics.addAllocation_eq (st : Statistics) (size : UInt64) :
    st.addAllocation size = st + {allocations := 1, payloadBytes := size} := by
  simp [addAllocation, add_def]

namespace Allocators

/-- The allocator that serves a request, by the names that are in force. -/
def serving? (a : Allocators) (names : Bindings AllocatorId) :
    Option String → Option (Option AllocatorId)
  | none => some a.installed
  | some name => (names.find? name).map some

/-- How a custom allocator is seen to be asked. -/
def asked (a : Allocators) (provider : Option AllocatorId) (layout : Layout) (granted : Bool) :
    List Event :=
  (a.name? provider).toList.map fun name => .requested name layout.size layout.align granted

variable {a : Allocators} {provider other : Option AllocatorId} {q q' : Quota}

@[simp] theorem name?_setQuota : (a.setQuota q provider).name? other = a.name? other := by
  cases provider with
  | none => rfl
  | some i =>
    cases other with
    | none => rfl
    | some j =>
      simp only [name?, setQuota, Option.bind_some, List.getElem?_modify]
      cases a.custom[j]? with
      | none => rfl
      | some allocator => by_cases hij : i = j <;> simp [hij]

end Allocators

theorem State.requestRegion_of_quota {provider : Option AllocatorId} {q : Quota} {s : State}
    (hq : s.allocators.quota? provider = some q) (layout : Layout) :
    s.requestRegion provider layout =
      .returned (q.request (s.allocators.memory layout.size) layout.size).1
        {s with
          allocators :=
            s.allocators.setQuota (q.request (s.allocators.memory layout.size) layout.size).2 provider
          events := s.allocators.asked provider layout
            (q.request (s.allocators.memory layout.size) layout.size).1 ++ s.events} := by
  unfold requestRegion Allocators.asked
  simp only [hq, given, Allocators.name?_setQuota]
  cases s.allocators.name? provider <;> rfl

/-! ### Allocations -/

/-- What a request for an object comes to. -/
def Allocators.arrival (raise : Fault → Cause) (provider : Option AllocatorId) (size : UInt64)
    (finalizer : Option Finalizer) (a : Allocators) : Arrival :=
  match Layout.ofPayload? size with
  | none =>
    { allocators := a
      gain := Gain.followed {faults := 1} {events := View.discarded finalizer}
      ending := .failed (raise (.layoutOverflow size)) }
  | some layout =>
    match a.quota? provider with
    | none => {allocators := a, ending := .stopped .malformed}
    | some q =>
      match q.request (a.memory layout.size) layout.size with
      | (false, q') =>
        { allocators := a.setQuota q' provider
          gain := {events := a.asked provider layout false}
          ending := .stopped .aborted }
      | (true, q') =>
        { made := some (size, finalizer)
          allocators := a.setQuota q' provider
          gain :=
            { statistics := {allocations := 1, payloadBytes := size}
              events := a.asked provider layout true }
          ending := .answered (.created (Layout.payloadOf 0 % Layout.regionAlign)) }

/-- What an allocation by name comes to. -/
def Step.arrival (raise : Fault → Cause) (names : Bindings AllocatorId) (size : UInt64)
    (routine : Option (Routine Step)) (provider : Option String) (via : Convention)
    (a : Allocators) : Arrival :=
  match a.serving? names provider with
  | none => {allocators := a, ending := .stopped .malformed}
  | some provider =>
    let r := a.arrival raise provider size ((Machine.passedRoutine via routine).map .routine)
    {r with ending := r.ending.through via}

section Allocations

variable {raise : Fault → Cause} {a : Allocators} {names : Bindings AllocatorId} {s : State}

/-- What an allocation depends on. -/
structure State.Supplies (raise : Fault → Cause) (a : Allocators) (names : Bindings AllocatorId)
    (s : State) : Prop where
  raises : s.faults.raises = some raise
  allocators : s.allocators = a
  names : s.names.allocators = names

/-- An allocation from a given allocator comes to what follows from its account. -/
theorem State.Supplies.fits_allocate (h : s.Supplies raise a names) (name : String)
    (provider : Option AllocatorId) (size : UInt64) (finalizer : Option Finalizer) :
    (a.arrival raise provider size finalizer).Fits name s
      ((s.allocate provider size (.bytes []) finalizer).andThen (Machine.created name)) := by
  have hkept : ({s.hushed with allocators := a} : State) = s.hushed := by
    rw [← h.allocators]
    rfl
  unfold Allocators.arrival
  cases hlayout : Layout.ofPayload? size with
  | none =>
    have hout : (s.allocate provider size (.bytes []) finalizer).andThen (Machine.created name) =
        .unwound (raise (.layoutOverflow size))
          ((s.noted (.layoutOverflow size)).discard finalizer) := by
      simp only [State.allocate, hlayout, State.report_of_raises h.raises, Outcome.whenUnwinding,
        Outcome.andThen_unwound]
    rw [hout]
    refine ⟨rfl, ?_⟩
    show State.hushed _ = Gain.on _ {s.hushed with allocators := a}
    rw [hkept, ← Gain.on_on, ← State.hushed_noted, ← State.hushed_discard]
    rfl
  | some layout =>
    cases hq : a.quota? provider with
    | none =>
      have hout : (s.allocate provider size (.bytes []) finalizer).andThen (Machine.created name) =
          .halted .malformed s := by
        simp only [State.allocate, hlayout, State.requestRegion, State.given, h.allocators, hq,
          Outcome.andThen_halted]
      rw [hout]
      refine ⟨rfl, ?_⟩
      show _ = Gain.on {} {s.hushed with allocators := a}
      rw [hkept, Gain.on_zero]
      rfl
    | some q =>
      have hregion := State.requestRegion_of_quota (h.allocators ▸ hq) layout
      rw [h.allocators] at hregion
      have houtline (granted : Bool) : (a.asked provider layout granted).map Event.outline =
          a.asked provider layout granted := by
        unfold Allocators.asked
        cases a.name? provider <;> rfl
      simp only
      cases hrequest : q.request (a.memory layout.size) layout.size with
      | mk granted q' =>
        rw [hrequest] at hregion
        cases granted with
        | false =>
          simp only [State.allocate, hlayout, hregion, Outcome.andThen_returned]
          refine ⟨rfl, ?_⟩
          simp [Outcome.state, State.hushed, Arrival.on, Gain.on, houtline]
        | true =>
          simp only [State.allocate, hlayout, hregion, Outcome.andThen_returned]
          refine ⟨rfl, ?_⟩
          simp [Outcome.state, Machine.created, State.nameObject, State.onNames, State.trace,
            State.log, State.onStatistics, State.hushed, Arrival.on, Gain.on, houtline,
            Statistics.addAllocation_eq, Heap.addObject, Heap.addCell]

/-- **An allocation comes to what follows from the allocators alone**, but for the number of the
new object. -/
theorem State.Supplies.ends_allocate (h : s.Supplies raise a names) (name : String) (size : UInt64)
    (routine : Option (Routine Step)) (provider : Option String) (via : Convention)
    (stack : List Frame) :
    ∃ t, Machine.Ends ⟨s, .perform (.allocate name size routine provider via), stack⟩ t
        (Step.arrival raise names size routine provider via a).ending stack ∧
      t.hushed = (Step.arrival raise names size routine provider via a).on name s.hushed := by
  have hprovider : s.provider? provider = a.serving? names provider := by
    cases provider with
    | none => exact congrArg (fun a => some a.installed) h.allocators
    | some name => exact congrArg (fun b : Bindings AllocatorId => (b.find? name).map some) h.names
  suffices hfits : (Step.arrival raise names size routine provider via a).Fits name s
      ((s.given (s.provider? provider) fun provider =>
        (s.allocate provider size (.bytes [])
          ((Machine.passedRoutine via routine).map .routine)).andThen
            (Machine.created name)).through via) from
    ⟨_, .of_next? rfl (hfits.ending ▸ .settle _ stack), hfits.state⟩
  rw [hprovider]
  unfold Step.arrival
  cases a.serving? names provider with
  | none =>
    refine ⟨by cases via <;> rfl, ?_⟩
    rw [Outcome.state_through, Arrival.on, Gain.on_zero, ← h.allocators]
    rfl
  | some allocator => exact (h.fits_allocate name allocator size _).through via

/-- A new object has a finalizer of the kind that was passed. -/
theorem Step.detached_of_made {size : UInt64} {routine : Option (Routine Step)}
    {provider : Option String} {via : Convention} {length : UInt64} {finalizer : Option Finalizer}
    (h : routine.all Routine.detached = true)
    (hmade : (Step.arrival raise names size routine provider via a).made =
      some (length, finalizer)) : Finalizer.detached finalizer = true := by
  have hpassed : Finalizer.detached ((Machine.passedRoutine via routine).map .routine) = true := by
    obtain hall | hlost := Machine.passedRoutine_eq_or via routine
    · rw [hall]
      cases routine with
      | none => rfl
      | some r => exact h
    · rw [hlost]
      rfl
  unfold Step.arrival Allocators.arrival at hmade
  split at hmade
  · cases hmade
  · simp only at hmade
    split at hmade
    · cases hmade
    · split at hmade
      · cases hmade
      · split at hmade
        · cases hmade
        · cases hmade
          exact hpassed

end Allocations

/-- A step on a name that stands for nothing changes nothing: either no call is made, or the script
ends. -/
theorem Step.exists_ends_of_unnamed {name : String} : ∀ {step : Step}, step.name? = some name →
    ∃ e : Ending, ∀ (s : State) (stack : List Frame), s.names.objects.find? name = none →
      Machine.Ends ⟨s, .perform step, stack⟩ s e stack
  | .call c name' 0 via, _ => ⟨.answered .done, fun _ _ _ => .of_next? rfl (.answered rfl)⟩
  | .call c name' (times + 1) via, hname => by
    obtain rfl : name' = some name := hname
    refine ⟨.stopped .malformed, fun s stack hnone => .of_next? rfl ?_⟩
    have hperform : Machine.perform s stack (.call c (some name) (times + 1) via) =
        ⟨s, .halt .malformed,
          Machine.guarded via (.repeating c (some name) times via :: stack)⟩ := by
      simp only [Machine.perform, Machine.repeatCall, Machine.callNamed, hnone]
    rw [hperform]
    exact .stopped (Machine.run_of_rest rfl)
  | .attempt step, hname => by
    obtain ⟨e, he⟩ := Step.exists_ends_of_unnamed (show step.name? = some name from hname)
    exact ⟨e.caught, fun s stack hnone => (he s (.attempt :: stack) hnone).attempt.of_next? rfl⟩
  | .act (.object action), hname => by
    refine ⟨.stopped .malformed, fun s stack hnone => .of_next? rfl ?_⟩
    have hthrough (via : Convention) :
        (Outcome.halted .malformed s : Outcome Answer).through via = .halted .malformed s := by
      cases via <;> rfl
    have hperform : Machine.act s (.object action) = .halted .malformed s := by
      cases action <;> cases hname <;>
        simp only [Machine.act, State.performObject, State.withInstance, State.withObject,
          State.given, hnone, hthrough]
    show Machine.Ends (Machine.settle (Machine.act s (.object action)) stack) _ _ _
    rw [hperform]
    exact .settle _ stack

end Custody
