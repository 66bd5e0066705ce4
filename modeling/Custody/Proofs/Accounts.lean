import Custody.Proofs.Tally

/-! The books of a session.

Statistics that start at zero tell at every point of a session, inside of every finalizer as
well as between steps, what its heap tells: so many objects were allocated and so many are
gone, so many references are held and so many were given back (`Session.keepsBooks`). A release
is counted before its finalizer runs and a deallocation after it, but the count of the object
and its slot change with them. -/
namespace Custody

variable {made : Nat} {ts : List Teardown} {rs : List (Routine Step)} {s t : State} {o : ObjectId}
  {c : CellId} {stack : List Frame} {m m' : Machine}

/-! ### Counting operations -/

/-- Of several calls the first is made next. Only a retain is made on the spot: a release takes a
transition of its own. -/
def CountCall.retainsFirst (calls : List CountCall) : Nat :=
  match calls.head? with
  | some .retain => 1
  | _ => 0

namespace State

/-- The operations of an assignment through a handle that is not the only one: the copy is
allocated and retained, and so is each child. -/
def copyOperations (o : ObjectId) (s : State) : Nat :=
  match s.isUnique o with
  | .returned false t => (t.heap.value? o).elim 0 fun v => v.children.length + 2
  | _ => 0

/-- The allocations and retains that a step makes as it begins. -/
def operations (s : State) : Step → Nat
  | .allocate _ _ _ _ _ => 1
  | .call c _ times _ => CountCall.retainsFirst (List.replicate times c)
  | .race _ threads retains releases rounds =>
    CountCall.retainsFirst
      (List.replicate threads (Machine.threadCalls retains releases rounds)).flatten
  | .makeUnique handle _ => (s.names.handles.find? handle).elim 0 (copyOperations · s)
  | .act (.handle action) => action.operations
  | _ => 0

end State

/-- The allocations and retains that are made as a frame goes on. -/
def Frame.operations (answered : Bool) : Frame → Nat
  | .repeating c _ times _ => if answered then CountCall.retainsFirst (List.replicate times c) else 0
  | .thread rest _ waiting _ =>
    CountCall.retainsFirst (if answered then rest ++ waiting.flatten else waiting.flatten)
  | _ => 0

namespace Machine

/-- How many allocations, retains and releases the next transition makes. -/
def operations (m : Machine) : Nat :=
  match m.control, m.stack with
  | .perform step, _ => m.state.operations step
  | .release _, _ => 1
  | .answer _, frame :: _ => frame.operations true
  | .unwind _, frame :: _ => frame.operations false
  | _, _ => 0

theorem state_settle (out : Outcome Answer) (stack : List Frame) :
    (settle out stack).state = out.state := by
  cases out <;> rfl

variable (hst : s.Standing ts) (h : s.Balanced made)
include hst h

theorem balanced_call (c : CountCall) (o : ObjectId) (rest : List CountCall) :
    (call c o s stack).state.Balanced (made + CountCall.retainsFirst (c :: rest)) := by
  cases c with
  | retain =>
    unfold call
    rw [state_settle]
    exact (State.balanced_retain hst h o).map _
  | release => exact h

theorem balanced_repeatCall (c : CountCall) (name : Option String) (via : Convention) (times : Nat) :
    (repeatCall c name via s stack times).state.Balanced
      (made + CountCall.retainsFirst (List.replicate times c)) := by
  cases times with
  | zero => exact h
  | succ times =>
    cases name with
    | none =>
      show (settle _ _).state.Balanced _
      rw [state_settle]
      exact (h.report _).mono (Nat.le_add_right _ _)
    | some name =>
      unfold repeatCall callNamed
      simp only
      split
      · exact balanced_call hst h c _ (List.replicate times c)
      · exact h.mono (Nat.le_add_right _ _)

theorem balanced_runThreads (o : ObjectId) (waiting : List (List CountCall)) (ended : List Bool) :
    (runThreads o s stack waiting ended).state.Balanced
      (made + CountCall.retainsFirst waiting.flatten) := by
  induction waiting generalizing ended with
  | nil => exact h
  | cons calls waiting ih =>
    cases calls with
    | nil => exact ih (ended ++ [true])
    | cons c rest => exact balanced_call hst h c o (rest ++ waiting.flatten)

omit hst in
theorem balanced_continueRoutine (label : String) (steps : List Step) :
    (continueRoutine label s stack steps).state.Balanced made := by
  cases steps with
  | nil => exact h.congr rfl rfl
  | cons step rest => exact h

omit hst in
theorem balanced_continueDropping (cause : Option Cause) (os : List ObjectId) :
    (continueDropping cause s stack os).state.Balanced made := by
  cases os with
  | nil => cases cause <;> exact h
  | cons o rest => exact h

omit hst in
theorem balanced_finalize (t : Teardown) (finalizer : Option Finalizer) :
    (finalize t finalizer s stack).state.Balanced made := by
  unfold finalize
  simp only
  split
  · exact h
  · next r =>
    have hobserved (event : Event) : (s.observe event).Balanced made := h.congr rfl rfl
    exact balanced_continueRoutine (hobserved _) r.label r.body
  · unfold dropValue
    simp only
    split
    · next label children _ =>
      have hdropped : ((s.onHeap (·.setContents t.object .remains)).observe (.dropped label)).Balanced
          made := (h.setContents .remains).congr rfl rfl
      exact balanced_continueDropping hdropped none children
    · exact h.setContents _

theorem balanced_release (o : ObjectId) : (release o s stack).state.Balanced made := by
  by_cases hlast : ∃ c cell, s.heap.Opens o c cell ∧ cell.count = 1
  · obtain ⟨c, cell, hopens, hcount⟩ := hlast
    rw [release_of_last hopens hcount]
    exact balanced_finalize (State.balanced_begin hst h hopens hcount) _ _
  · have hmore : ∀ c cell, s.heap.Opens o c cell → cell.count ≠ 1 :=
      fun c cell hopens hcount => hlast ⟨c, cell, hopens, hcount⟩
    have hrelease := State.balanced_release hst h hmore
    obtain ⟨-, hnone⟩ : Shifts (fun _ => False) [] s.view _ ∧ _ := State.shifts_release hmore
    unfold release
    split
    · next t ht =>
      rw [ht] at hrelease
      exact hrelease
    · next begun finalizer t ht => exact absurd ht (hnone (begun, finalizer) t)
    · next cause t ht =>
      rw [ht] at hrelease
      exact hrelease
    · next halt t ht =>
      rw [ht] at hrelease
      exact hrelease

omit hst in
theorem balanced_assigned (o : ObjectId) (literal : Literal) (fresh : Bool) :
    (assigned o literal fresh s).state.Balanced made :=
  h.given (k := 0) fun _ ht => State.balanced_assign h ht

theorem balanced_copyOnWrite (handle : String) (o : ObjectId) (literal : Literal) :
    (copyOnWrite handle o literal s stack).state.Balanced
      (made + (s.heap.value? o).elim 0 fun v => v.children.length + 2) := by
  unfold copyOnWrite
  cases hv : s.heap.value? o with
  | none => exact h
  | some v =>
    have hretain := State.balanced_retainEach hst h v.children
    have hshifts : Shifts (fun _ => False) [] s.view (s.retainEach v.children).2.state.view :=
      State.shifts_retainEach _
    have hle : made + v.children.length ≤ made + (v.children.length + 2) :=
      Nat.add_le_add_left (Nat.le_add_right _ _) _
    simp only [Option.elim]
    split
    · next retained cause t heq =>
      rw [heq] at hretain
      exact balanced_continueDropping (hretain.mono hle) none retained
    · next halt t heq =>
      rw [heq] at hretain
      exact hretain.mono hle
    · next retained u t heq =>
      rw [heq] at hretain hshifts
      have hhold : (t.hold v).state.Balanced (made + (v.children.length + 2)) :=
        State.balanced_hold (hst.shifts hshifts) hretain v
      split
      · next fresh t' hfresh =>
        rw [hfresh] at hhold
        exact State.Balanced.congr (s := t') hhold rfl rfl
      · next cause t' hfresh =>
        rw [hfresh] at hhold
        exact hhold
      · next halt t' hfresh =>
        rw [hfresh] at hhold
        exact hhold

theorem balanced_makeUnique (handle : String) (o : ObjectId) (literal : Literal) :
    (makeUnique handle o literal s stack).state.Balanced (made + State.copyOperations o s) := by
  have hunique := State.balanced_isUnique h o
  have hview := State.view_isUnique (s := s) (o := o)
  unfold makeUnique State.copyOperations
  cases hu : s.isUnique o with
  | returned unique t =>
    rw [hu] at hunique hview
    cases unique with
    | true =>
      simp only
      rw [state_settle]
      exact balanced_assigned hunique o literal false
    | false => exact balanced_copyOnWrite (hst.shifts (.of_eq hview)) hunique handle o literal
  | unwound cause t =>
    rw [hu] at hunique
    exact hunique
  | halted halt t =>
    rw [hu] at hunique
    exact hunique

theorem balanced_perform {step : Step} (hhand : step.byHand = false) :
    (perform s stack step).state.Balanced (made + s.operations step) := by
  cases step with
  | allocate name size routine provider via =>
    unfold perform
    rw [state_settle, Outcome.state_through]
    exact h.given fun provider _ => (State.balanced_allocate hst h provider size _ _).andThen (k := 0)
      fun o t _ ht => ht.congr rfl rfl
  | assemble name size routine => cases hhand
  | reinstall name routine => cases hhand
  | newCell name routine => exact (State.balanced_addCell hst h _).congr rfl rfl
  | describe routine => exact h.discard _
  | call c name times via => exact balanced_repeatCall hst h c name via times
  | race name threads retains releases rounds =>
    unfold perform
    simp only
    split
    · exact balanced_runThreads hst h _ _ _
    · exact h.mono (Nat.le_add_right _ _)
  | dropHandle handle =>
    unfold perform
    simp only
    split
    · exact h.congr rfl rfl
    · exact h
  | makeUnique handle literal =>
    unfold perform State.operations
    simp only
    cases s.names.handles.find? handle with
    | some o => exact balanced_makeUnique hst h handle o literal
    | none => exact h
  | attempt step => exact h
  | act action =>
    unfold perform
    rw [state_settle]
    cases action with
    | object action => exact State.balanced_performObject hst h hhand
    | log action => exact State.balanced_performLog h action
    | setting action => exact State.balanced_performSetting h action
    | handle action => exact State.balanced_performHandle hst h action
    | panic message => exact h

theorem balanced_resume (answer : Answer) {frame : Frame}
    (hmem : ∀ t, frame.teardown? = some t → t ∈ ts) :
    (resume answer s stack frame).state.Balanced (made + frame.operations true) := by
  cases frame with
  | repeating c name times via => exact balanced_repeatCall hst h c name via times
  | routine label rest =>
    have hobserved : (s.observe (.stepped answer)).Balanced made := h.congr rfl rfl
    exact balanced_continueRoutine hobserved label rest
  | teardown t => exact State.balanced_finish hst h (hmem t rfl)
  | thread rest o waiting ended => exact balanced_runThreads hst h o (rest :: waiting) ended
  | dropping rest cause => exact balanced_continueDropping h cause rest
  | assigning fresh literal =>
    unfold resume
    rw [state_settle]
    exact balanced_assigned h fresh literal true
  | barrier => exact h
  | attempt => exact h
  | cleaning cause => exact h

theorem balanced_unwind (cause : Cause) {frame : Frame}
    (hmem : ∀ t, frame.teardown? = some t → t ∈ ts) :
    (unwind cause s stack frame).state.Balanced (made + frame.operations false) := by
  cases frame with
  | teardown t => exact State.balanced_finish hst h (hmem t rfl)
  | thread rest o waiting ended => exact balanced_runThreads hst h o waiting _
  | dropping rest earlier =>
    cases earlier with
    | none => exact balanced_continueDropping h (some cause) rest
    | some earlier => exact h
  | repeating c name times via => exact h
  | routine label rest => exact h
  | barrier => exact h
  | attempt => exact h
  | cleaning earlier => exact h
  | assigning fresh literal => exact h

omit hst h

/-- **A transition changes the statistics and the heap alike.** -/
theorem balanced_next (hst : m.state.Standing (teardowns m.stack)) (h : m.state.Balanced made)
    (hhand : ∀ step, m.control = .perform step → step.byHand = false) (hn : m.next? = some m') :
    m'.state.Balanced (made + m.operations) := by
  obtain ⟨s, control, stack⟩ := m
  have htop {frame : Frame} {rest : List Frame} (hstack : stack = frame :: rest) (t : Teardown)
      (ht : frame.teardown? = some t) : t ∈ teardowns stack :=
    List.mem_filterMap.2 ⟨frame, hstack ▸ List.mem_cons_self, ht⟩
  cases control with
  | perform step =>
    cases hn
    exact balanced_perform hst h (hhand step rfl)
  | release o =>
    cases hn
    exact (balanced_release hst h o).mono (Nat.le_succ _)
  | halt halt => cases hn
  | answer answer =>
    cases stack with
    | nil => cases hn
    | cons frame stack =>
      cases hn
      exact balanced_resume hst h answer (htop rfl)
  | unwind cause =>
    cases stack with
    | nil => cases hn
    | cons frame stack =>
      cases hn
      exact balanced_unwind hst h cause (htop rfl)

end Machine

/-! ### Sessions -/

theorem Step.slot?_of_byHand {step : Step} (h : step.byHand = false) : step.slot? = none := by
  cases step with
  | reinstall name routine => cases h
  | act action =>
    cases action with
    | object action => cases action <;> first | rfl | cases h
    | _ => rfl
  | _ => rfl

/-- What was told earlier does not matter to locks. -/
theorem Sound.of_since {earlier : List Event} {v : View} (h : Sound (v.since earlier) ts) :
    Sound v ts :=
  {h with told := fun label o locked mem => h.told label o locked (List.mem_append_left _ mem)}

def Stage.operations (st : Stage) : Nat :=
  match st.position with
  | .between _ => 0
  | .during m => m.operations

namespace Session

variable {session : Session} {n : Nat}

/-- How many allocations, retains and releases a session has made at a stage. -/
def operations (session : Session) (s : State) : Nat → Nat
  | 0 => 0
  | n + 1 => session.operations s n + (session.stage s n).operations

section Stages

variable (h : s.Fresh) (hsteps : ∀ step ∈ session.steps, step.every (!·.byHand) = true)
include h hsteps

theorem not_byHand {step : Step} (hd : (session.stage s n).position = .during m)
    (hm : m.control = .perform step) : step.byHand = false := by
  have hpasses := performs_every h hsteps hd hm
  simpa using hpasses

theorem untouched_of_not_byHand (o : ObjectId) (n : Nat) : session.Untouched s o n := by
  intro k _ hedits
  unfold Stage.Edits Stage.edited? at hedits
  cases hp : (session.stage s k).position with
  | between t =>
    rw [hp] at hedits
    cases hedits
  | during m =>
    rw [hp] at hedits
    cases hm : m.control with
    | perform step =>
      have hslot := Step.slot?_of_byHand (not_byHand h hsteps hp hm)
      simp [Machine.edited?, hm, hslot] at hedits
    | _ => simp [Machine.edited?, hm] at hedits

theorem standing_stage (hd : (session.stage s n).position = .during m) :
    m.state.Standing (teardowns m.stack) := by
  have hsound := session.sound_stage h n
  have htied (o : ObjectId) := tied_stage h (untouched_of_not_byHand h hsteps o n)
  have hstage : session.stage s n =
      ⟨(session.stage s n).records, (session.stage s n).rest, .during m⟩ := by rw [← hd]
  rw [hstage, Stage.view_during] at hsound
  refine ⟨hsound.of_since, fun o t ht hto => ?_⟩
  have hlink := htied o t
  rw [hstage] at hlink
  exact hlink ht hto

theorem balanced_stage (hzero : s.statistics = {}) (n : Nat) :
    (session.stage s n).state.Balanced (session.operations s n) := by
  induction n with
  | zero =>
    have hheap : s.heap = {} := h.heap
    refine ⟨⟨0, ?_, ?_⟩, ?_, fun c cell hc => ?_⟩
    · show s.statistics = s.heap.account 0
      rw [hzero, hheap]
      rfl
    · show 0 + s.heap.references ≤ 0
      rw [hheap]
      exact Nat.le_refl 0
    · show s.heap.objects.length ≤ 0
      rw [hheap]
      exact Nat.le_refl 0
    · have hc' : s.heap.cell? c = some cell := hc
      simp [hheap, Heap.cell?] at hc'
  | succ n ih =>
    have hle : session.operations s n ≤ session.operations s (n + 1) := Nat.le_add_right _ _
    cases hn : session.next? (session.stage s n) with
    | none =>
      rw [stage_succ_of_rest hn]
      exact ih.mono hle
    | some st =>
      rw [stage_succ_of_next? hn]
      have hconclude (records : List Record) (rest : List Step) (result : Result) (t : State)
          (ht : t.Balanced (session.operations s n)) :
          (session.conclude records rest result t).state.Balanced (session.operations s (n + 1)) := by
        refine (ht.congr ?_ ?_).mono hle
        · show (session.record result true t).2.heap = t.heap
          unfold Session.record
          split <;> rfl
        · show (session.record result true t).2.statistics = t.statistics
          unfold Session.record
          split <;> rfl
      generalize hst : session.stage s n = st' at hn ih
      cases advances_of_next? hn with
      | begins records rest t step =>
        have hstart : ({t with events := []} : State).Balanced (session.operations s n) :=
          ih.congr rfl rfl
        exact hstart.mono hle
      | answers records rest t answer => exact hconclude records rest _ t ih
      | fails records rest t cause => exact hconclude records rest _ t ih
      | @moves records rest m m' hm =>
        have hd : (session.stage s n).position = .during m := by rw [hst]
        have hnext := Machine.balanced_next (standing_stage h hsteps hd) ih
          (fun step hstep => not_byHand h hsteps hd hstep) hm
        have hoperations : (session.stage s n).operations = m.operations := by
          rw [Stage.operations, hd]
        unfold operations
        rw [hoperations]
        exact hnext

end Stages

/-- What the statistics of a session tell. -/
structure KeepsBooks (session : Session) (s : State) : Prop where
  /-- Up to a wrap, the statistics are the account of the heap. -/
  accounted (n : Nat) : ∃ released,
    (session.stage s n).state.statistics = (session.stage s n).state.heap.account released
  /-- As long as nothing can have wrapped, the difference of allocations and deallocations is the
  number of objects whose slot is not null, and does not stop at zero. -/
  live (n : Nat) (few : session.operations s n < UInt64.size) :
    (session.stage s n).state.statistics.deallocations ≤
        (session.stage s n).state.statistics.allocations ∧
      (session.stage s n).state.statistics.live = (session.stage s n).state.heap.linked
  /-- Retains less releases are the references that the counts of these objects come to. -/
  references (n : Nat) (few : session.operations s n < UInt64.size) :
    (session.stage s n).state.statistics.retains.toNat =
      (session.stage s n).state.statistics.releases.toNat +
        (session.stage s n).state.heap.references
  bytes (n : Nat) : (session.stage s n).state.statistics.payloadBytes.toNat =
    (session.stage s n).state.heap.bytes % UInt64.size
  /-- What does not come back is not counted: an allocation, a retain, a release. -/
  allocate (n : Nat) (provider : Option AllocatorId) (size : UInt64) (contents : Contents)
    (finalizer : Option Finalizer) :
    ((session.stage s n).state.allocate provider size contents finalizer).Uncounted
      (session.stage s n).state
  retain (n : Nat) (o : ObjectId) :
    ((session.stage s n).state.retain o).Uncounted (session.stage s n).state
  release (n : Nat) (o : ObjectId) :
    ((session.stage s n).state.release o).Uncounted (session.stage s n).state
  /-- A call of any kind that unwinds leaves the statistics. -/
  call (n : Nat) (m m' : Machine) (during : (session.stage s n).position = .during m)
    (raise : Fault → Cause) (raises : m.state.faults.raises = some raise) (calls : m.Calls = true)
    (next : m.next? = some m') (cause : Cause) (unwinds : m'.control = .unwind cause) :
    m'.state.statistics = m.state.statistics

/-- **Statistics agree with the heap at every point of a session**, if no object is put together by
hand and no count or slot is changed past the operations. -/
theorem keepsBooks {s : State} (h : s.Fresh) (hzero : s.statistics = {})
    (hsteps : ∀ step ∈ session.steps, step.every (!·.byHand) = true) : session.KeepsBooks s := by
  have hbalanced (n : Nat) := balanced_stage h hsteps hzero n
  refine {
    accounted := fun n => (hbalanced n).accounted.imp fun _ => And.left
    live := ?live
    references := ?references
    bytes := ?bytes
    allocate := fun n => State.uncounted_allocate _
    retain := fun n => State.uncounted_retain _
    release := fun n => State.uncounted_release _
    call := ?call }
  case live =>
    intro n few
    obtain ⟨released, hstatistics, _⟩ := (hbalanced n).accounted
    have hsum := (session.stage s n).state.heap.linked_add_goneCount
    have hobjects := (hbalanced n).objects
    have hallocations : ((session.stage s n).state.statistics.allocations).toNat =
        (session.stage s n).state.heap.objects.length := by
      rw [hstatistics]
      exact UInt64.toNat_ofNat_of_lt (by omega)
    have hdeallocations : ((session.stage s n).state.statistics.deallocations).toNat =
        goneCount (session.stage s n).state.heap.objects := by
      rw [hstatistics]
      exact UInt64.toNat_ofNat_of_lt (by omega)
    refine ⟨?_, ?_⟩
    · rw [UInt64.le_iff_toNat_le]
      omega
    · unfold Statistics.live
      omega
  case references =>
    intro n few
    obtain ⟨released, hstatistics, hbound⟩ := (hbalanced n).accounted
    have hretains : ((session.stage s n).state.statistics.retains).toNat =
        released + (session.stage s n).state.heap.references := by
      rw [hstatistics]
      exact UInt64.toNat_ofNat_of_lt (by omega)
    have hreleases : ((session.stage s n).state.statistics.releases).toNat = released := by
      rw [hstatistics]
      exact UInt64.toNat_ofNat_of_lt (by omega)
    omega
  case bytes =>
    intro n
    obtain ⟨released, hstatistics, _⟩ := (hbalanced n).accounted
    rw [hstatistics]
    exact UInt64.toNat_ofNat
  case call =>
    intro n m m' _ raise raises calls next cause unwinds
    obtain ⟨f, _, hreported⟩ := Machine.failsCleanly_of_next? raises calls next cause unwinds
    exact hreported.statistics

/-- Inside of two finalizers, once a third object was allocated and retained. A release that fails
inside of a finalizer is not counted. -/
theorem keepsBooks_nested :
    (teardowns (nested.stage .embedded 21).stack).length = 2 ∧
      (nested.stage .embedded 21).state.statistics.live = 3 ∧
      (nested.stage .embedded 21).state.statistics.retains.toNat =
        (nested.stage .embedded 21).state.statistics.releases.toNat + 1 ∧
      (overdrawn.stage .embedded 15).state.statistics =
        (overdrawn.stage .embedded 14).state.statistics := by
  have h := nested.keepsBooks State.fresh_embedded rfl (by decide)
  have hover := overdrawn.keepsBooks State.fresh_embedded rfl (by decide)
  refine ⟨by decide, (h.live 21 (by decide)).2.trans (by decide), h.references 21 (by decide), ?_⟩
  exact hover.call 14 ⟨(overdrawn.stage .embedded 14).state, .release 0,
    (overdrawn.stage .embedded 14).stack⟩ _ rfl .fault rfl rfl rfl
    (.fault (.releaseUnderflow (.object 0))) rfl

end Session
end Custody
