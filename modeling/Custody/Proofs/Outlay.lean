import Custody.Proofs.Coherence
import Custody.Proofs.Ledger

/-! What memory has been spent on.

Three parts of a process keep count of the objects it makes: the system allocator of the bytes it
has handed out, the statistics of the payloads, and the heap of the objects themselves. Only an
allocation changes any of them (`Machine.outlay_next`). Counting, tearing down, unwinding and
everything done by hand leave all three alone. -/
namespace Custody

/-- What the system allocator, the statistics and the heap say of the objects made so far, and
which allocator serves those to come. -/
structure Outlay where
  bytes : UInt64
  regions : UInt64
  allocations : UInt64
  payloadBytes : UInt64
  sizes : List UInt64
  installed : Option AllocatorId

def State.outlay (s : State) : Outlay where
  bytes := s.allocators.system.bytes
  regions := s.allocators.system.allocations
  allocations := s.statistics.allocations
  payloadBytes := s.statistics.payloadBytes
  sizes := s.heap.objects.map (·.size)
  installed := s.allocators.installed

variable {s t : State} {e : Outlay} {o : ObjectId} {c : CellId}

/-! ### Heaps -/

/-- Whatever else becomes of an object, its size stays. -/
theorem Heap.sizes_updateObject {f : Object → Object} (hf : ∀ object, (f object).size = object.size)
    (o : ObjectId) (h : Heap) :
    (h.updateObject o f).objects.map (·.size) = h.objects.map (·.size) := by
  refine List.ext_getElem? fun i => ?_
  simp only [updateObject, List.getElem?_map, List.getElem?_modify]
  cases h.objects[i]? with
  | none => rfl
  | some object =>
    simp only [Option.map_some, Functor.map]
    split <;> simp [hf]

/-- A new object is the last one, with the size it was made with. -/
theorem Heap.sizes_addObject (h : Heap) (size : UInt64) (contents : Contents)
    (finalizer : Option Finalizer) :
    (h.addObject size contents finalizer).2.objects.map (·.size) =
      h.objects.map (·.size) ++ [size] := by
  simp [addObject, addCell]

/-! ### How outcomes compose -/

namespace Outcome

/-- The outlay is left alone by one operation after the other, if it is by each of them. -/
theorem outlay_andThen {out : Outcome α} {next : α → State → Outcome β} (h : out.state.outlay = e)
    (hnext : ∀ a t, t.outlay = e → (next a t).state.outlay = e) :
    (out.andThen next).state.outlay = e := by
  cases out with
  | returned a t => exact hnext a t h
  | unwound cause t => exact h
  | halted halt t => exact h

theorem outlay_map {out : Outcome α} (h : out.state.outlay = e) (f : α → β) :
    (out.map f).state.outlay = e :=
  outlay_andThen h fun _ _ ht => ht

end Outcome

namespace State

open Outcome

theorem outlay_given {found : Option α} {next : α → Outcome β} (h : s.outlay = e)
    (hnext : ∀ a, found = some a → (next a).state.outlay = e) :
    (s.given found next).state.outlay = e := by
  cases found with
  | none => exact h
  | some a => exact hnext a rfl

/-- Payloads are written where they lie. -/
theorem outlay_setContents (o : ObjectId) (contents : Contents) (s : State) :
    (s.onHeap (·.setContents o contents)).outlay = s.outlay := by
  have hsizes : (s.heap.setContents o contents).objects.map (·.size) =
      s.heap.objects.map (·.size) :=
    Heap.sizes_updateObject (f := fun object => {object with contents}) (fun _ => rfl) o s.heap
  unfold outlay onHeap
  rw [hsizes]

theorem outlay_setLink (o : ObjectId) (link : Option CellId) (s : State) :
    (s.onHeap (·.setLink o link)).outlay = s.outlay := by
  have hsizes : (s.heap.setLink o link).objects.map (·.size) = s.heap.objects.map (·.size) :=
    Heap.sizes_updateObject (f := fun object => {object with link}) (fun _ => rfl) o s.heap
  unfold outlay onHeap
  rw [hsizes]

/-! ### Counting -/

theorem outlay_report (f : Fault) (s : State) :
    (s.report f : Outcome α).state.outlay = s.outlay := by
  rw [state_report]
  rfl

theorem outlay_discard (finalizer : Option Finalizer) (s : State) :
    (s.discard finalizer).outlay = s.outlay := by
  rw [discard_eq]
  rfl

/-- A cell that is freed has taken nothing off the accounts. -/
theorem outlay_freeCell (c : CellId) (s : State) : (s.freeCell c).outlay = s.outlay :=
  outlay_discard _ s

/-- What was spent on an object stays spent once it is torn down. -/
theorem outlay_finish (t : Teardown) (s : State) : (s.finish t).outlay = s.outlay := by
  have hfreed : ((s.unlock t.cell).freeCell t.cell).outlay = s.outlay := outlay_freeCell t.cell _
  exact (outlay_setLink t.object none _).trans hfreed

theorem outlay_resolve (o : ObjectId) (s : State) : (s.resolve o).state.outlay = s.outlay := by
  unfold resolve
  split
  · rfl
  · exact outlay_report _ s

theorem outlay_lock (c : CellId) (s : State) : (s.lock c).state.outlay = s.outlay := by
  unfold lock
  split
  · split <;> rfl
  · rfl

/-- What the operations on a count share. -/
theorem outlay_access {next : CellId → Cell → State → Outcome β}
    (hnext : ∀ c cell t, (next c cell t).state.outlay = t.outlay) (o : ObjectId) (s : State) :
    ((s.resolve o).andThen fun c s => (s.lock c).andThen fun cell s =>
      next c cell s).state.outlay = s.outlay :=
  outlay_andThen (outlay_resolve o s) fun c t ht =>
    outlay_andThen ((outlay_lock c t).trans ht) fun cell u hu => (hnext c cell u).trans hu

/-- A retain that is refused is counted as a fault, and faults are no part of the outlay. -/
theorem outlay_retain (o : ObjectId) (s : State) : (s.retain o).state.outlay = s.outlay := by
  refine outlay_access (fun c cell t => ?_) o s
  split
  · exact outlay_report _ _
  · rfl

/-- A release does not look at the account, not even the last one. -/
theorem outlay_release (o : ObjectId) (s : State) : (s.release o).state.outlay = s.outlay := by
  refine outlay_access (fun c cell t => ?_) o s
  split
  · exact outlay_report _ _
  · simp only
    split <;> rfl

theorem outlay_isUnique (o : ObjectId) (s : State) : (s.isUnique o).state.outlay = s.outlay :=
  outlay_access (fun _ _ _ => rfl) o s

theorem outlay_count (o : ObjectId) (s : State) : (s.count o).state.outlay = s.outlay :=
  outlay_access (fun _ _ _ => rfl) o s

/-- Children are retained one by one, up to the first that fails. -/
theorem outlay_retainEach (os : List ObjectId) (s : State) :
    (s.retainEach os).2.state.outlay = s.outlay := by
  induction os generalizing s with
  | nil => rfl
  | cons o rest ih =>
    have hretain := outlay_retain o s
    unfold retainEach
    cases hr : s.retain o with
    | returned _ t =>
      rw [hr] at hretain
      exact (ih t).trans hretain
    | unwound cause t | halted halt t =>
      rw [hr] at hretain
      exact hretain

/-! ### Actions -/

theorem outlay_guard (o : ObjectId) (s : State) : (s.guard o).state.outlay = s.outlay :=
  outlay_given rfl fun c _ => outlay_andThen (outlay_lock c s) fun _ _ ht =>
    outlay_given ht fun _ _ => ht

theorem outlay_guardCell (c : CellId) (s : State) : (s.guardCell c).state.outlay = s.outlay :=
  outlay_andThen (outlay_lock c s) fun _ _ ht => ht

/-- A call through an export does what it does for the instance, or reports that there is none. -/
theorem outlay_withInstance {exportName : String} {name : Option String}
    {next : ObjectId → Outcome β} (hnext : ∀ o, (next o).state.outlay = s.outlay) :
    (s.withInstance exportName name next).state.outlay = s.outlay := by
  cases name with
  | none => exact outlay_report _ s
  | some name => exact outlay_given rfl fun o _ => hnext o

/-- Whatever is done to an object by hand leaves its size, and what was spent on it. -/
theorem outlay_performObject (action : ObjectAction) (s : State) :
    (s.performObject action).state.outlay = s.outlay := by
  cases action with
  | count name via =>
    rw [performObject, state_through]
    exact outlay_withInstance fun o => outlay_map (outlay_count o s) _
  | isUnique name via =>
    rw [performObject, state_through]
    exact outlay_withInstance fun o => outlay_map (outlay_isUnique o s) _
  | resolve name => exact outlay_given rfl fun o _ => outlay_map (outlay_resolve o s) _
  | guard name => exact outlay_given rfl fun o _ => outlay_guard o s
  | guardCell name => exact outlay_given rfl fun c _ => outlay_guardCell c s
  | write name start bytes =>
    exact outlay_given rfl fun o _ => outlay_given rfl fun object _ => outlay_setContents o _ s
  | freeCell name => exact outlay_given rfl fun c _ => outlay_freeCell c s
  | clearSlot name => exact outlay_given rfl fun o _ => outlay_setLink o none s
  | forceCount name count => exact outlay_given rfl fun o _ => outlay_given rfl fun c _ => rfl
  | read name start length => exact outlay_given rfl fun o _ => outlay_given rfl fun object _ => rfl
  | isDeallocated _ | hasCell _ | slotIsNull _ | offsets _ => exact outlay_given rfl fun o _ => rfl
  | statistics | faultCount => rfl

theorem outlay_performLog (action : LogAction) (s : State) :
    (s.performLog action).2.outlay = s.outlay := by
  cases action <;> rfl

/-- Warnings are written, and that is all. -/
theorem outlay_readEnvironment (s : State) : s.readEnvironment.2.outlay = s.outlay := by
  rw [readEnvironment_eq]
  rfl

/-- Settings limit what may be spent and leave alone what was. -/
theorem outlay_configure (settings : Configuration) (s : State) :
    (s.configure settings).2.outlay = s.outlay := by
  unfold configure
  split <;> rfl

theorem outlay_configureFromEnvironment (s : State) :
    s.configureFromEnvironment.2.outlay = s.outlay := by
  unfold configureFromEnvironment
  dsimp only
  split
  · exact (outlay_configure _ _).trans (outlay_readEnvironment s)
  · exact (outlay_configure _ _).trans (outlay_readEnvironment s)

theorem outlay_assign {literal : Literal} (h : s.assign o literal = some t) :
    t.outlay = s.outlay := by
  obtain ⟨v, _, hmap⟩ := Option.bind_eq_some_iff.1 h
  obtain ⟨v', _, rfl⟩ := Option.map_eq_some_iff.1 hmap
  exact outlay_setContents o _ s

/-- Handles that are handed over lose their names. -/
theorem outlay_takeHandles {names : List String} {os : List ObjectId}
    (h : s.takeHandles names = some (os, t)) : t.outlay = s.outlay := by
  induction names generalizing s os t with
  | nil =>
    cases h
    rfl
  | cons name rest ih =>
    obtain ⟨o, _, hmap⟩ := Option.bind_eq_some_iff.1 h
    obtain ⟨⟨os', t'⟩, hrest, heq⟩ := Option.map_eq_some_iff.1 hmap
    cases heq
    have hforget : (s.forgetHandle name).outlay = s.outlay := rfl
    exact (ih hrest).trans hforget

/-- An action on a handle that makes no object. -/
theorem outlay_performHandle {action : HandleAction} (s : State)
    (hcreate : ∀ handle kind literal, action ≠ .create handle kind literal) :
    (s.performHandle action).state.outlay = s.outlay := by
  cases action with
  | create handle kind literal => exact absurd rfl (hcreate handle kind literal)
  | clone handle copy =>
    exact outlay_given rfl fun o _ => outlay_andThen (outlay_retain o s) fun _ _ ht => ht
  | count handle => exact outlay_given rfl fun o _ => outlay_map (outlay_count o s) _
  | isUnique handle => exact outlay_given rfl fun o _ => outlay_map (outlay_isUnique o s) _
  | set handle literal =>
    refine outlay_given rfl fun o _ => outlay_andThen (outlay_isUnique o s) fun unique t ht => ?_
    split
    · exact outlay_given ht fun u hu => (outlay_assign hu).trans ht
    · exact ht
  | push handle child =>
    refine outlay_given rfl fun o _ => outlay_andThen (outlay_isUnique o s) fun unique t ht => ?_
    split
    · refine outlay_given ht fun c _ => ?_
      split
      · exact (outlay_setContents o _ t).trans ht
      · exact ht
    · exact ht
  | get handle =>
    exact outlay_given rfl fun o _ => outlay_given rfl fun v _ => outlay_given rfl fun _ _ => rfl
  | equal handle other =>
    exact outlay_given rfl fun a _ => outlay_given rfl fun b _ => outlay_given rfl fun x _ =>
      outlay_given rfl fun y _ => rfl
  | write handle form =>
    exact outlay_given rfl fun o _ => outlay_given rfl fun image _ => outlay_given rfl fun _ _ => rfl
  | sameObject handle other => exact outlay_given rfl fun a _ => outlay_given rfl fun b _ => rfl
  | intoObject _ _ | asObject _ _ | fromObject _ _ => exact outlay_given rfl fun o _ => rfl

/-- A setting other than the choice of the global allocator. -/
theorem outlay_performSetting {action : SettingAction} (s : State)
    (hinstall : ∀ name, action ≠ .installAllocator name) :
    (s.performSetting action).state.outlay = s.outlay := by
  cases action with
  | installAllocator name => exact absurd rfl (hinstall name)
  | report fault => exact outlay_report fault s
  | raiseForeign message =>
    rw [performSetting, state_through]
    exact outlay_report _ s
  | readEnvironment => exact outlay_readEnvironment s
  | configure settings => exact outlay_configure _ s
  | configureFromEnvironment via => exact outlay_configureFromEnvironment s
  | setAllocatorLimit name limit =>
    exact outlay_given rfl fun i _ => outlay_given rfl fun q _ => rfl
  | allocatorQuota name => exact outlay_given rfl fun i _ => outlay_given rfl fun q _ => rfl
  | policy | setPolicy _ | setReporter _ | setVariables _ | configuration | systemLimit
    | setSystemLimit _ | systemQuota | newAllocator _ _ | globalIsSystem => rfl

end State

/-! ### Transitions -/

namespace Machine

open State Outcome

variable {m m' : Machine} {stack : List Frame}

theorem outlay_settle {out : Outcome Answer} (h : out.state.outlay = e) (stack : List Frame) :
    (settle out stack).state.outlay = e := by
  rwa [state_settle]

theorem outlay_call (c : CountCall) (o : ObjectId) (s : State) (stack : List Frame) :
    (call c o s stack).state.outlay = s.outlay := by
  cases c with
  | retain => exact outlay_settle (outlay_map (outlay_retain o s) _) stack
  | release => rfl

/-- A call on a null instance is a fault, and the others are calls on the object. -/
theorem outlay_repeatCall (c : CountCall) (name : Option String) (via : Convention) (s : State)
    (stack : List Frame) (times : Nat) :
    (repeatCall c name via s stack times).state.outlay = s.outlay := by
  cases times with
  | zero => rfl
  | succ times =>
    cases name with
    | none => exact outlay_settle (outlay_report _ s) _
    | some name =>
      unfold repeatCall callNamed
      dsimp only
      split
      · exact outlay_call c _ s _
      · rfl

/-- Threads that run one after another do nothing but count. -/
theorem outlay_runThreads (o : ObjectId) (s : State) (stack : List Frame)
    (waiting : List (List CountCall)) (ended : List Bool) :
    (runThreads o s stack waiting ended).state.outlay = s.outlay := by
  induction waiting generalizing ended with
  | nil => rfl
  | cons calls waiting ih =>
    cases calls with
    | nil => exact ih _
    | cons c rest => exact outlay_call c o s _

theorem outlay_continueRoutine (label : String) (s : State) (stack : List Frame)
    (steps : List Step) : (continueRoutine label s stack steps).state.outlay = s.outlay := by
  cases steps <;> rfl

/-- Handles that are to be dropped wait on the stack or are done with. -/
theorem outlay_continueDropping (cause : Option Cause) (s : State) (stack : List Frame)
    (os : List ObjectId) : (continueDropping cause s stack os).state.outlay = s.outlay := by
  cases os with
  | nil => cases cause <;> rfl
  | cons o rest => rfl

/-- A finalizer that is entered has taken no step yet, and a value that is dropped leaves its
payload in the region. -/
theorem outlay_finalize (t : Teardown) (finalizer : Option Finalizer) (s : State)
    (stack : List Frame) : (finalize t finalizer s stack).state.outlay = s.outlay := by
  unfold finalize
  dsimp only
  split
  · rfl
  · exact outlay_continueRoutine _ _ _ _
  · unfold dropValue
    dsimp only
    split
    · exact (outlay_continueDropping _ _ _ _).trans (outlay_setContents _ _ s)
    · exact outlay_setContents _ _ s

/-- A release, and the teardown that it may start. -/
theorem outlay_started (o : ObjectId) (s : State) (stack : List Frame) :
    (release o s stack).state.outlay = s.outlay := by
  have hrelease := outlay_release o s
  unfold release
  split
  · next u hout =>
    rw [hout] at hrelease
    exact hrelease
  · next t finalizer u hout =>
    rw [hout] at hrelease
    exact (outlay_finalize t finalizer u stack).trans hrelease
  · next cause u hout =>
    rw [hout] at hrelease
    exact hrelease
  · next halt u hout =>
    rw [hout] at hrelease
    exact hrelease

theorem outlay_assigned (o : ObjectId) (literal : Literal) (fresh : Bool) (s : State) :
    (assigned o literal fresh s).state.outlay = s.outlay :=
  outlay_given rfl fun _ ht => outlay_assign ht

/-- **An answer costs nothing**, whichever frame it is handed to. -/
theorem outlay_resume (answer : Answer) (s : State) (stack : List Frame) (frame : Frame) :
    (resume answer s stack frame).state.outlay = s.outlay := by
  cases frame with
  | teardown t => exact outlay_finish t s
  | repeating c name times via => exact outlay_repeatCall c name via s stack times
  | routine label rest => exact outlay_continueRoutine label _ stack rest
  | thread rest o waiting ended => exact outlay_runThreads o s stack _ ended
  | dropping rest cause => exact outlay_continueDropping cause s stack rest
  | assigning fresh literal => exact outlay_settle (outlay_assigned fresh literal true s) stack
  | barrier | attempt | cleaning _ => rfl

/-- **An unwinding costs nothing**, whichever frame it leaves. -/
theorem outlay_unwind (cause : Cause) (s : State) (stack : List Frame) (frame : Frame) :
    (unwind cause s stack frame).state.outlay = s.outlay := by
  cases frame with
  | teardown t => exact outlay_finish t s
  | thread rest o waiting ended => exact outlay_runThreads o s stack waiting _
  | dropping rest earlier =>
    cases earlier with
    | none => exact outlay_continueDropping (some cause) s stack rest
    | some earlier => rfl
  | repeating _ _ _ _ | routine _ _ | barrier | attempt | cleaning _ | assigning _ _ => rfl

end Machine
end Custody
