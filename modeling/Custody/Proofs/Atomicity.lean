import Custody.Proofs.Refinement
import Custody.Proofs.Unwinding
import Custody.Proofs.Writing

/-! A call that fails changes nothing.

Every operation checks before it acts, so a call that reports a fault of its own leaves
the state as it found it: the heap, the statistics, the allocators and all settings. What
is new is that the fault was counted and, if no reporter was set, one entry in the log; a
finalizer handed to an allocation that fails is thrown away (`State.failsCleanly`). -/
namespace Custody

/-- A fault was reported, and a finalizer that was passed along is thrown away unrun. Nothing else
happened. -/
structure Reported (f : Fault) (passed : Option Finalizer) (s t : State) : Prop where
  heap : t.heap = s.heap
  statistics : t.statistics = s.statistics
  allocators : t.allocators = s.allocators
  environment : t.environment = s.environment
  configuration : t.configuration = s.configuration
  names : t.names = s.names
  policy : t.faults.policy = s.faults.policy
  reporter : t.faults.reporter = s.faults.reporter
  counted : t.faults.count = s.faults.count + 1
  /-- One line is written, if there is no reporter of its own and the logger is not off. -/
  logged : s.faults.reporter = none → s.logger.level ≠ .off →
    ∃ entry, f.ToldBy entry ∧ s.logger.Wrote [⟨s.logger.format, entry⟩] t.logger
  quiet : s.faults.reporter ≠ none ∨ s.logger.level = .off → t.logger = s.logger
  events : t.events = View.discarded passed ++ s.events

/-- If the operation unwinds, it has reported a fault and done nothing else. -/
def Outcome.FailsCleanly (out : Outcome α) (raise : Fault → Cause) (passed : Option Finalizer)
    (s : State) : Prop :=
  ∀ cause t, out = .unwound cause t → ∃ f, cause = raise f ∧ Reported f passed s t

/-- The operation does not unwind. -/
def Outcome.Settles (out : Outcome α) : Prop :=
  ∀ cause t, out ≠ .unwound cause t

variable {raise : Fault → Cause} {passed : Option Finalizer} {s : State} {o : ObjectId}

/-! ### Faults -/

namespace State

/-- The state once a fault was counted and, if there is no reporter, logged. -/
def noted (f : Fault) (s : State) : State :=
  {s with
    faults := {s.faults with count := s.faults.count + 1}
    logger := if s.faults.reporter = none then s.logger.emit f.entry else s.logger}

theorem report_of_raises (h : s.faults.raises = some raise) (f : Fault) :
    (s.report f : Outcome α) = .unwound (raise f) (s.noted f) := by
  unfold FaultHandling.raises at h
  unfold report noted
  split at h
  · next hreporter =>
    cases h
    simp [hreporter]
  · cases h
  · next hreporter hpolicy =>
    cases h
    simp [hreporter, hpolicy, log]
  · cases h

theorem reported_noted (f : Fault) (s : State) : Reported f none s (s.noted f) := by
  refine {
    heap := rfl, statistics := rfl, allocators := rfl, environment := rfl, configuration := rfl
    names := rfl, policy := rfl, reporter := rfl, counted := rfl
    logged := ?logged
    quiet := ?quiet
    events := rfl }
  case logged =>
    intro hreporter hlevel
    refine ⟨f.entry, f.toldBy_entry, ?_⟩
    have hwrote := Log.Logger.wrote_emit f.entry s.logger
    rw [Log.Logger.line?_of_passes (Log.Logger.wouldLog_error_iff.2 hlevel) rfl] at hwrote
    unfold noted
    rwa [if_pos hreporter]
  case quiet =>
    rintro (hreporter | hlevel)
    · simp [noted, hreporter]
    · have hwould : ¬ s.logger.wouldLog f.entry.level = true :=
        fun h => Log.Logger.wouldLog_error_iff.1 h hlevel
      simp [noted, Log.Logger.emit, hwould]

end State

theorem State.discard_eq (passed : Option Finalizer) (t : State) :
    t.discard passed = {t with events := View.discarded passed ++ t.events} := by
  rcases passed with _ | ⟨⟨_ | _, label, body⟩⟩ | _ <;> rfl

/-- What is thrown away on the way out is all that is seen of it. -/
theorem Reported.discard {f : Fault} {t : State} (h : Reported f none s t)
    (passed : Option Finalizer) : Reported f passed s (t.discard passed) := by
  rw [State.discard_eq]
  exact {h with events := congrArg (View.discarded passed ++ ·) h.events}

/-! ### How failures compose -/

namespace Outcome

theorem Settles.failsCleanly {out : Outcome α} (h : out.Settles) :
    out.FailsCleanly raise passed s :=
  fun cause t heq => absurd heq (h cause t)

theorem Settles.returned (a : α) (t : State) : (Outcome.returned a t).Settles :=
  fun _ _ => nofun

theorem Settles.halted (halt : Halt) (t : State) : (Outcome.halted halt t : Outcome α).Settles :=
  fun _ _ => nofun

theorem Settles.andThen {out : Outcome α} {next : α → State → Outcome β} (h : out.Settles)
    (hnext : ∀ a t, (next a t).Settles) : (out.andThen next).Settles := by
  cases out with
  | returned a t => exact hnext a t
  | unwound cause t => exact absurd rfl (h cause t)
  | halted halt t => exact Settles.halted halt t

theorem Settles.given {found : Option α} {next : α → Outcome β}
    (h : ∀ a, found = some a → (next a).Settles) : (s.given found next).Settles := by
  cases found with
  | none => exact Settles.halted _ s
  | some a => exact h a rfl

theorem FailsCleanly.report (h : s.faults.raises = some raise) (f : Fault) :
    (s.report f : Outcome α).FailsCleanly raise none s := by
  intro cause t heq
  rw [State.report_of_raises h] at heq
  cases heq
  exact ⟨f, rfl, s.reported_noted f⟩

theorem FailsCleanly.given {found : Option α} {next : α → Outcome β}
    (h : ∀ a, found = some a → (next a).FailsCleanly raise passed s) :
    (s.given found next).FailsCleanly raise passed s := by
  cases found with
  | none => exact (Settles.halted _ s).failsCleanly
  | some a => exact h a rfl

/-- An operation that fails cleanly, followed by one that does not unwind. -/
theorem FailsCleanly.andThen {out : Outcome α} {next : α → State → Outcome β}
    (h : out.FailsCleanly raise passed s)
    (hnext : ∀ a t, out = .returned a t → (next a t).Settles) :
    (out.andThen next).FailsCleanly raise passed s := by
  cases out with
  | returned a t => exact (hnext a t rfl).failsCleanly
  | unwound cause t =>
    intro cause' t' heq
    cases heq
    exact h cause t rfl
  | halted halt t => exact (Settles.halted halt t).failsCleanly

theorem FailsCleanly.map {out : Outcome α} (h : out.FailsCleanly raise passed s) (f : α → β) :
    (out.map f).FailsCleanly raise passed s :=
  h.andThen fun a t _ => Settles.returned (f a) t

/-- What a foreign call does not let out stays in. -/
theorem FailsCleanly.through {out : Outcome α} (h : out.FailsCleanly raise passed s)
    (via : Convention) : (out.through via).FailsCleanly raise passed s := by
  cases via with
  | native => simpa using h
  | foreign =>
    cases out with
    | unwound cause t => exact (Settles.halted _ t).failsCleanly
    | _ => exact h

end Outcome

/-! ### Operations -/

namespace State

open Outcome

section Operations

variable (h : s.faults.raises = some raise)
include h

theorem resolve_failsCleanly (o : ObjectId) : (s.resolve o).FailsCleanly raise none s := by
  unfold resolve
  split
  · exact (Settles.returned _ s).failsCleanly
  · exact .report h _

/-- What the operations on a count share: they fail before they take the lock, or once they have
returned it. -/
theorem access_failsCleanly {next : CellId → Cell → State → Outcome β} (o : ObjectId)
    (hnext : ∀ c cell, s.heap.Opens o c cell →
      (next c {cell with locked := true} (s.onHeap (·.setLocked c true))).FailsCleanly raise none s) :
    ((s.resolve o).andThen fun c s => (s.lock c).andThen fun cell s => next c cell s).FailsCleanly
      raise none s := by
  rcases s.heap.access o with hgone | ⟨c, hlink, hclosed⟩ | ⟨c, cell, hopens⟩
  · rw [access_of_gone hgone]
    exact .report h _
  · rw [access_of_barred hlink hclosed]
    exact (Settles.halted _ s).failsCleanly
  · rw [access_of_opens hopens]
    exact hnext c cell hopens

theorem retain_failsCleanly (o : ObjectId) : (s.retain o).FailsCleanly raise none s := by
  refine access_failsCleanly h o fun c cell hopens => ?_
  split
  · rw [unlock_lock hopens.found hopens.unlocked]
    exact .report h _
  · exact (Settles.returned _ _).failsCleanly

theorem release_failsCleanly (o : ObjectId) : (s.release o).FailsCleanly raise none s := by
  refine access_failsCleanly h o fun c cell hopens => ?_
  split
  · rw [unlock_lock hopens.found hopens.unlocked]
    exact .report h _
  · simp only
    split <;> exact (Settles.returned _ _).failsCleanly

theorem isUnique_failsCleanly (o : ObjectId) : (s.isUnique o).FailsCleanly raise none s :=
  access_failsCleanly h o fun _ _ _ => (Settles.returned _ _).failsCleanly

theorem count_failsCleanly (o : ObjectId) : (s.count o).FailsCleanly raise none s :=
  access_failsCleanly h o fun _ _ _ => (Settles.returned _ _).failsCleanly

omit h in
theorem requestRegion_settles (provider : Option AllocatorId) (layout : Layout) (s : State) :
    (s.requestRegion provider layout).Settles :=
  .given fun _ _ => Settles.returned _ _

/-- An allocation fails before its allocator is asked. -/
theorem allocate_failsCleanly (provider : Option AllocatorId) (size : UInt64) (contents : Contents)
    (finalizer : Option Finalizer) :
    (s.allocate provider size contents finalizer).FailsCleanly raise finalizer s := by
  unfold allocate
  split
  · rw [report_of_raises h]
    intro cause t heq
    cases heq
    exact ⟨_, rfl, (s.reported_noted _).discard finalizer⟩
  · refine (requestRegion_settles provider _ s).failsCleanly.andThen fun granted t _ => ?_
    split
    · exact Settles.returned _ _
    · exact Settles.halted _ _

omit h in
/-- The payloads of values are small, and a new object has room for a reference. -/
theorem hold_settles (v : Value) (s : State) : (s.hold v).Settles := by
  have hlayout : ∃ layout, Layout.ofPayload? v.kind.size = some layout := by
    cases v.kind <;> exact ⟨_, rfl⟩
  obtain ⟨layout, hlayout⟩ := hlayout
  unfold hold allocate
  rw [hlayout]
  simp only
  cases hr : s.requestRegion s.allocators.installed layout with
  | unwound cause t => exact absurd hr (requestRegion_settles _ _ s cause t)
  | halted halt t => exact Settles.halted _ t
  | returned granted t =>
    rw [andThen_returned]
    cases granted with
    | false => exact Settles.halted _ t
    | true =>
      simp only [if_true, andThen_returned]
      have hroom : (0 : UInt32) ≠ maxCount := by decide
      rw [retain_of_opens (Heap.opens_addObject (h := t.heap) _ _ _), if_neg hroom]
      exact Settles.returned _ _

omit h in
theorem valueAnswer_settles {o : ObjectId} {s : State} :
    (s.given (s.heap.value? o) fun v => s.given (s.valueAnswer? v) fun answer =>
      .returned answer s).Settles :=
  .given fun _ _ => .given fun _ _ => Settles.returned _ _

/-- Only the look at the count can fail. -/
theorem setHandle_failsCleanly (o : ObjectId) (literal : Literal) :
    (s.setHandle o literal).FailsCleanly raise none s := by
  refine (isUnique_failsCleanly h o).andThen fun unique t _ => ?_
  split
  · exact .given fun _ _ => Settles.returned _ _
  · exact Settles.returned _ _

theorem pushChild_failsCleanly (o : ObjectId) (child : String) :
    (s.pushChild o child).FailsCleanly raise none s := by
  refine (isUnique_failsCleanly h o).andThen fun unique t _ => ?_
  split
  · refine .given fun _ _ => ?_
    split
    · exact Settles.returned _ _
    · exact Settles.halted _ _
  · exact Settles.returned _ _

theorem performHandle_failsCleanly (action : HandleAction) :
    (s.performHandle action).FailsCleanly raise none s := by
  cases action with
  | create handle kind literal =>
    exact Settles.failsCleanly (.given fun (children, t) _ => .given fun v _ =>
      (hold_settles v t).andThen fun o t => Settles.returned _ _)
  | clone handle copy =>
    exact .given fun o _ => (retain_failsCleanly h o).andThen fun _ t _ => Settles.returned _ _
  | count handle => exact .given fun o _ => (count_failsCleanly h o).map _
  | isUnique handle => exact .given fun o _ => (isUnique_failsCleanly h o).map _
  | set handle literal => exact .given fun o _ => setHandle_failsCleanly h o literal
  | push handle child => exact .given fun o _ => pushChild_failsCleanly h o child
  | get handle => exact Settles.failsCleanly (.given fun o _ => valueAnswer_settles)
  | equal handle other =>
    exact Settles.failsCleanly (.given fun a _ => .given fun b _ => .given fun x _ =>
      .given fun y _ => Settles.returned _ _)
  | sameObject handle other =>
    exact Settles.failsCleanly (.given fun a _ => .given fun b _ => Settles.returned _ _)
  | write handle form =>
    exact Settles.failsCleanly (.given fun o _ => .given fun image _ => .given fun text _ =>
      Settles.returned _ _)
  | intoObject handle name => exact Settles.failsCleanly (.given fun o _ => Settles.returned _ _)
  | asObject handle name => exact Settles.failsCleanly (.given fun o _ => Settles.returned _ _)
  | fromObject name handle => exact Settles.failsCleanly (.given fun o _ => Settles.returned _ _)

theorem withInstance_failsCleanly {next : ObjectId → Outcome β} (exportName : String)
    (name : Option String) (hnext : ∀ o, (next o).FailsCleanly raise none s) :
    (s.withInstance exportName name next).FailsCleanly raise none s := by
  cases name with
  | none => exact .report h _
  | some name => exact .given fun o _ => hnext o

omit h in
theorem lock_settles (c : CellId) (s : State) : (s.lock c).Settles := by
  unfold lock
  split
  · split
    · exact Settles.halted _ s
    · exact Settles.returned _ _
  · exact Settles.halted _ s

theorem performObject_failsCleanly (action : ObjectAction) :
    (s.performObject action).FailsCleanly raise none s := by
  cases action with
  | count name via =>
    exact (withInstance_failsCleanly h _ name fun o => (count_failsCleanly h o).map _).through via
  | isUnique name via =>
    exact (withInstance_failsCleanly h _ name fun o => (isUnique_failsCleanly h o).map _).through via
  | resolve name => exact .given fun o _ => (resolve_failsCleanly h o).map _
  | guard name =>
    exact Settles.failsCleanly (.given fun o _ => .given fun c _ =>
      (lock_settles c s).andThen fun cell t => .given fun after _ => Settles.returned _ _)
  | guardCell name =>
    exact Settles.failsCleanly (.given fun c _ =>
      (lock_settles c s).andThen fun cell t => Settles.returned _ _)
  | forceCount name count =>
    exact Settles.failsCleanly (.given fun o _ => .given fun c _ => Settles.returned _ _)
  | write name start bytes =>
    exact Settles.failsCleanly (.given fun o _ => .given fun object _ => Settles.returned _ _)
  | read name start length =>
    exact Settles.failsCleanly (.given fun o _ => .given fun object _ => Settles.returned _ _)
  | statistics => exact (Settles.returned _ _).failsCleanly
  | faultCount => exact (Settles.returned _ _).failsCleanly
  | _ => exact Settles.failsCleanly (.given fun _ _ => Settles.returned _ _)

theorem performSetting_failsCleanly (action : SettingAction) :
    (s.performSetting action).FailsCleanly raise none s := by
  cases action with
  | report fault => exact .report h fault
  | raiseForeign message => exact (FailsCleanly.report h _).through .foreign
  | setAllocatorLimit name limit =>
    exact Settles.failsCleanly (.given fun i _ => .given fun q _ => Settles.returned _ _)
  | allocatorQuota name =>
    exact Settles.failsCleanly (.given fun i _ => .given fun q _ => Settles.returned _ _)
  | installAllocator name =>
    refine Settles.failsCleanly (.given fun i _ => .given fun q _ => ?_)
    dsimp only
    split <;> exact Settles.returned _ _
  | _ => exact (Settles.returned _ _).failsCleanly

end Operations
end State

/-! ### Transitions -/

namespace Machine

/-- The next transition makes a call: it performs a step, which is not to panic of its own accord,
or releases, or goes on with the next of several calls. -/
def Calls (m : Machine) : Bool :=
  match m.control, m.stack with
  | .perform (.act (.panic _)), _ => false
  | .perform _, _ => true
  | .release _, _ => true
  | .answer _, .repeating _ _ _ _ :: _ => true
  | .answer _, .thread _ _ _ _ :: _ => true
  | .unwind _, .thread _ _ _ _ :: _ => true
  | _, _ => false

/-- The finalizer that the next transition passes along. -/
def passed? (m : Machine) : Option Finalizer :=
  match m.control with
  | .perform (.allocate _ _ routine _ via) => (passedRoutine via routine).map .routine
  | _ => none

/-- The machine unwinds only over a fault that was reported, with nothing else done. -/
def FailsCleanly (m : Machine) (raise : Fault → Cause) (passed : Option Finalizer) (s : State) :
    Prop :=
  ∀ cause, m.control = .unwind cause → ∃ f, cause = raise f ∧ Reported f passed s m.state

theorem FailsCleanly.of_ne {m : Machine} (h : ∀ cause, m.control ≠ .unwind cause) :
    m.FailsCleanly raise passed s :=
  fun cause heq => absurd heq (h cause)

theorem FailsCleanly.settle {out : Outcome Answer} (h : out.FailsCleanly raise passed s)
    (stack : List Frame) : (settle out stack).FailsCleanly raise passed s := by
  intro cause heq
  cases out with
  | returned answer t => cases heq
  | halted halt t => cases heq
  | unwound cause' t =>
    cases heq
    exact h cause t rfl

section Calls

variable (h : s.faults.raises = some raise) (stack : List Frame)
include h

theorem call_failsCleanly (c : CountCall) (o : ObjectId) :
    (call c o s stack).FailsCleanly raise none s := by
  cases c with
  | retain => exact .settle ((State.retain_failsCleanly h o).map _) stack
  | release => exact .of_ne nofun

theorem callNamed_failsCleanly (c : CountCall) (name : Option String) :
    (callNamed c name s stack).FailsCleanly raise none s := by
  unfold callNamed
  split
  · exact .settle (.report h _) stack
  · split
    · exact call_failsCleanly h stack c _
    · exact .of_ne nofun

theorem repeatCall_failsCleanly (c : CountCall) (name : Option String) (via : Convention)
    (times : Nat) : (repeatCall c name via s stack times).FailsCleanly raise none s := by
  cases times with
  | zero => exact .of_ne nofun
  | succ times => exact callNamed_failsCleanly h _ c name

theorem runThreads_failsCleanly (o : ObjectId) (waiting : List (List CountCall))
    (ended : List Bool) : (runThreads o s stack waiting ended).FailsCleanly raise none s := by
  induction waiting generalizing ended with
  | nil => exact .of_ne nofun
  | cons calls waiting ih =>
    cases calls with
    | nil => exact ih (ended ++ [true])
    | cons c rest => exact call_failsCleanly h _ c o

theorem release_failsCleanly (o : ObjectId) : (release o s stack).FailsCleanly raise none s := by
  have hrelease := State.release_failsCleanly h o
  unfold release
  split
  · exact .of_ne nofun
  · next t finalizer u _ =>
    refine .of_ne ?_
    unfold finalize
    split
    · nofun
    · next r =>
      unfold continueRoutine
      split <;> nofun
    · unfold dropValue continueDropping
      split
      · split <;> nofun
      · nofun
  · next cause t heq =>
    intro cause' hcause
    cases hcause
    exact hrelease cause t heq
  · exact .of_ne nofun

/-- Once the handle is known to be one of several, nothing fails on the spot: a child whose count
leaves no room is reported only after those before it were let go again. -/
theorem makeUnique_failsCleanly (handle : String) (o : ObjectId) (literal : Literal) :
    (makeUnique handle o literal s stack).FailsCleanly raise none s := by
  have hunique := State.isUnique_failsCleanly h o
  unfold makeUnique
  split
  · next t _ =>
    exact .settle (Outcome.Settles.failsCleanly (.given fun u _ => .returned _ u)) stack
  · next t _ =>
    refine .of_ne ?_
    unfold copyOnWrite
    split
    · nofun
    · next v _ =>
      split
      · next retained cause u _ =>
        unfold continueDropping
        split <;> nofun
      · nofun
      · next u _ =>
        split
        · nofun
        · next cause w heq => exact absurd heq (State.hold_settles v u cause w)
        · nofun
  · next cause t heq =>
    intro cause' hcause
    cases hcause
    exact hunique cause t heq
  · exact .of_ne nofun

theorem perform_failsCleanly (step : Step) (hstep : ∀ message, step ≠ .act (.panic message)) :
    (perform s stack step).FailsCleanly raise (passed? ⟨s, .perform step, stack⟩) s := by
  cases step with
  | allocate name size routine provider via =>
    refine .settle (.through (.given fun provider _ => ?_) via) stack
    exact (State.allocate_failsCleanly h provider size (.bytes []) _).andThen
      fun o t _ => .returned _ _
  | assemble name size routine => exact .of_ne nofun
  | reinstall name routine =>
    exact .settle (Outcome.Settles.failsCleanly (.given fun o _ => .returned _ _)) stack
  | newCell name routine => exact .of_ne nofun
  | describe routine => exact .of_ne nofun
  | call c name times via => exact repeatCall_failsCleanly h stack c name via times
  | race name threads retains releases rounds =>
    unfold perform
    simp only
    split
    · exact runThreads_failsCleanly h stack _ _ _
    · exact .of_ne nofun
  | dropHandle handle =>
    unfold perform
    simp only
    split <;> exact .of_ne nofun
  | makeUnique handle literal =>
    unfold perform
    simp only
    split
    · exact makeUnique_failsCleanly h stack handle _ literal
    · exact .of_ne nofun
  | attempt step => exact .of_ne nofun
  | act action =>
    cases action with
    | object action => exact .settle (State.performObject_failsCleanly h action) stack
    | log action => exact .of_ne nofun
    | setting action => exact .settle (State.performSetting_failsCleanly h action) stack
    | handle action => exact .settle (State.performHandle_failsCleanly h action) stack
    | panic message => exact absurd rfl (hstep message)

end Calls

variable {m m' : Machine}

theorem failsCleanly_of_next? (h : m.state.faults.raises = some raise) (hcalls : m.Calls = true)
    (hnext : m.next? = some m') : m'.FailsCleanly raise m.passed? m.state := by
  obtain ⟨s, control, stack⟩ := m
  cases control with
  | perform step =>
    cases hnext
    refine perform_failsCleanly h stack step ?_
    rintro message rfl
    cases hcalls
  | release o =>
    cases hnext
    exact release_failsCleanly h stack o
  | answer answer =>
    cases stack with
    | nil => cases hnext
    | cons frame stack =>
      cases hnext
      cases frame with
      | repeating c name times via => exact repeatCall_failsCleanly h stack c name via times
      | thread rest o waiting ended => exact runThreads_failsCleanly h stack o _ ended
      | _ => cases hcalls
  | unwind cause =>
    cases stack with
    | nil => cases hnext
    | cons frame stack =>
      cases hnext
      cases frame with
      | thread rest o waiting ended => exact runThreads_failsCleanly h stack o waiting _
      | _ => cases hcalls
  | halt halt => cases hnext

end Machine

/-! ### Every call -/

/-- Every operation that unwinds from a state has reported a fault and done nothing else. -/
structure State.FailsAtomically (s : State) (raise : Fault → Cause) : Prop where
  allocate (provider : Option AllocatorId) (size : UInt64) (contents : Contents)
    (finalizer : Option Finalizer) :
    (s.allocate provider size contents finalizer).FailsCleanly raise finalizer s
  retain (o : ObjectId) : (s.retain o).FailsCleanly raise none s
  release (o : ObjectId) : (s.release o).FailsCleanly raise none s
  isUnique (o : ObjectId) : (s.isUnique o).FailsCleanly raise none s
  count (o : ObjectId) : (s.count o).FailsCleanly raise none s
  resolve (o : ObjectId) : (s.resolve o).FailsCleanly raise none s
  /-- A handle that is cloned or asked. -/
  handle (action : HandleAction) : (s.performHandle action).FailsCleanly raise none s
  /-- The same for the machine, wherever it stands: the state is left as it was before the
  transition that made the call. -/
  transition (m m' : Machine) (state : m.state = s) (calls : m.Calls = true)
    (next : m.next? = some m') : m'.FailsCleanly raise m.passed? s

/-- **A call that reports a fault of its own leaves everything else as it was.** -/
theorem State.failsAtomically {s : State} {raise : Fault → Cause}
    (h : s.faults.raises = some raise) : s.FailsAtomically raise where
  allocate := allocate_failsCleanly h
  retain := retain_failsCleanly h
  release := release_failsCleanly h
  isUnique := isUnique_failsCleanly h
  count := count_failsCleanly h
  resolve := resolve_failsCleanly h
  handle := performHandle_failsCleanly h
  transition m m' state calls next := by
    subst state
    exact Machine.failsCleanly_of_next? h calls next

/-- A finalizer lets go of an object to which nobody has a reference. -/
def Session.overdrawn : Session where
  steps :=
    [.allocate "idle" 8 none none .native] ++ keeping "outer" [lettingGo "idle"] ++
      [lettingGo "outer"]

/-- A release that fails while a finalizer runs, and an allocation there that no region could
hold. -/
theorem State.failsAtomically_overdrawn :
    (teardowns (Session.overdrawn.stage .embedded 14).stack).length = 1 ∧
      Reported (.releaseUnderflow (.object 0)) none (Session.overdrawn.stage .embedded 14).state
        (Session.overdrawn.stage .embedded 15).state ∧
      ∃ t, (Session.overdrawn.stage .embedded 14).state.allocate none 0xFFFFFFFFFFFFFFFF (.bytes [])
            (some (.routine ⟨.native, "late", []⟩)) =
          .unwound (.fault (.layoutOverflow 0xFFFFFFFFFFFFFFFF)) t ∧
        Reported (.layoutOverflow 0xFFFFFFFFFFFFFFFF) (some (.routine ⟨.native, "late", []⟩))
          (Session.overdrawn.stage .embedded 14).state t := by
  have h : (Session.overdrawn.stage .embedded 14).state.FailsAtomically .fault :=
    State.failsAtomically rfl
  refine ⟨by decide, ?_, _, rfl, ?_⟩
  · obtain ⟨f, hf, hreported⟩ := h.transition
      ⟨(Session.overdrawn.stage .embedded 14).state, .release 0,
        (Session.overdrawn.stage .embedded 14).stack⟩ _ rfl rfl rfl
      (.fault (.releaseUnderflow (.object 0))) rfl
    obtain rfl := Cause.fault.inj hf
    exact hreported
  · obtain ⟨f, hf, hreported⟩ := h.allocate none 0xFFFFFFFFFFFFFFFF (.bytes [])
      (some (.routine ⟨.native, "late", []⟩)) _ _ rfl
    obtain rfl := Cause.fault.inj hf
    exact hreported

end Custody
