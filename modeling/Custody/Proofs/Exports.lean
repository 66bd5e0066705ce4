import Custody.Proofs.Atomicity
import Custody.Proofs.Boundary
import Custody.Proofs.NativeCalls

/-! Foreign calls and native ones: transitions.

An exported function stands behind a barrier while it retains or releases, where a native call has
none, and the other exports turn unwinding into the end of the process themselves. Otherwise the
machine does the same in both cases (`Machine.follows_next?`): only where a call through an export
unwinds do the two part. Handed null, an export does not come back at all
(`InstanceExport.run_null`). -/
namespace Custody

/-! ### Machines -/

inductive Frame.Parallel : Frame → Frame → Prop where
  | repeating (c : CountCall) (name : String) (times : Nat) :
    Parallel (.repeating c (some name) times .native) (.repeating c (some name) times .native)
  | routine (label : String) (rest : List Step) :
    Parallel (.routine label (bodyNative rest)) (.routine label rest)
  | teardown (t : Teardown) : Parallel (.teardown t) (.teardown t)
  | barrier : Parallel .barrier .barrier
  | attempt : Parallel .attempt .attempt
  | dropping (rest : List ObjectId) (cause : Option Cause) :
    Parallel (.dropping rest cause) (.dropping rest cause)

/-- The stacks of parallel machines. A call through an export stands behind a barrier. -/
inductive Frames.Parallel : List Frame → List Frame → Prop where
  | nil : Parallel [] []
  | cons {frame frame' : Frame} {stack stack' : List Frame} (top : frame.Parallel frame')
    (below : Parallel stack stack') : Parallel (frame :: stack) (frame' :: stack')
  | exported (c : CountCall) (name : String) (times : Nat) {stack stack' : List Frame}
    (below : Parallel stack stack') :
    Parallel (.repeating c (some name) times .native :: stack)
      (.barrier :: .repeating c (some name) times .foreign :: stack')

inductive Control.Parallel : Control → Control → Prop where
  | perform (step : Step) : Parallel (.perform step.native) (.perform step)
  | release (o : ObjectId) : Parallel (.release o) (.release o)
  | answer {answer answer' : Answer} (h : answer.Reads answer') :
    Parallel (.answer answer) (.answer answer')
  | unwind (cause : Cause) : Parallel (.unwind cause) (.unwind cause)
  | halt (halt : Halt) : Parallel (.halt halt) (.halt halt)

/-- The first machine is the second one after native calls. -/
structure Machine.Parallel (m m' : Machine) : Prop where
  state : m.state.Parallel m'.state
  control : m.control.Parallel m'.control
  stack : Frames.Parallel m.stack m'.stack

namespace Machine

/-- The next transition is a call through an export, or leaves one that unwinds. -/
def exports (m : Machine) : Bool :=
  match m.control, m.stack with
  | .perform (.allocate _ _ _ _ .foreign), _ => true
  | .perform (.act (.object (.count _ .foreign))), _ => true
  | .perform (.act (.object (.isUnique _ .foreign))), _ => true
  | .unwind _, .barrier :: .repeating _ _ _ .foreign :: _ => true
  | _, _ => false

/-- The next transition leaves a call through an export that has come back. -/
def returns (m : Machine) : Bool :=
  match m.control, m.stack with
  | .answer _, .barrier :: .repeating _ _ _ .foreign :: _ => true
  | _, _ => false

theorem not_exports_of_returns {m : Machine} (h : m.returns = true) : m.exports = false := by
  obtain ⟨s, control, stack⟩ := m
  cases control with
  | answer answer => rfl
  | _ => cases h

def unwinds (m : Machine) : Bool :=
  match m.control with
  | .unwind _ => true
  | _ => false

/-- What a transition next to a native one leads to: parallel machines, or the end of the process
where a call through an export unwinds. -/
inductive Follows (m' : Machine) (n : Machine) : Machine → Prop where
  | along {n' : Machine} (contained : (m'.exports && n.unwinds) = false) (h : n.Parallel n') :
    Follows m' n n'
  | aborts (escapes : (m'.exports && n.unwinds) = true) {t : State} (stack : List Frame)
    (h : n.state.Parallel t) : Follows m' n ⟨t, .halt .aborted, stack⟩

variable {s t : State} {stack stack' : List Frame} {m m' : Machine}

theorem parallel_guarded (hst : Frames.Parallel stack stack') (via : Convention)
    (teardown : Teardown) :
    Frames.Parallel (guarded via (.teardown teardown :: stack))
      (guarded via (.teardown teardown :: stack')) := by
  have hbelow := Frames.Parallel.cons (.teardown teardown) hst
  cases via with
  | native => exact hbelow
  | foreign => exact .cons .barrier hbelow

theorem parallel_settle {out out' : Outcome Answer} (h : out.Parallel Answer.Reads out')
    (hst : Frames.Parallel stack stack') : (settle out stack).Parallel (settle out' stack') := by
  cases h with
  | returned result h => exact ⟨h, .answer result, hst⟩
  | unwound cause h => exact ⟨h, .unwind cause, hst⟩
  | halted halt h => exact ⟨h, .halt halt, hst⟩

section Transitions

variable (h : s.Parallel t) (hst : Frames.Parallel stack stack')
include h hst

/-! ### Calls -/

theorem parallel_call (c : CountCall) (o : ObjectId) :
    (call c o s stack).Parallel (call c o t stack') := by
  cases c with
  | retain => exact parallel_settle ((State.parallel_retain h o).map fun _ _ _ => .same _) hst
  | release => exact ⟨h, .release o, hst⟩

/-- Several calls, on the one side native ones. -/
theorem parallel_repeatCall (c : CountCall) (name : String) (via : Convention) (times : Nat) :
    (repeatCall c (some name) .native s stack times).Parallel
      (repeatCall c (some name) via t stack' times) := by
  cases times with
  | zero => exact ⟨h, .answer (.same _), hst⟩
  | succ times =>
    have hbelow : Frames.Parallel
        (guarded .native (.repeating c (some name) times .native :: stack))
        (guarded via (.repeating c (some name) times via :: stack')) := by
      cases via with
      | native => exact .cons (.repeating c name times) hst
      | foreign => exact .exported c name times hst
    unfold repeatCall callNamed
    rw [h.names]
    dsimp only
    cases t.names.objects.find? name with
    | some o => exact parallel_call h hbelow c o
    | none => exact ⟨h, .halt .malformed, hbelow⟩

/-! ### Finalizers -/

theorem parallel_continueRoutine (label : String) (steps : List Step) :
    (continueRoutine label s stack (bodyNative steps)).Parallel
      (continueRoutine label t stack' steps) := by
  cases steps with
  | nil => exact ⟨h.observe (.same _), .answer (.same _), hst⟩
  | cons step rest => exact ⟨h, .perform step, .cons (.routine label rest) hst⟩

theorem parallel_continueDropping (cause : Option Cause) (os : List ObjectId) :
    (continueDropping cause s stack os).Parallel (continueDropping cause t stack' os) := by
  cases os with
  | nil =>
    cases cause with
    | none => exact ⟨h, .answer (.same _), hst⟩
    | some cause => exact ⟨h, .unwind cause, hst⟩
  | cons o rest => exact ⟨h, .release o, .cons (.dropping rest cause) hst⟩

theorem parallel_dropValue (o : ObjectId) :
    (dropValue o s stack).Parallel (dropValue o t stack') := by
  have hemptied := h.onHeap (Heap.native_setContents (h := t.heap) (o := o) .remains).symm
  unfold dropValue
  rw [h.heap, Heap.value?_native]
  split
  · exact parallel_continueDropping (hemptied.observe (.same _)) hst none _
  · exact ⟨hemptied, .answer (.same _), hst⟩

theorem parallel_finalize (teardown : Teardown) (finalizer : Option Finalizer) :
    (finalize teardown (finalizer.map Finalizer.native) s stack).Parallel
      (finalize teardown finalizer t stack') := by
  cases finalizer with
  | none => exact ⟨h, .answer (.same _), .cons (.teardown teardown) hst⟩
  | some finalizer =>
    cases finalizer with
    | dropValue =>
      exact parallel_dropValue h (.cons .barrier (.cons (.teardown teardown) hst)) teardown.object
    | routine r =>
      obtain ⟨convention, label, body⟩ := r
      have hlocked : (s.heap.governing? teardown.object).map (·.locked) =
          (t.heap.governing? teardown.object).map (·.locked) := by
        rw [h.heap, Heap.governing?_native, Option.map_map]
        rfl
      show (continueRoutine label (s.observe (.entered label teardown.object
          ((s.heap.governing? teardown.object).map (·.locked)))) _ (bodyNative body)).Parallel _
      rw [hlocked]
      exact parallel_continueRoutine (h.observe (.same _))
        (parallel_guarded hst convention teardown) label body

theorem parallel_release (o : ObjectId) : (release o s stack).Parallel (release o t stack') := by
  have hrelease := State.parallel_release h o
  unfold release
  generalize s.release o = out at hrelease
  generalize t.release o = out' at hrelease
  cases hrelease with
  | @returned begun begun' result s t h =>
    cases begun' with
    | none =>
      cases result
      exact ⟨h, .answer (.same _), hst⟩
    | some begun' =>
      cases result
      exact parallel_finalize h hst begun'.1 begun'.2
  | unwound cause h => exact ⟨h, .unwind cause, hst⟩
  | halted halt h => exact ⟨h, .halt halt, hst⟩

/-! ### Frames -/

theorem parallel_resume {frame frame' : Frame} (hframe : frame.Parallel frame')
    {answer answer' : Answer} (hread : answer.Reads answer') :
    (resume answer s stack frame).Parallel (resume answer' t stack' frame') := by
  cases hframe with
  | repeating c name times => exact parallel_repeatCall h hst c name .native times
  | routine label rest => exact parallel_continueRoutine (h.observe (.stepped hread)) hst label rest
  | teardown teardown => exact ⟨State.parallel_finish h teardown, .answer (.same _), hst⟩
  | barrier => exact ⟨h, .answer hread, hst⟩
  | attempt => exact ⟨h, .answer (.succeeded hread), hst⟩
  | dropping rest cause => exact parallel_continueDropping h hst cause rest

theorem parallel_unwind {frame frame' : Frame} (hframe : frame.Parallel frame') (cause : Cause) :
    (unwind cause s stack frame).Parallel (unwind cause t stack' frame') := by
  cases hframe with
  | repeating c name times => exact ⟨h, .unwind cause, hst⟩
  | routine label rest => exact ⟨h, .unwind cause, hst⟩
  | teardown teardown => exact ⟨State.parallel_finish h teardown, .unwind cause, hst⟩
  | barrier => exact ⟨h, .halt .aborted, hst⟩
  | attempt => exact ⟨h, .answer (.same _), hst⟩
  | dropping rest earlier =>
    cases earlier with
    | none => exact parallel_continueDropping h hst (some cause) rest
    | some earlier => exact ⟨h, .halt .aborted, hst⟩

/-! ### Steps -/

omit h in
/-- The end of an operation that is called as a whole. -/
theorem follows_through {out out' : Outcome Answer} (hout : out.Parallel Answer.Reads out')
    (via : Convention) (hexports : m'.exports = (via == .foreign)) :
    Follows m' (settle (out.through .native) stack) (settle (out'.through via) stack') := by
  rw [Outcome.through_native]
  cases via with
  | native =>
    rw [Outcome.through_native]
    exact .along (by rw [hexports]; rfl) (parallel_settle hout hst)
  | foreign =>
    cases hout with
    | returned result h => exact .along (Bool.and_false _) ⟨h, .answer result, hst⟩
    | unwound cause h => exact .aborts (by rw [hexports]; rfl) stack' h
    | halted halt h => exact .along (Bool.and_false _) ⟨h, .halt halt, hst⟩

omit hst in
/-- A call on an object that is not null. -/
theorem parallel_withInstance {exportName name : String} {R : α → β → Prop}
    {next : ObjectId → Outcome α} {next' : ObjectId → Outcome β}
    (hnext : ∀ o, (next o).Parallel R (next' o)) :
    (s.withInstance exportName (some name) next).Parallel R
      (t.withInstance exportName (some name) next') := by
  unfold State.withInstance State.withObject
  rw [h.names]
  exact .given h fun o _ => hnext o

/-- **A step leads on next to its native form**, or it is a call through an export that unwinds. -/
theorem follows_perform {step : Step} (hportable : step.portable = true) :
    Follows ⟨t, .perform step, stack'⟩ (perform s stack step.native) (perform t stack' step) := by
  cases step with
  | allocate name size routine provider via =>
    have hpassed : passedRoutine via routine = routine := by
      cases via with
      | native => rfl
      | foreign =>
        cases routine with
        | none => rfl
        | some r => exact if_pos hportable
    have hnative : (passedRoutine .native (routineNative routine)).map Finalizer.routine =
        (routine.map Finalizer.routine).map Finalizer.native := by
      cases routine <;> rfl
    have hprovider : s.provider? provider = t.provider? provider := by
      unfold State.provider?
      rw [h.allocators, h.names]
    simp only [Step.native, perform, hpassed, hnative, hprovider]
    refine follows_through hst ?_ via (by cases via <;> rfl)
    refine .given h fun provider _ => (State.parallel_allocate h provider size _ _).andThen
      fun o o' s t heq h => ?_
    subst heq
    exact .returned (.same _) (h.onNames _)
  | call c name times via =>
    obtain ⟨name, rfl⟩ := Option.isSome_iff_exists.1 hportable
    exact .along rfl (parallel_repeatCall h hst c name via times)
  | attempt step => exact .along rfl ⟨h, .perform step, .cons .attempt hst⟩
  | act action =>
    cases action with
    | object action =>
      cases action with
      | count name via =>
        obtain ⟨name, rfl⟩ := Option.isSome_iff_exists.1 hportable
        refine follows_through hst (parallel_withInstance h fun o => ?_) via (by cases via <;> rfl)
        refine (State.parallel_count h o).map fun n n' heq => ?_
        subst heq
        exact .same _
      | isUnique name via =>
        obtain ⟨name, rfl⟩ := Option.isSome_iff_exists.1 hportable
        refine follows_through hst (parallel_withInstance h fun o => ?_) via (by cases via <;> rfl)
        refine (State.parallel_isUnique h o).map fun b b' heq => ?_
        subst heq
        cases via with
        | native => exact .same _
        | foreign => exact .unique b
      | _ => cases hportable
    | _ => cases hportable
  | _ => cases hportable

end Transitions

/-! ### Transitions -/

/-- No call through an export stands without its barrier. -/
theorem Frames.Parallel.not_bare {c : CountCall} {name : Option String} {times : Nat} :
    ¬ Frames.Parallel stack (.repeating c name times .foreign :: stack') := by
  rintro (_ | ⟨⟨⟩, _⟩)

/-- A foreign call that has come back leaves its barrier, and then does what the native one does. -/
theorem parallel_returning (h : m.Parallel m') (hreturns : m'.returns = true) :
    ∃ n m'' n', m.next? = some n ∧ m'.next? = some m'' ∧ m''.next? = some n' ∧ n.Parallel n' := by
  obtain ⟨s, control, stack⟩ := m
  obtain ⟨t, control', stack'⟩ := m'
  obtain ⟨hstate, hcontrol, hstack⟩ := h
  cases hcontrol with
  | answer hread =>
    cases hstack with
    | exported c name times hbelow =>
      exact ⟨_, _, _, rfl, rfl, rfl, parallel_repeatCall hstate hbelow c name .foreign times⟩
    | nil => cases hreturns
    | cons hframe hbelow =>
      cases hframe with
      | barrier =>
        unfold returns at hreturns
        split at hreturns
        · next heq =>
          cases heq
          exact absurd hbelow Frames.Parallel.not_bare
        · cases hreturns
      | _ => cases hreturns
  | _ => cases hreturns

/-- **Parallel machines make parallel transitions**, unless a call through an export unwinds. -/
theorem follows_next? (h : m.Parallel m') (hreturns : m'.returns = false)
    (hportable : ∀ step, m'.control = .perform step → step.portable = true) :
    Option.Rel (Follows m') m.next? m'.next? := by
  obtain ⟨s, control, stack⟩ := m
  obtain ⟨t, control', stack'⟩ := m'
  obtain ⟨hstate, hcontrol, hstack⟩ := h
  cases hcontrol with
  | perform step => exact .some (follows_perform hstate hstack (hportable step rfl))
  | release o => exact .some (.along rfl (parallel_release hstate hstack o))
  | halt halt => exact .none
  | answer hread =>
    cases hstack with
    | nil => exact .none
    | cons hframe hbelow => exact .some (.along rfl (parallel_resume hstate hbelow hframe hread))
    | exported c name times hbelow => cases hreturns
  | unwind cause =>
    cases hstack with
    | nil => exact .none
    | exported c name times hbelow => exact .some (.aborts rfl _ hstate)
    | cons hframe hbelow =>
      refine .some (.along ?_ (parallel_unwind hstate hbelow hframe cause))
      cases hframe with
      | barrier => exact Bool.and_false _
      | _ => rfl

end Machine

/-! ### Null -/

/-- What an export that is handed null leaves of the process. -/
def State.lastHalt (s : State) (f : Fault) : Halt :=
  if s.faults.reporter = some .exiting then .exited f else .aborted

/-- Reporting a fault stops the process, or unwinds where that would stop it. -/
theorem State.report_ends (f : Fault) (s : State) :
    (s.report f : Outcome α) = .halted (s.lastHalt f) (s.noted f) ∨
      ∃ cause, (s.report f : Outcome α) = .unwound cause (s.noted f) ∧ s.lastHalt f = .aborted := by
  unfold State.report State.noted State.lastHalt
  cases hreporter : s.faults.reporter with
  | none =>
    cases s.faults.policy with
    | abort => exact .inl rfl
    | panic => exact .inr ⟨_, rfl, rfl⟩
  | some reporter =>
    cases reporter with
    | unwinding => exact .inr ⟨_, rfl, rfl⟩
    | exiting => exact .inl rfl

/-- The exported functions that are handed an object. -/
inductive InstanceExport where
  | retain
  | release
  | isUnique
  | count

namespace InstanceExport

def name : InstanceExport → String
  | retain => "rcbox_retain"
  | release => "rcbox_release"
  | isUnique => "rcbox_is_uniquely_referenced"
  | count => "rcbox_retain_count"

/-- The step that calls it. No name stands for null. -/
def call (object : Option String) : InstanceExport → Step
  | retain => .call .retain object 1 .foreign
  | release => .call .release object 1 .foreign
  | isUnique => .act (.object (.isUnique object .foreign))
  | count => .act (.object (.count object .foreign))

open Machine in
/-- **An export that is handed null does not come back.** The fault is noted, and that is all. -/
theorem run_null (e : InstanceExport) (s : State) (stack : List Frame) :
    ∃ rest, (Machine.mk s (.perform (e.call none)) stack).run =
      ⟨s.noted (.nullInstance e.name), .halt (s.lastHalt (.nullInstance e.name)), rest⟩ := by
  have hhalted (t : State) (halt : Halt) (stack : List Frame) :
      (Machine.mk t (.halt halt) stack).run = ⟨t, .halt halt, stack⟩ := run_of_rest rfl
  have hguarded (f : Fault) (below : List Frame) : ∃ rest,
      (settle (s.report f) (.barrier :: below)).run = ⟨s.noted f, .halt (s.lastHalt f), rest⟩ := by
    obtain hreport | ⟨cause, hreport, hlast⟩ := s.report_ends (α := Answer) f
    · rw [hreport]
      exact ⟨_, hhalted _ _ _⟩
    · rw [hreport, hlast]
      have hbarrier : (Machine.mk (s.noted f) (.unwind cause) (.barrier :: below)).next? =
          some ⟨s.noted f, .halt .aborted, below⟩ := rfl
      exact ⟨_, (run_of_next? hbarrier).trans (hhalted _ _ _)⟩
  have hthrough (f : Fault) : ∃ rest,
      (settle ((s.report f).through .foreign) stack).run =
        ⟨s.noted f, .halt (s.lastHalt f), rest⟩ := by
    obtain hreport | ⟨cause, hreport, hlast⟩ := s.report_ends (α := Answer) f
    · rw [hreport]
      exact ⟨_, hhalted _ _ _⟩
    · rw [hreport, hlast]
      exact ⟨_, hhalted _ _ _⟩
  cases e with
  | retain | release =>
    obtain ⟨rest, hrun⟩ := hguarded (.nullInstance _) _
    exact ⟨rest, (run_of_next? rfl).trans hrun⟩
  | isUnique | count =>
    obtain ⟨rest, hrun⟩ := hthrough (.nullInstance _)
    exact ⟨rest, (run_of_next? rfl).trans hrun⟩

end InstanceExport

end Custody
