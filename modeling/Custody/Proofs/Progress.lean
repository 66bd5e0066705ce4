import Custody.Proofs.Accounts
import Custody.Proofs.Deeds

/-! What a transition does to counts.

A transition either finishes a teardown or goes on by deeds (`Machine.proceeds_next`): whatever
stands on the stack, and whichever way an operation ends, nothing happens to a count but by an
operation that succeeds. -/
namespace Custody

variable {s t : State} {stack : List Frame} {m m' : Machine}

namespace Machine

open State

/-! ### Calls -/

theorem leads_settle {out : Outcome Answer} (h : s.Leads out.state) (stack : List Frame) :
    s.Leads (settle out stack).state := by
  rwa [state_settle]

/-- A call that fails does no deed. -/
theorem leads_call (c : CountCall) (o : ObjectId) (s : State) (stack : List Frame) :
    s.Leads (call c o s stack).state := by
  cases c with
  | retain => exact leads_settle ((leads_retain s o).map _) stack
  | release => exact .refl s

/-- A call on a null instance fails before it comes to an object. -/
theorem leads_repeatCall (c : CountCall) (name : Option String) (via : Convention) (s : State)
    (stack : List Frame) (times : Nat) : s.Leads (repeatCall c name via s stack times).state := by
  cases times with
  | zero => exact .refl s
  | succ times =>
    cases name with
    | none => exact leads_settle (leads_report _ s) _
    | some name =>
      unfold repeatCall callNamed
      dsimp only
      split
      · exact leads_call c _ s _
      · exact .refl s

theorem leads_runThreads (o : ObjectId) (s : State) (stack : List Frame)
    (waiting : List (List CountCall)) (ended : List Bool) :
    s.Leads (runThreads o s stack waiting ended).state := by
  induction waiting generalizing ended with
  | nil => exact .refl s
  | cons calls waiting ih =>
    cases calls with
    | nil => exact ih _
    | cons c rest => exact leads_call c o s _

/-! ### Finalizers -/

theorem leads_continueRoutine (label : String) (s : State) (stack : List Frame)
    (steps : List Step) : s.Leads (continueRoutine label s stack steps).state := by
  cases steps with
  | nil => exact .of_still (still_observe _ s)
  | cons step rest => exact .refl s

theorem leads_continueDropping (cause : Option Cause) (s : State) (stack : List Frame)
    (os : List ObjectId) : s.Leads (continueDropping cause s stack os).state := by
  cases os with
  | nil => cases cause <;> exact .refl s
  | cons o rest => exact .refl s

/-- A value that is dropped leaves its children to be released one by one. -/
theorem leads_finalize (t : Teardown) (finalizer : Option Finalizer) (s : State)
    (stack : List Frame) : s.Leads (finalize t finalizer s stack).state := by
  unfold finalize
  dsimp only
  split
  · exact .refl s
  · next r =>
    exact (Leads.of_still (still_observe _ s)).trans (leads_continueRoutine _ _ _ _)
  · have hemptied : s.Leads (s.onHeap (·.setContents t.object .remains)) :=
      .of_still (still_setContents _ _ s)
    unfold dropValue
    dsimp only
    split
    · exact (hemptied.trans (.of_still (still_observe _ _))).trans (leads_continueDropping _ _ _ _)
    · exact hemptied

/-- A release and the teardown that it starts are deeds of the one object. -/
theorem leads_started (o : ObjectId) (s : State) (stack : List Frame) :
    s.Leads (release o s stack).state := by
  have hrelease := leads_release s o
  unfold release
  split
  · next u hout =>
    rw [hout] at hrelease
    exact hrelease
  · next t finalizer u hout =>
    rw [hout] at hrelease
    exact hrelease.trans (leads_finalize t finalizer u stack)
  · next cause u hout =>
    rw [hout] at hrelease
    exact hrelease
  · next halt u hout =>
    rw [hout] at hrelease
    exact hrelease

/-! ### Copies on write -/

theorem leads_assigned (o : ObjectId) (literal : Literal) (fresh : Bool) (s : State) :
    s.Leads (assigned o literal fresh s).state :=
  .given fun _ ht => .of_still (still_assign ht)

/-- A copy retains the children, creates an object and retains that, or undoes what it has retained.
-/
theorem leads_copyOnWrite (handle : String) (o : ObjectId) (literal : Literal) (s : State)
    (stack : List Frame) : s.Leads (copyOnWrite handle o literal s stack).state := by
  unfold copyOnWrite
  split
  · exact .refl s
  · next v _ =>
    have hretain := leads_retainEach s v.children
    split
    · next retained cause u hout =>
      rw [hout] at hretain
      exact hretain.trans (leads_continueDropping _ _ _ _)
    · next halt u hout =>
      rw [hout] at hretain
      exact hretain
    · next retained _ u hout =>
      rw [hout] at hretain
      have hhold := leads_hold u v
      split
      · next fresh w hfresh =>
        rw [hfresh] at hhold
        exact hretain.trans (hhold.trans (.of_still (.of_eq rfl rfl rfl rfl)))
      · next cause w hfresh =>
        rw [hfresh] at hhold
        exact hretain.trans hhold
      · next halt w hfresh =>
        rw [hfresh] at hhold
        exact hretain.trans hhold

theorem leads_makeUnique (handle : String) (o : ObjectId) (literal : Literal) (s : State)
    (stack : List Frame) : s.Leads (makeUnique handle o literal s stack).state := by
  have hunique := leads_isUnique s o
  unfold makeUnique
  split
  · next u hout =>
    rw [hout] at hunique
    exact hunique.trans (leads_settle (leads_assigned o literal false u) stack)
  · next u hout =>
    rw [hout] at hunique
    exact hunique.trans (leads_copyOnWrite handle o literal u stack)
  · next cause u hout =>
    rw [hout] at hunique
    exact hunique
  · next halt u hout =>
    rw [hout] at hunique
    exact hunique

/-! ### Steps and frames -/

/-- **A step goes on by deeds** if it does not change counts by hand. -/
theorem leads_perform {step : Step} (hplain : step.plain = true) (s : State) (stack : List Frame) :
    s.Leads (perform s stack step).state := by
  cases step with
  | assemble _ _ _ | reinstall _ _ | newCell _ _ => cases hplain
  | allocate name size routine provider via =>
    refine leads_settle ?_ stack
    rw [Outcome.state_through]
    exact .given fun provider _ => (leads_allocate s provider size _ _).andThen
      fun o t _ => .of_still (.of_eq rfl rfl rfl rfl)
  | describe routine => exact .of_still (still_discard _ s)
  | call c name times via => exact leads_repeatCall c name via s stack times
  | race name threads retains releases rounds =>
    unfold perform
    dsimp only
    split
    · exact leads_runThreads _ s stack _ _
    · exact .refl s
  | dropHandle handle =>
    unfold perform
    dsimp only
    split
    · exact .of_still (.of_eq rfl rfl rfl rfl)
    · exact .refl s
  | makeUnique handle literal =>
    unfold perform
    dsimp only
    split
    · exact leads_makeUnique handle _ literal s stack
    · exact .refl s
  | attempt step => exact .refl s
  | act action =>
    refine leads_settle ?_ stack
    cases action with
    | log _ | setting _ => cases hplain
    | object action => exact leads_performObject hplain
    | handle action => exact leads_performHandle s action
    | panic message => exact .refl s

/-- Frames other than that of a teardown go on by deeds when they are answered. -/
theorem leads_resume (answer : Answer) (s : State) (stack : List Frame) {frame : Frame}
    (hframe : frame.teardown? = none) : s.Leads (resume answer s stack frame).state := by
  cases frame with
  | teardown t => cases hframe
  | repeating c name times via => exact leads_repeatCall c name via s stack times
  | routine label rest =>
    exact (Leads.of_still (still_observe _ s)).trans (leads_continueRoutine _ _ _ _)
  | thread rest o waiting ended => exact leads_runThreads o s stack _ ended
  | dropping rest cause => exact leads_continueDropping cause s stack rest
  | assigning fresh literal => exact leads_settle (leads_assigned fresh literal true s) stack
  | barrier | attempt | cleaning _ => exact .refl s

/-- Frames other than that of a teardown go on by deeds when an unwinding comes to them. -/
theorem leads_unwind (cause : Cause) (s : State) (stack : List Frame) {frame : Frame}
    (hframe : frame.teardown? = none) : s.Leads (unwind cause s stack frame).state := by
  cases frame with
  | teardown t => cases hframe
  | thread rest o waiting ended => exact leads_runThreads o s stack waiting _
  | dropping rest earlier =>
    cases earlier with
    | none => exact leads_continueDropping (some cause) s stack rest
    | some earlier => exact .refl s
  | repeating _ _ _ _ | routine _ _ | barrier | attempt | cleaning _ | assigning _ _ =>
    exact .refl s

/-- What a transition does: it goes on by deeds, or it finishes the teardown on top. -/
inductive Proceeds (m : Machine) : List Deed → Machine → Prop where
  | goes {ds : List Deed} {m' : Machine} (h : m.state.Does ds m'.state) : Proceeds m ds m'
  | finishes (t : Teardown) {rest : List Frame} {m' : Machine} (top : m.stack = .teardown t :: rest)
    (popped : m'.stack = rest) (h : m'.state = m.state.finish t) : Proceeds m [] m'

/-- **A transition does to counts nothing but deeds**, unless its step changes them by hand. -/
theorem proceeds_next (hplain : ∀ step, m.control = .perform step → step.plain = true)
    (hn : m.next? = some m') : ∃ ds, m.Proceeds ds m' := by
  have of_leads {m m' : Machine} (h : m.state.Leads m'.state) : ∃ ds, m.Proceeds ds m' :=
    h.imp fun _ => .goes
  obtain ⟨s, control, stack⟩ := m
  cases control with
  | perform step =>
    cases hn
    exact of_leads (leads_perform (hplain step rfl) s stack)
  | release o =>
    cases hn
    exact of_leads (leads_started o s stack)
  | halt halt => cases hn
  | answer answer =>
    cases stack with
    | nil => cases hn
    | cons frame stack =>
      cases hn
      cases frame with
      | teardown t => exact ⟨[], .finishes t rfl rfl rfl⟩
      | _ => exact of_leads (leads_resume answer s stack rfl)
  | unwind cause =>
    cases stack with
    | nil => cases hn
    | cons frame stack =>
      cases hn
      cases frame with
      | teardown t => exact ⟨[], .finishes t rfl rfl rfl⟩
      | _ => exact of_leads (leads_unwind cause s stack rfl)

end Machine
end Custody
