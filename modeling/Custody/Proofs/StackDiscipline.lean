import Custody.Machine.Rest
import Custody.Proofs.Stage

/-! The stack discipline.

A transition reaches no deeper than the frame on top: what it starts it pushes onto the
stack that it found, and what it resumes or unwinds it takes off first
(`above_of_next?`). The frame of a list of handles that is being dropped always stands
directly on a barrier or on a cleanup (`braced_of_next?`), so an unwinding that has come
to such a frame goes no further than that (`Doomed.next`). -/
namespace Custody

/-- Nothing unwinds past the frame. -/
def Frame.braces : Frame → Bool
  | .barrier | .cleaning _ => true
  | _ => false

def BracedBy (stack : List Frame) : Prop :=
  ∃ frame outer, stack = frame :: outer ∧ frame.braces = true

/-- Handles are only dropped on top of a frame that nothing unwinds past. -/
def Braced (stack : List Frame) : Prop :=
  ∀ rest cause below, .dropping rest cause :: below <:+ stack → BracedBy below

theorem Braced.suffix {stack outer : List Frame} (h : Braced stack) (hs : outer <:+ stack) :
    Braced outer :=
  fun rest cause below hd => h rest cause below (hd.trans hs)

/-- A frame may be put on top unless it drops handles and stands on a frame that an unwinding
passes. -/
theorem Braced.cons {frame : Frame} {stack : List Frame} (h : Braced stack)
    (hframe : ∀ rest cause, frame = .dropping rest cause → BracedBy stack) :
    Braced (frame :: stack) := by
  intro rest cause below hd
  rcases List.suffix_cons_iff.1 hd with heq | hd
  · cases heq
    exact hframe rest cause rfl
  · exact h rest cause below hd

namespace Machine

variable {s : State} {stack base : List Frame} {m m' : Machine}

/-- The machine has at most pushed frames onto the stack. -/
structure Above (base : List Frame) (m : Machine) : Prop where
  suffix : base <:+ m.stack
  braced (h : Braced base) : Braced m.stack

namespace Above

theorem of_eq (h : m.stack = base) : Above base m :=
  ⟨h ▸ List.suffix_rfl, fun hb => h ▸ hb⟩

/-- What is above a frame is above what the frame stands on. -/
theorem pop {frame : Frame} (h : Above (frame :: base) m)
    (hframe : ∀ rest cause, frame = .dropping rest cause → BracedBy base) : Above base m :=
  ⟨(List.suffix_cons frame base).trans h.suffix, fun hb => h.braced (hb.cons hframe)⟩

theorem pushed {frame : Frame} (h : m.stack = frame :: base)
    (hframe : ∀ rest cause, frame = .dropping rest cause → BracedBy base) : Above base m :=
  (of_eq h).pop hframe

/-- The barrier that a foreign call puts in between makes no difference. -/
theorem unguarded {via : Convention} (h : Above (guarded via base) m) : Above base m := by
  cases via with
  | native => exact h
  | foreign => exact h.pop nofun

end Above

theorem above_settle (out : Outcome Answer) : Above stack (settle out stack) := by
  cases out <;> exact .of_eq rfl

theorem above_call (c : CountCall) (o : ObjectId) : Above stack (call c o s stack) := by
  cases c with
  | retain => exact above_settle _
  | release => exact .of_eq rfl

theorem above_callNamed (c : CountCall) (name : Option String) :
    Above stack (callNamed c name s stack) := by
  cases name with
  | none => exact above_settle _
  | some name =>
    unfold callNamed
    simp only
    split
    · exact above_call c _
    · exact .of_eq rfl

theorem above_repeatCall (c : CountCall) (name : Option String) (via : Convention) (times : Nat) :
    Above stack (repeatCall c name via s stack times) := by
  cases times with
  | zero => exact .of_eq rfl
  | succ times => exact (above_callNamed c name).unguarded.pop nofun

theorem above_runThreads (o : ObjectId) (waiting : List (List CountCall)) (ended : List Bool) :
    Above stack (runThreads o s stack waiting ended) := by
  induction waiting generalizing ended with
  | nil => exact .of_eq rfl
  | cons calls waiting ih =>
    cases calls with
    | nil => exact ih (ended ++ [true])
    | cons c rest => exact (above_call c o).pop nofun

theorem above_continueRoutine (label : String) (steps : List Step) :
    Above stack (continueRoutine label s stack steps) := by
  cases steps with
  | nil => exact .of_eq rfl
  | cons step rest => exact .pushed rfl nofun

/-- The frame for the rest of the handles goes onto the stack they are dropped on, which has to be
braced. -/
theorem above_continueDropping (cause : Option Cause) (os : List ObjectId)
    (h : BracedBy stack) : Above stack (continueDropping cause s stack os) := by
  cases os with
  | nil => cases cause <;> exact .of_eq rfl
  | cons o rest => exact .pushed rfl fun _ _ _ => h

theorem above_dropValue (o : ObjectId) (h : BracedBy stack) :
    Above stack (dropValue o s stack) := by
  unfold dropValue
  simp only
  split
  · exact above_continueDropping none _ h
  · exact .of_eq rfl

/-- A teardown is pushed first and its finalizer onto that, so a value is dropped on the barrier
that the finalizer put there. -/
theorem above_finalize (t : Teardown) (finalizer : Option Finalizer) :
    Above stack (finalize t finalizer s stack) := by
  have habove : Above (.teardown t :: stack) (finalize t finalizer s stack) := by
    unfold finalize
    split
    · exact .of_eq rfl
    · exact (above_continueRoutine _ _).unguarded
    · exact (above_dropValue _ ⟨_, _, rfl, rfl⟩).pop nofun
  exact habove.pop nofun

theorem above_release (o : ObjectId) : Above stack (release o s stack) := by
  unfold release
  split
  · exact .of_eq rfl
  · exact above_finalize _ _
  · exact .of_eq rfl
  · exact .of_eq rfl

/-- What was retained for a copy that fails is dropped on a cleanup. -/
theorem above_copyOnWrite (handle : String) (o : ObjectId) (literal : Literal) :
    Above stack (copyOnWrite handle o literal s stack) := by
  unfold copyOnWrite
  split
  · exact .of_eq rfl
  · split
    · exact (above_continueDropping none _ ⟨_, _, rfl, rfl⟩).pop nofun
    · exact .of_eq rfl
    · split
      · exact .pushed rfl nofun
      · exact .of_eq rfl
      · exact .of_eq rfl

theorem above_makeUnique (handle : String) (o : ObjectId) (literal : Literal) :
    Above stack (makeUnique handle o literal s stack) := by
  unfold makeUnique
  split
  · exact above_settle _
  · exact above_copyOnWrite handle o literal
  · exact .of_eq rfl
  · exact .of_eq rfl

/-- A step only adds to the stack that it is taken on. -/
theorem above_perform (step : Step) : Above stack (perform s stack step) := by
  cases step with
  | allocate name size routine provider via => exact above_settle _
  | assemble name size routine => exact .of_eq rfl
  | reinstall name routine => exact above_settle _
  | newCell name routine => exact .of_eq rfl
  | describe routine => exact .of_eq rfl
  | call c name times via => exact above_repeatCall c name via times
  | race name threads retains releases rounds =>
    unfold perform
    simp only
    split
    · exact above_runThreads _ _ _
    · exact .of_eq rfl
  | dropHandle handle =>
    unfold perform
    simp only
    split <;> exact .of_eq rfl
  | makeUnique handle literal =>
    unfold perform
    simp only
    split
    · exact above_makeUnique handle _ literal
    · exact .of_eq rfl
  | attempt step => exact .pushed rfl nofun
  | act action => exact above_settle _

/-- An answer is handed to a frame that is off the stack already. If handles are left to drop, the
frame goes back to where it stood. -/
theorem above_resume (answer : Answer) (frame : Frame)
    (h : ∀ rest cause, frame = .dropping rest cause → BracedBy stack) :
    Above stack (resume answer s stack frame) := by
  cases frame with
  | repeating c name times via => exact above_repeatCall c name via times
  | routine label rest => exact above_continueRoutine label rest
  | teardown t => exact .of_eq rfl
  | barrier => exact .of_eq rfl
  | attempt => exact .of_eq rfl
  | thread rest o waiting ended => exact above_runThreads o _ ended
  | dropping rest cause => exact above_continueDropping cause rest (h rest cause rfl)
  | cleaning cause => exact .of_eq rfl
  | assigning fresh literal => exact above_settle _

theorem above_unwind (cause : Cause) (frame : Frame)
    (h : ∀ rest cause, frame = .dropping rest cause → BracedBy stack) :
    Above stack (unwind cause s stack frame) := by
  cases frame with
  | thread rest o waiting ended => exact above_runThreads o _ _
  | dropping rest earlier =>
    cases earlier with
    | none => exact above_continueDropping (some cause) rest (h rest none rfl)
    | some earlier => exact .of_eq rfl
  | _ => exact .of_eq rfl

/-! ### Transitions -/

/-- An answer and an unwinding go to the frame on top. -/
def Control.passed : Control → Bool
  | .answer _ | .unwind _ => true
  | _ => false

/-- The part of the stack that the next transition does not look into. -/
def outer (m : Machine) : List Frame :=
  if Control.passed m.control then m.stack.tail else m.stack

/-- **A transition reaches no deeper than the frame on top.** -/
theorem above_of_next? (h : m.next? = some m') (hb : Braced m.stack) : Above m.outer m' := by
  obtain ⟨s, control, stack⟩ := m
  cases control with
  | perform step =>
    cases h
    exact above_perform step
  | release o =>
    cases h
    exact above_release o
  | halt halt => cases h
  | answer answer =>
    cases stack with
    | nil => cases h
    | cons frame stack =>
      cases h
      exact above_resume answer frame fun rest cause heq =>
        hb rest cause stack (heq ▸ List.suffix_rfl)
  | unwind cause =>
    cases stack with
    | nil => cases h
    | cons frame stack =>
      cases h
      exact above_unwind cause frame fun rest cause heq =>
        hb rest cause stack (heq ▸ List.suffix_rfl)

theorem outer_suffix (m : Machine) : m.outer <:+ m.stack := by
  unfold outer
  split
  · exact List.tail_suffix _
  · exact List.suffix_rfl

/-- Frames that drop handles stand on a brace after a transition if they did before it. -/
theorem braced_of_next? (h : m.next? = some m') (hb : Braced m.stack) : Braced m'.stack :=
  (above_of_next? h hb).braced (hb.suffix m.outer_suffix)

/-! ### Unwinding that meets handles being dropped -/

/-- The process stops before anything below is reached: it has stopped, or it still drops handles
on behalf of an unwinding, or it unwinds the frame that they stand on. -/
inductive Doomed (below : List Frame) (m : Machine) : Prop where
  | stopped (halt : Halt) (control : m.control = .halt halt)
  | drops (rest : List ObjectId) (cause : Cause)
      (above : .dropping rest (some cause) :: below <:+ m.stack)
  | unwinds (cause : Cause) (control : m.control = .unwind cause) (stack : m.stack = below)

/-- Handles that an unwinding has come to are dropped on its behalf. -/
theorem doomed_continueDropping (cause : Cause) (s : State) (below : List Frame)
    (os : List ObjectId) : Doomed below (continueDropping (some cause) s below os) := by
  cases os with
  | nil => exact .unwinds cause rfl rfl
  | cons o rest => exact .drops rest cause List.suffix_rfl

/-- **A doomed machine stays doomed.** As long as handles are left it does not get below them, a
second unwinding stops the process, and so does the brace once the handles are dropped. -/
theorem Doomed.next {below : List Frame} (hbelow : BracedBy below) (hb : Braced m.stack)
    (h : m.next? = some m') (hd : Doomed below m) : Doomed below m' := by
  cases hd with
  | stopped halt hcontrol => simp [next?, hcontrol] at h
  | unwinds cause hcontrol hstack =>
    obtain ⟨frame, outer, rfl, hbraces⟩ := hbelow
    have hm : m' = unwind cause m.state outer frame := by
      simpa [next?, hcontrol, hstack] using h.symm
    subst hm
    cases frame <;> cases hbraces <;> exact .stopped .aborted rfl
  | drops rest cause habove =>
    have hnext := (above_of_next? h hb).suffix
    obtain ⟨top, htop⟩ := habove
    cases top with
    | cons frame top =>
      -- The frame on top is another one, and the transition stays above the one that drops.
      have htail : .dropping rest (some cause) :: below <:+ m.outer := by
        unfold outer
        rw [← htop]
        split
        · exact ⟨top, rfl⟩
        · exact ⟨frame :: top, rfl⟩
      exact .drops rest cause (htail.trans hnext)
    | nil =>
      obtain ⟨s, control, stack⟩ := m
      obtain rfl : .dropping rest (some cause) :: below = stack := htop
      cases control with
      | perform step => exact .drops rest cause hnext
      | release o => exact .drops rest cause hnext
      | halt halt => cases h
      | answer answer =>
        cases h
        exact doomed_continueDropping cause s below rest
      | unwind second =>
        cases h
        exact .stopped .aborted rfl

/-- A doomed machine does not come to the end of a step. -/
theorem not_doomed_nil {below : List Frame} (hbelow : BracedBy below) {control : Control}
    (hcontrol : ∀ halt, control ≠ .halt halt) : ¬ Doomed below ⟨s, control, []⟩ := by
  rintro (⟨halt, h⟩ | ⟨rest, cause, habove⟩ | ⟨cause, _, hstack⟩)
  · exact hcontrol halt h
  · simp at habove
  · obtain ⟨frame, outer, rfl, _⟩ := hbelow
    cases hstack

end Machine

/-! ### Sessions -/

namespace Session

variable {session : Session} {s : State}

/-- Throughout a session handles are only dropped on a brace. -/
theorem braced_stage (session : Session) (s : State) (n : Nat) :
    Braced (session.stage s n).stack := by
  have hnil : Braced [] := fun rest cause below h => by simp at h
  induction n with
  | zero => exact hnil
  | succ n ih =>
    cases h : session.next? (session.stage s n) with
    | none =>
      rw [stage_succ_of_rest h]
      exact ih
    | some st =>
      rw [stage_succ_of_next? h]
      generalize session.stage s n = before at h ih
      cases advances_of_next? h with
      | begins => exact hnil
      | moves records rest hm => exact Machine.braced_of_next? hm ih
      | answers => exact hnil
      | fails => exact hnil

/-- What the machine keeps to while a step goes on. -/
def During (P : Machine → Prop) (st : Stage) : Prop :=
  ∃ m, st.position = .during m ∧ P m

/-- From a doomed stage on no step ends any more. -/
theorem doomed_stage {below : List Frame} (hbelow : BracedBy below) {n k : Nat} (hle : n ≤ k)
    (h : During (Machine.Doomed below) (session.stage s n)) :
    During (Machine.Doomed below) (session.stage s k) := by
  induction hle with
  | refl => exact h
  | @step k _ ih =>
    have hb := session.braced_stage s k
    cases hnext : session.next? (session.stage s k) with
    | none =>
      rw [stage_succ_of_rest hnext]
      exact ih
    | some st =>
      rw [stage_succ_of_next? hnext]
      generalize session.stage s k = before at hnext ih hb
      obtain ⟨m, hm, hdoomed⟩ := ih
      cases advances_of_next? hnext with
      | begins => cases hm
      | moves records rest hmoves =>
        cases hm
        exact ⟨_, rfl, hdoomed.next hbelow hb hmoves⟩
      | answers records rest t answer =>
        cases hm
        exact absurd hdoomed (Machine.not_doomed_nil hbelow nofun)
      | fails records rest t cause =>
        cases hm
        exact absurd hdoomed (Machine.not_doomed_nil hbelow nofun)

end Session
end Custody
