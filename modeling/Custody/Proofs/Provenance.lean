import Custody.Proofs.LockDiscipline

/-! Where the steps come from that a session performs.

Every step that is performed was written in the session, at the top, inside of another step
or in the body of a routine. A routine waits in the step that hands it over, in a cell, and
while it runs on the stack, and nothing else makes steps: so what holds of every step that is
written holds of every step that is performed (`Session.performs_every`). -/
namespace Custody

/-! ### Scripts -/

mutual

/-- A step passes a test, and so do all the steps inside of it. -/
def Step.every (p : Step → Bool) : Step → Bool
  | .allocate name size routine provider via =>
    p (.allocate name size routine provider via) && routineEvery p routine
  | .assemble name size routine => p (.assemble name size routine) && routineEvery p routine
  | .reinstall name routine => p (.reinstall name routine) && routineEvery p routine
  | .newCell name routine => p (.newCell name routine) && routineEvery p routine
  | .describe routine => p (.describe routine) && routineEvery p routine
  | .call c name times via => p (.call c name times via)
  | .race name threads retains releases rounds => p (.race name threads retains releases rounds)
  | .dropHandle handle => p (.dropHandle handle)
  | .makeUnique handle literal => p (.makeUnique handle literal)
  | .attempt step => p (.attempt step) && step.every p
  | .act action => p (.act action)

def routineEvery (p : Step → Bool) : Option (Routine Step) → Bool
  | none => true
  | some routine => Routine.every p routine

def Routine.every (p : Step → Bool) : Routine Step → Bool
  | ⟨_, _, body⟩ => bodyEvery p body

def bodyEvery (p : Step → Bool) : List Step → Bool
  | [] => true
  | step :: rest => step.every p && bodyEvery p rest

end

def Frame.every (p : Step → Bool) : Frame → Bool
  | .routine _ rest => bodyEvery p rest
  | _ => true

variable {p : Step → Bool} {edits : ObjectId → Prop} {v w : View} {s : State} {stack : List Frame}
  {m m' : Machine} {o : ObjectId}

theorem Step.holds_of_every {step : Step} (h : step.every p = true) : p step = true := by
  cases step with
  | call _ _ _ _ | race _ _ _ _ _ | dropHandle _ | makeUnique _ _ | act _ => exact h
  | allocate _ _ _ _ _ | assemble _ _ _ | reinstall _ _ | newCell _ _ | describe _ | attempt _ =>
    exact (Bool.and_eq_true_iff.1 h).1

theorem Routine.every_eq (r : Routine Step) : r.every p = bodyEvery p r.body := by
  cases r
  rfl

mutual

/-- A weaker test is passed as well, by a step and by all that it brings along. -/
theorem Step.every_mono {q : Step → Bool} (hpq : ∀ step, p step = true → q step = true) :
    ∀ step : Step, step.every p = true → step.every q = true
  | .allocate _ _ routine _ _ | .assemble _ _ routine | .reinstall _ routine | .newCell _ routine
  | .describe routine => fun h => Bool.and_eq_true_iff.2
    ((Bool.and_eq_true_iff.1 h).imp (hpq _) (routineEvery_mono hpq routine))
  | .attempt step => fun h => Bool.and_eq_true_iff.2
    ((Bool.and_eq_true_iff.1 h).imp (hpq _) (Step.every_mono hpq step))
  | .call _ _ _ _ | .race _ _ _ _ _ | .dropHandle _ | .makeUnique _ _ | .act _ => hpq _

theorem routineEvery_mono {q : Step → Bool} (hpq : ∀ step, p step = true → q step = true) :
    ∀ routine : Option (Routine Step), routineEvery p routine = true →
      routineEvery q routine = true
  | none => id
  | some ⟨_, _, body⟩ => bodyEvery_mono hpq body

theorem bodyEvery_mono {q : Step → Bool} (hpq : ∀ step, p step = true → q step = true) :
    ∀ body : List Step, bodyEvery p body = true → bodyEvery q body = true
  | [] => id
  | step :: rest => fun h => Bool.and_eq_true_iff.2
    ((Bool.and_eq_true_iff.1 h).imp (Step.every_mono hpq step) (bodyEvery_mono hpq rest))

end

/-! ### Cells -/

/-- The routines that wait in cells pass the test. -/
def View.Stores (p : Step → Bool) (v : View) : Prop :=
  ∀ c cell, v.cell? c = some cell → routineEvery p cell.routine? = true

namespace View.Stores

theorem congr (h : v.Stores p) (hcells : w.cells = v.cells) : w.Stores p := by
  intro c cell hc
  refine h c cell ?_
  rwa [View.cell?, ← hcells]

theorem updateCell (h : v.Stores p) (c : CellId) {f : Cell → Cell}
    (hf : ∀ cell, routineEvery p cell.routine? = true → routineEvery p (f cell).routine? = true) :
    (v.updateCell c f).Stores p := by
  intro d cell hd
  rw [View.cell?_updateCell] at hd
  split at hd
  · obtain ⟨old, hold, rfl⟩ := Option.map_eq_some_iff.1 hd
    exact hf old (h d old hold)
  · exact h d cell hd

theorem addCell (h : v.Stores p) {finalizer : Option Finalizer}
    (hr : routineEvery p (Cell.routine? {finalizer}) = true) : (v.addCell finalizer).Stores p := by
  intro c cell hc
  rw [View.cell?_addCell] at hc
  split at hc
  · cases hc
    exact hr
  · exact h c cell hc

theorem freeCell (h : v.Stores p) (c : CellId) : (v.freeCell c).Stores p := by
  intro d cell hd
  rw [View.cell?_freeCell] at hd
  split at hd
  · cases hd
  · exact h d cell hd

/-- A cell gets its routine from what the change puts to use, or keeps the one it had. -/
theorem shift {r : Option (Routine Step)} (hs : Shift edits r v w) (hr : routineEvery p r = true)
    (h : v.Stores p) : w.Stores p := by
  cases hs with
  | recount _ c count => exact h.updateCell c fun _ hcell => hcell
  | create _ finalizer => exact (h.addCell hr).congr rfl
  | stand _ name finalizer => exact (h.addCell hr).congr rfl
  | relink _ o finalizer _ => exact (h.addCell hr).congr rfl
  | unlink _ o _ => exact h.congr rfl
  | @free _ name c _ => exact (h.freeCell c).congr rfl
  | discard _ r => exact h.congr rfl
  | waste _ r => exact h

theorem shifts {rs : List (Routine Step)} (hs : Shifts edits rs v w)
    (hr : ∀ r ∈ rs, r.every p = true) (h : v.Stores p) : w.Stores p := by
  induction hs with
  | refl v => exact h
  | @step r rs v w x first _ ih =>
    refine ih (fun r' hmem => hr r' (List.mem_append_right _ hmem)) (h.shift first ?_)
    cases r with
    | none => rfl
    | some r => exact hr r (List.mem_append_left _ List.mem_cons_self)

theorem finish (h : s.view.Stores p) (t : Teardown) : (s.finish t).view.Stores p := by
  rw [State.view_finish, View.finish_eq]
  exact View.Stores.freeCell (h.congr (w := s.view.unlink t.object) rfl) t.cell

/-- An operation that puts no routine to use. -/
theorem quiet (hs : Shifts (fun _ => True) [] v w) (h : v.Stores p) : w.Stores p :=
  h.shifts hs nofun

end View.Stores

/-! ### Machines -/

namespace Machine

/-- All that the machine can still perform passes the test. -/
structure Passes (p : Step → Bool) (m : Machine) : Prop where
  control : ∀ step, m.control = .perform step → step.every p = true
  stack : ∀ frame ∈ m.stack, frame.every p = true
  cells : m.state.view.Stores p

/-- The frames of a stack hold steps that pass the test. -/
def Stacks (p : Step → Bool) (stack : List Frame) : Prop :=
  ∀ frame ∈ stack, frame.every p = true

theorem Stacks.push {frame : Frame} (h : Stacks p stack) (hframe : frame.every p = true) :
    Stacks p (frame :: stack) :=
  List.forall_mem_cons.2 ⟨hframe, h⟩

theorem Stacks.guarded (h : Stacks p stack) (via : Convention) : Stacks p (guarded via stack) := by
  cases via with
  | native => exact h
  | foreign => exact h.push rfl

variable (hstack : Stacks p stack)
include hstack

theorem passes_settle {out : Outcome Answer} (hcells : out.state.view.Stores p) :
    (settle out stack).Passes p := by
  cases out <;> exact ⟨nofun, hstack, hcells⟩

/-! ### Calls -/

section Calls

variable (hcells : s.view.Stores p)
include hcells

theorem passes_call (c : CountCall) (o : ObjectId) : (call c o s stack).Passes p := by
  cases c with
  | retain => exact passes_settle hstack (hcells.quiet (State.shifts_retain.map _))
  | release => exact ⟨nofun, hstack, hcells⟩

theorem passes_callNamed (c : CountCall) (name : Option String) :
    (callNamed c name s stack).Passes p := by
  cases name with
  | none => exact passes_settle hstack (hcells.quiet (.of_eq (State.view_report _)))
  | some name =>
    unfold callNamed
    simp only
    split
    · exact passes_call hstack hcells c _
    · exact ⟨nofun, hstack, hcells⟩

theorem passes_repeatCall (c : CountCall) (name : Option String) (via : Convention) (times : Nat) :
    (repeatCall c name via s stack times).Passes p := by
  cases times with
  | zero => exact ⟨nofun, hstack, hcells⟩
  | succ times => exact passes_callNamed ((hstack.push rfl).guarded via) hcells c name

theorem passes_runThreads (o : ObjectId) (waiting : List (List CountCall)) (ended : List Bool) :
    (runThreads o s stack waiting ended).Passes p := by
  induction waiting generalizing ended with
  | nil => exact ⟨nofun, hstack, hcells⟩
  | cons calls waiting ih =>
    cases calls with
    | nil => exact ih (ended ++ [true])
    | cons c rest => exact passes_call (hstack.push rfl) hcells c o

/-! ### Finalizers -/

/-- The steps that are left of a routine have passed before. -/
theorem passes_continueRoutine (label : String) {steps : List Step}
    (hsteps : bodyEvery p steps = true) : (continueRoutine label s stack steps).Passes p := by
  cases steps with
  | nil => exact ⟨nofun, hstack, hcells.congr rfl⟩
  | cons step rest =>
    obtain ⟨hstep, hrest⟩ := Bool.and_eq_true_iff.1 hsteps
    refine ⟨fun step' heq => ?_, hstack.push hrest, hcells⟩
    cases heq
    exact hstep

theorem passes_continueDropping (cause : Option Cause) (os : List ObjectId) :
    (continueDropping cause s stack os).Passes p := by
  cases os with
  | nil => cases cause <;> exact ⟨nofun, hstack, hcells⟩
  | cons o rest => exact ⟨nofun, hstack.push rfl, hcells⟩

theorem passes_dropValue (o : ObjectId) : (dropValue o s stack).Passes p := by
  have hemptied : (s.onHeap (·.setContents o .remains)).view.Stores p := hcells.congr rfl
  unfold dropValue
  simp only
  split
  · next label children _ =>
    have hobserved : ((s.onHeap (·.setContents o .remains)).observe (.dropped label)).view.Stores p :=
      hemptied.congr rfl
    exact passes_continueDropping hstack hobserved none children
  · exact ⟨nofun, hstack, hemptied⟩

/-- A teardown enters a routine that has waited in a cell. -/
theorem passes_finalize (t : Teardown) {finalizer : Option Finalizer}
    (hr : routineEvery p (Cell.routine? {finalizer}) = true) :
    (finalize t finalizer s stack).Passes p := by
  have hteardown : Stacks p (.teardown t :: stack) := hstack.push rfl
  unfold finalize
  simp only
  split
  · exact ⟨nofun, hteardown, hcells⟩
  · next r =>
    have hobserved (event : Event) : (s.observe event).view.Stores p := hcells.congr rfl
    exact passes_continueRoutine (hteardown.guarded _) (hobserved _) _ (r.every_eq ▸ hr)
  · exact passes_dropValue (hteardown.push rfl) hcells _

theorem passes_release (o : ObjectId) : (release o s stack).Passes p := by
  by_cases hlast : ∃ c cell, s.heap.Opens o c cell ∧ cell.count = 1
  · obtain ⟨c, cell, hopens, hcount⟩ := hlast
    rw [release_of_last hopens hcount]
    refine passes_finalize hstack ?_ _ (hcells c cell hopens.found)
    have hbegin : (s.begin ⟨o, c⟩).view.cells = (s.view.updateCell c fun _ => {locked := true}).cells :=
      rfl
    exact (hcells.updateCell c fun _ _ => rfl).congr hbegin
  · obtain ⟨hshifts, hnone⟩ := State.shifts_release fun c cell hopens hcount =>
      hlast ⟨c, cell, hopens, hcount⟩
    have hafter := hcells.quiet hshifts
    unfold release
    split
    · next t ht =>
      rw [ht] at hafter
      exact ⟨nofun, hstack, hafter⟩
    · next begun finalizer t ht => exact absurd ht (hnone (begun, finalizer) t)
    · next cause t ht =>
      rw [ht] at hafter
      exact ⟨nofun, hstack, hafter⟩
    · next halt t ht =>
      rw [ht] at hafter
      exact ⟨nofun, hstack, hafter⟩

/-! ### Copies on write -/

theorem passes_copyOnWrite (handle : String) (o : ObjectId) (literal : Literal) :
    (copyOnWrite handle o literal s stack).Passes p := by
  unfold copyOnWrite
  split
  · exact ⟨nofun, hstack, hcells⟩
  · next v _ =>
    have hretain := hcells.quiet (State.shifts_retainEach v.children)
    split
    · next retained cause t heq =>
      rw [heq] at hretain
      exact passes_continueDropping (hstack.push rfl) hretain none retained
    · next halt t heq =>
      rw [heq] at hretain
      exact ⟨nofun, hstack, hretain⟩
    · next retained u t heq =>
      rw [heq] at hretain
      have hhold := View.Stores.quiet (State.shifts_hold (s := t) v) hretain
      split
      · next fresh t' hfresh =>
        rw [hfresh] at hhold
        exact ⟨nofun, hstack.push rfl, hhold.congr rfl⟩
      · next cause t' hfresh =>
        rw [hfresh] at hhold
        exact ⟨nofun, hstack, hhold⟩
      · next halt t' hfresh =>
        rw [hfresh] at hhold
        exact ⟨nofun, hstack, hhold⟩

theorem passes_makeUnique (handle : String) (o : ObjectId) (literal : Literal) :
    (makeUnique handle o literal s stack).Passes p := by
  have hunique := hcells.quiet (.of_eq (State.view_isUnique (o := o)))
  unfold makeUnique
  split
  · next t ht =>
    rw [ht] at hunique
    exact passes_settle hstack (hunique.quiet (.of_eq (view_assigned literal false)))
  · next t ht =>
    rw [ht] at hunique
    exact passes_copyOnWrite hstack hunique handle o literal
  · next cause t ht =>
    rw [ht] at hunique
    exact ⟨nofun, hstack, hunique⟩
  · next halt t ht =>
    rw [ht] at hunique
    exact ⟨nofun, hstack, hunique⟩

/-! ### Steps -/

/-- A routine that a step brings along may come to wait in a cell. -/
theorem passes_bringing {step : Step} {routine : Option (Routine Step)}
    (hroutine : step.routine? = some routine) (hstep : step.every p = true) :
    (perform s stack step).Passes p := by
  obtain ⟨out, hout, hshifts⟩ : ∃ out, perform s stack step = settle out stack ∧
      Shifts (fun _ => True) routine.toList s.view out.state.view :=
    exists_settle hroutine fun _ _ _ _ => trivial
  have hevery : routineEvery p routine = true := by
    cases step <;> cases hroutine <;> exact (Bool.and_eq_true_iff.1 hstep).2
  rw [hout]
  refine passes_settle hstack (hcells.shifts hshifts fun r hmem => ?_)
  rw [Option.mem_toList] at hmem
  rwa [hmem] at hevery

/-- A step hands on nothing but what it brings along. -/
theorem passes_perform {step : Step} (hstep : step.every p = true) :
    (perform s stack step).Passes p := by
  cases step with
  | allocate _ _ _ _ _ | assemble _ _ _ | reinstall _ _ | newCell _ _ | describe _ =>
    exact passes_bringing hstack hcells rfl hstep
  | call c name times via => exact passes_repeatCall hstack hcells c name via times
  | race name threads retains releases rounds =>
    unfold perform
    simp only
    split
    · exact passes_runThreads hstack hcells _ _ _
    · exact ⟨nofun, hstack, hcells⟩
  | dropHandle handle =>
    unfold perform
    simp only
    split
    · exact ⟨nofun, hstack, hcells.congr rfl⟩
    · exact ⟨nofun, hstack, hcells⟩
  | makeUnique handle literal =>
    unfold perform
    simp only
    split
    · exact passes_makeUnique hstack hcells handle _ literal
    · exact ⟨nofun, hstack, hcells⟩
  | attempt step =>
    refine ⟨fun step' heq => ?_, hstack.push rfl, hcells⟩
    cases heq
    exact (Bool.and_eq_true_iff.1 hstep).2
  | act action =>
    exact passes_settle hstack (hcells.quiet (shifts_act action fun _ _ _ _ => trivial))

/-! ### Frames -/

theorem passes_resume (answer : Answer) {frame : Frame} (hframe : frame.every p = true) :
    (resume answer s stack frame).Passes p := by
  cases frame with
  | repeating c name times via => exact passes_repeatCall hstack hcells c name via times
  | routine label rest =>
    have hobserved : (s.observe (.stepped answer)).view.Stores p := hcells.congr rfl
    exact passes_continueRoutine hstack hobserved label hframe
  | teardown t => exact ⟨nofun, hstack, hcells.finish t⟩
  | barrier => exact ⟨nofun, hstack, hcells⟩
  | attempt => exact ⟨nofun, hstack, hcells⟩
  | thread rest o waiting ended => exact passes_runThreads hstack hcells o _ ended
  | dropping rest cause => exact passes_continueDropping hstack hcells cause rest
  | cleaning cause => exact ⟨nofun, hstack, hcells⟩
  | assigning fresh literal =>
    exact passes_settle hstack (hcells.quiet (.of_eq (view_assigned literal true)))

theorem passes_unwind (cause : Cause) (frame : Frame) : (unwind cause s stack frame).Passes p := by
  cases frame with
  | teardown t => exact ⟨nofun, hstack, hcells.finish t⟩
  | thread rest o waiting ended => exact passes_runThreads hstack hcells o _ _
  | dropping rest earlier =>
    cases earlier with
    | none => exact passes_continueDropping hstack hcells (some cause) rest
    | some earlier => exact ⟨nofun, hstack, hcells⟩
  | _ => exact ⟨nofun, hstack, hcells⟩

end Calls

omit hstack

/-- **A transition performs nothing but what the machine already held.** -/
theorem Passes.next (h : m.Passes p) (hn : m.next? = some m') : m'.Passes p := by
  obtain ⟨s, control, stack⟩ := m
  obtain ⟨hcontrol, hstack, hcells⟩ := h
  cases control with
  | perform step =>
    cases hn
    exact passes_perform hstack hcells (hcontrol step rfl)
  | release o =>
    cases hn
    exact passes_release hstack hcells o
  | halt halt => cases hn
  | answer answer =>
    cases stack with
    | nil => cases hn
    | cons frame stack =>
      cases hn
      obtain ⟨hframe, hrest⟩ := List.forall_mem_cons.1 hstack
      exact passes_resume hrest hcells answer hframe
  | unwind cause =>
    cases stack with
    | nil => cases hn
    | cons frame stack =>
      cases hn
      exact passes_unwind (List.forall_mem_cons.1 hstack).2 hcells cause frame

end Machine

/-! ### Sessions -/

/-- All that can still be performed at a stage passes the test. -/
structure Stage.Passes (p : Step → Bool) (st : Stage) : Prop where
  rest : ∀ step ∈ st.rest, step.every p = true
  cells : st.state.view.Stores p
  machine : ∀ m, st.position = .during m → m.Passes p

theorem State.Fresh.stores (h : s.Fresh) : s.view.Stores p := by
  intro c cell hc
  have hcells : s.view.cells = [] := by simp [State.view, h.heap]
  simp [View.cell?, hcells] at hc

variable {session : Session} {st st' : Stage}

/-- Steps that begin are steps of the session. -/
theorem Stage.Passes.next (h : st.Passes p) (hn : session.next? st = some st') : st'.Passes p := by
  obtain ⟨hrest, hcells, hmachine⟩ := h
  have hconclude (records : List Record) (rest : List Step) (result : Result) (s : State)
      (hrest : ∀ step ∈ rest, step.every p = true) (hcells : s.view.Stores p) :
      (session.conclude records rest result s).Passes p := by
    refine ⟨hrest, hcells.congr ?_, fun m hm => by cases hm⟩
    show (session.record result true s).2.heap.cells = _
    unfold Session.record
    split <;> rfl
  cases Session.advances_of_next? hn with
  | begins records rest s step =>
    obtain ⟨hstep, hrest⟩ := List.forall_mem_cons.1 hrest
    refine ⟨hrest, hcells.congr rfl, fun m hm => ?_⟩
    cases hm
    refine ⟨fun step' heq => ?_, nofun, hcells.congr rfl⟩
    cases heq
    exact hstep
  | moves records rest hm =>
    have hnext := (hmachine _ rfl).next hm
    refine ⟨hrest, hnext.cells, fun m' hm' => ?_⟩
    cases hm'
    exact hnext
  | answers records rest s answer => exact hconclude records rest _ s hrest hcells
  | fails records rest s cause => exact hconclude records rest _ s hrest hcells

namespace Session

/-- **Every step that is taken was written**, in the session or in a routine of it. -/
theorem passes_stage (h : s.view.Stores p)
    (hsteps : ∀ step ∈ session.steps, step.every p = true) (n : Nat) :
    (session.stage s n).Passes p := by
  induction n with
  | zero => exact ⟨hsteps, h, fun m hm => by cases hm⟩
  | succ n ih =>
    cases hn : session.next? (session.stage s n) with
    | none =>
      rw [stage_succ_of_rest hn]
      exact ih
    | some st =>
      rw [stage_succ_of_next? hn]
      exact ih.next hn

/-- **What holds of every step that is written holds of every step that is performed**, where it
holds of the steps that wait in cells as the session starts. -/
theorem performs_stored (h : s.view.Stores p)
    (hsteps : ∀ step ∈ session.steps, step.every p = true) {n : Nat} {step : Step}
    (hd : (session.stage s n).position = .during m) (hm : m.control = .perform step) :
    p step = true :=
  Step.holds_of_every (((passes_stage h hsteps n).machine m hd).control step hm)

/-- Where no cell is there yet, nothing but what is written is performed. -/
theorem performs_every (h : s.Fresh) (hsteps : ∀ step ∈ session.steps, step.every p = true) {n : Nat}
    {step : Step} (hd : (session.stage s n).position = .during m)
    (hm : m.control = .perform step) : p step = true :=
  performs_stored h.stores hsteps hd hm

end Session
end Custody
