import Custody.Proofs.Provenance

/-! What a script gives to do, and what of it is done.

A script writes down errands: routines to enter, steps to perform and calls to make, each as often
as its repetitions say. What a machine can still do waits in its control, on its stack and in its
cells, and a transition takes out of that what it does: a routine leaves its cell before it is
entered. So what is done and what waits never come to more than what was written
(`Machine.due_next?`), whatever weight is given to the errands. -/
namespace Custody

inductive Errand where
  | enter (r : Routine Step)
  | perform (step : Step)
  /-- One of the calls of a step that makes several. -/
  | call (c : CountCall)

/-! ### Scripts -/

mutual

/-- What a step gives to do beyond itself. -/
def Step.inner : Step → List Errand
  | .allocate _ _ routine _ _ => routineErrands routine
  | .assemble _ _ routine => routineErrands routine
  | .reinstall _ routine => routineErrands routine
  | .newCell _ routine => routineErrands routine
  | .describe routine => routineErrands routine
  | .call c _ times _ => List.replicate times (.call c)
  | .race _ threads retains releases rounds =>
    (List.replicate threads (Machine.threadCalls retains releases rounds)).flatten.map .call
  | .attempt step => .perform step :: step.inner
  | .dropHandle _ | .makeUnique _ _ | .act _ => []

def routineErrands : Option (Routine Step) → List Errand
  | none => []
  | some routine => Routine.errands routine

def Routine.errands : Routine Step → List Errand
  | ⟨convention, label, body⟩ => .enter ⟨convention, label, body⟩ :: bodyErrands body

/-- All that is written in a list of steps, repetitions counted. -/
def bodyErrands : List Step → List Errand
  | [] => []
  | step :: rest => .perform step :: (step.inner ++ bodyErrands rest)

end

/-! ### Machines -/

def Control.errands : Control → List Errand
  | .perform step => .perform step :: step.inner
  | _ => []

def Frame.errands : Frame → List Errand
  | .repeating c _ times _ => List.replicate times (.call c)
  | .routine _ rest => bodyErrands rest
  | .thread rest _ waiting _ => (rest :: waiting).flatten.map .call
  | _ => []

/-- The first call of a step, and the object that it names. -/
def Step.call? (names : Bindings ObjectId) : Step → Option (CountCall × Option ObjectId)
  | .call c name (_ + 1) _ => some (c, name.bind names.find?)
  | .race name threads retains releases rounds =>
    (names.find? name).bind fun o =>
      (List.replicate threads (Machine.threadCalls retains releases rounds)).flatten.head?.map
        (·, some o)
  | _ => none

/-- The call that a frame goes on with. A call that has unwound is not repeated, and its thread is
not gone on with. -/
def Frame.call? (names : Bindings ObjectId) (unwound : Bool) :
    Frame → Option (CountCall × Option ObjectId)
  | .repeating c name (_ + 1) _ => if unwound then none else some (c, name.bind names.find?)
  | .thread rest o waiting _ =>
    ((if unwound then waiting else rest :: waiting).flatten.head?).map (·, some o)
  | _ => none

namespace Machine

/-- The step that the next transition performs. -/
def performs? (m : Machine) : Option Step :=
  match m.control with
  | .perform step => some step
  | _ => none

/-- The routine that the next transition enters. -/
def enters? (m : Machine) : Option (Routine Step) :=
  match m.control with
  | .release o =>
    match m.state.release o with
    | .returned (some (_, finalizer)) _ => Cell.routine? {finalizer}
    | _ => none
  | _ => none

/-- The call that the next transition makes, of those that are still to be made. -/
def call? (m : Machine) : Option (CountCall × Option ObjectId) :=
  match m.control, m.stack with
  | .perform step, _ => step.call? m.state.names.objects
  | .answer _, frame :: _ => frame.call? m.state.names.objects false
  | .unwind _, frame :: _ => frame.call? m.state.names.objects true
  | _, _ => none

/-- What the next transition does. -/
def doing (m : Machine) : List Errand :=
  m.performs?.toList.map .perform ++ m.enters?.toList.map .enter ++
    m.call?.toList.map fun call => .call call.1

end Machine

/-! ### Weights -/

variable {g : Errand → Nat} {edits : ObjectId → Prop} {v w : View} {s : State}
  {stack : List Frame} {o : ObjectId} {c : CellId}

def callDue (g : Errand → Nat) : Option (CountCall × Option ObjectId) → Nat
  | none => 0
  | some (c, _) => g (.call c)

def performDue (g : Errand → Nat) : Option Step → Nat
  | none => 0
  | some step => g (.perform step)

def enterDue (g : Errand → Nat) : Option (Routine Step) → Nat
  | none => 0
  | some r => g (.enter r)

theorem Machine.total_doing (g : Errand → Nat) (m : Machine) :
    total g m.doing = performDue g m.performs? + enterDue g m.enters? + callDue g m.call? := by
  unfold doing
  rw [total_append, total_append]
  cases m.performs? <;> cases m.enters? <;> cases m.call? <;> rfl

def routineDue (g : Errand → Nat) (routine : Option (Routine Step)) : Nat :=
  total g (routineErrands routine)

def View.due (g : Errand → Nat) (v : View) : Nat :=
  total (Heap.load (routineDue g)) v.cells

def Frame.due (g : Errand → Nat) (frame : Frame) : Nat :=
  total g frame.errands

def stackDue (g : Errand → Nat) (stack : List Frame) : Nat :=
  total (Frame.due g) stack

@[simp] theorem stackDue_cons (g : Errand → Nat) (frame : Frame) (stack : List Frame) :
    stackDue g (frame :: stack) = frame.due g + stackDue g stack := rfl

@[simp] theorem stackDue_guarded (g : Errand → Nat) (via : Convention) (stack : List Frame) :
    stackDue g (Machine.guarded via stack) = stackDue g stack := by
  cases via
  · rfl
  · exact Nat.zero_add _

/-- The weight of all that a machine can still do. -/
def Machine.due (g : Errand → Nat) (m : Machine) : Nat :=
  total g m.control.errands + stackDue g m.stack + m.state.view.due g

/-! ### Cells -/

namespace View

theorem due_updateCell (g : Errand → Nat) (c : CellId) (f : Cell → Cell) (v : View) :
    (v.updateCell c f).due g + Heap.load (routineDue g) (v.cell? c) =
      v.due g + Heap.load (routineDue g) ((v.cell? c).map f) :=
  Heap.total_updateCell (h := {cells := v.cells}) (routineDue g) rfl f

theorem due_recount (count : UInt32) : (v.recount c count).due g = v.due g := by
  have h := due_updateCell g c (fun cell => {cell with count}) v
  have hsame : Heap.load (routineDue g) ((v.cell? c).map fun cell => {cell with count}) =
      Heap.load (routineDue g) (v.cell? c) := by
    cases v.cell? c <;> rfl
  rw [hsame] at h
  exact Nat.add_right_cancel h

theorem due_addCell (finalizer : Option Finalizer) :
    (v.addCell finalizer).due g = v.due g + routineDue g (Cell.routine? {finalizer}) := by
  unfold due addCell
  rw [total_append]
  rfl

theorem due_freeCell_le : (v.freeCell c).due g ≤ v.due g :=
  total_set_le _ v.cells c rfl

/-- A teardown takes the routine out of its cell. -/
theorem due_begin {t : Teardown} {cell : Cell} (hc : v.cell? t.cell = some cell) :
    (v.begin t cell.finalizer).due g + routineDue g cell.routine? = v.due g := by
  have h := due_updateCell g t.cell (fun _ => {locked := true}) v
  rw [hc] at h
  exact h

theorem due_finish_le (t : Teardown) : (v.finish t).due g ≤ v.due g := by
  rw [finish_eq]
  exact due_freeCell_le (v := v.unlink t.object)

end View

theorem Shift.due_le {r : Option (Routine Step)} (h : Shift edits r v w) :
    w.due g ≤ v.due g + routineDue g r := by
  cases h with
  | recount _ c count => exact Nat.le_of_eq (View.due_recount count)
  | create _ finalizer => exact Nat.le_of_eq (View.due_addCell finalizer)
  | stand _ name finalizer => exact Nat.le_of_eq (View.due_addCell finalizer)
  | relink _ o finalizer _ => exact Nat.le_of_eq (View.due_addCell finalizer)
  | unlink _ o _ => exact Nat.le_refl _
  | free _ _ => exact View.due_freeCell_le
  | discard _ r => exact Nat.le_add_right _ _
  | waste _ r => exact Nat.le_add_right _ _

theorem Shifts.due_le {rs : List (Routine Step)} (h : Shifts edits rs v w) :
    w.due g ≤ v.due g + total (fun r => routineDue g (some r)) rs := by
  induction h with
  | refl v => exact Nat.le_refl _
  | @step r rs v w x first _ ih =>
    have hfirst := first.due_le (g := g)
    have hr : total (fun r => routineDue g (some r)) r.toList = routineDue g r := by
      cases r <;> rfl
    rw [total_append, hr]
    omega

/-- An operation that puts no routine to use. -/
theorem Shifts.due_le_of_nil (h : Shifts (fun _ => True) [] v w) : w.due g ≤ v.due g :=
  h.due_le

theorem Shifts.due_le_of_toList {r : Option (Routine Step)}
    (h : Shifts (fun _ => True) r.toList v w) : w.due g ≤ v.due g + routineDue g r := by
  have hle := h.due_le (g := g)
  cases r <;> exact hle

namespace Machine

/-! ### Calls -/

theorem due_settle {out : Outcome Answer} {n : Nat} (h : out.state.view.due g ≤ n) :
    (settle out stack).due g ≤ stackDue g stack + n := by
  cases out <;>
    exact Nat.le_trans (Nat.le_of_eq (by rw [due, Nat.add_assoc]; exact Nat.zero_add _))
      (Nat.add_le_add_left h _)

/-- A control that waits for nothing. -/
theorem due_idle {control : Control} (h : control.errands = []) :
    due g ⟨s, control, stack⟩ = stackDue g stack + s.view.due g := by
  rw [due, h, total_nil, Nat.zero_add]

theorem due_idle_le {control : Control} {n : Nat} (h : control.errands = [])
    (hheap : s.view.due g ≤ n) : due g ⟨s, control, stack⟩ ≤ stackDue g stack + n :=
  Nat.le_trans (Nat.le_of_eq (due_idle h)) (Nat.add_le_add_left hheap _)

theorem due_call (c : CountCall) (o : ObjectId) (s : State) (stack : List Frame) :
    (call c o s stack).due g ≤ stackDue g stack + s.view.due g := by
  cases c with
  | retain => exact due_settle (State.shifts_retain.map _).due_le_of_nil
  | release => exact Nat.le_of_eq (due_idle rfl)

theorem due_callNamed (c : CountCall) (name : Option String) (s : State) (stack : List Frame) :
    (callNamed c name s stack).due g ≤ stackDue g stack + s.view.due g := by
  cases name with
  | none => exact due_settle (Nat.le_of_eq (by rw [State.view_report]))
  | some name =>
    unfold callNamed
    dsimp only
    split
    · exact due_call c _ s stack
    · exact Nat.le_of_eq (due_idle rfl)

theorem due_repeatCall (g : Errand → Nat) (s : State) (stack : List Frame) (c : CountCall)
    (name : Option String) (via : Convention) (times : Nat) :
    (repeatCall c name via s stack (times + 1)).due g + g (.call c) ≤
      (times + 1) * g (.call c) + stackDue g stack + s.view.due g := by
  have h := due_callNamed (g := g) c name s (guarded via (.repeating c name times via :: stack))
  have hframe : Frame.due g (.repeating c name times via) = times * g (.call c) :=
    total_replicate g times _
  rw [stackDue_guarded, stackDue_cons, hframe] at h
  rw [Nat.succ_mul]
  show (callNamed c name s (guarded via (.repeating c name times via :: stack))).due g + _ ≤ _
  omega

/-- Threads make the first call that one of them has left, if any has. -/
theorem runThreads_cases (o : ObjectId) (s : State) (stack : List Frame)
    (waiting : List (List CountCall)) (ended : List Bool) :
    (waiting.flatten = [] ∧ ∃ flags,
        runThreads o s stack waiting ended = ⟨s, .answer (.flags flags), stack⟩) ∨
      ∃ c rest waiting' ended', waiting.flatten = c :: (rest :: waiting').flatten ∧
        runThreads o s stack waiting ended =
          call c o s (.thread rest o waiting' ended' :: stack) := by
  induction waiting generalizing ended with
  | nil => exact .inl ⟨rfl, ended, rfl⟩
  | cons calls waiting ih =>
    cases calls with
    | nil => exact ih (ended ++ [true])
    | cons c rest => exact .inr ⟨c, rest, waiting, ended, rfl, rfl⟩

theorem due_runThreads (o : ObjectId) (s : State) (stack : List Frame)
    (waiting : List (List CountCall)) (ended : List Bool) :
    (runThreads o s stack waiting ended).due g +
        callDue g (waiting.flatten.head?.map (·, some o)) ≤
      total g (waiting.flatten.map .call) + stackDue g stack + s.view.due g := by
  rcases runThreads_cases o s stack waiting ended with
    ⟨hnone, flags, hrun⟩ | ⟨c, rest, waiting', ended', hsome, hrun⟩
  · rw [hrun, hnone, due_idle rfl]
    show _ + 0 ≤ 0 + _ + _
    omega
  · have h := due_call (g := g) c o s (.thread rest o waiting' ended' :: stack)
    have hframe : Frame.due g (.thread rest o waiting' ended') =
        total g ((rest :: waiting').flatten.map .call) := rfl
    rw [stackDue_cons, hframe] at h
    rw [hrun, hsome]
    show _ + g (.call c) ≤ g (.call c) + total g ((rest :: waiting').flatten.map .call) + _ + _
    omega

/-! ### Finalizers -/

theorem due_observe (event : Event) : (s.observe event).view.due g = s.view.due g := rfl

theorem due_continueRoutine (label : String) (s : State) (stack : List Frame) (steps : List Step) :
    (continueRoutine label s stack steps).due g =
      total g (bodyErrands steps) + stackDue g stack + s.view.due g := by
  cases steps with
  | nil =>
    rw [continueRoutine, due_idle rfl, due_observe, bodyErrands, total_nil, Nat.zero_add]
  | cons step rest =>
    simp only [continueRoutine, due, Control.errands, stackDue_cons, Frame.due, Frame.errands,
      bodyErrands, total_cons, total_append]
    omega

theorem due_continueDropping (cause : Option Cause) (s : State) (stack : List Frame)
    (os : List ObjectId) :
    (continueDropping cause s stack os).due g = stackDue g stack + s.view.due g := by
  cases os with
  | nil => cases cause <;> exact due_idle rfl
  | cons o rest =>
    rw [continueDropping, due_idle rfl, stackDue_cons]
    exact congrArg (· + s.view.due g) (Nat.zero_add _)

theorem due_dropValue (o : ObjectId) (s : State) (stack : List Frame) :
    (dropValue o s stack).due g = stackDue g stack + s.view.due g := by
  have hemptied := State.view_setContents (s := s) (o := o) .remains
  unfold dropValue
  dsimp only
  split
  · rw [due_continueDropping, due_observe, hemptied]
  · rw [due_idle rfl, hemptied]

theorem due_finalize (t : Teardown) (finalizer : Option Finalizer) (s : State)
    (stack : List Frame) :
    (finalize t finalizer s stack).due g + enterDue g (Cell.routine? {finalizer}) ≤
      routineDue g (Cell.routine? {finalizer}) + stackDue g stack + s.view.due g := by
  have hteardown : stackDue g (.teardown t :: stack) = stackDue g stack := Nat.zero_add _
  cases finalizer with
  | none =>
    show due g ⟨s, .answer .done, .teardown t :: stack⟩ + 0 ≤ 0 + _ + _
    rw [due_idle rfl, hteardown]
    omega
  | some finalizer =>
    cases finalizer with
    | dropValue =>
      show (dropValue t.object s (.barrier :: .teardown t :: stack)).due g + 0 ≤ 0 + _ + _
      have hbarrier : stackDue g (.barrier :: .teardown t :: stack) = stackDue g stack := by
        rw [stackDue_cons, hteardown]
        exact Nat.zero_add _
      rw [due_dropValue, hbarrier]
      omega
    | routine r =>
      obtain ⟨convention, label, body⟩ := r
      unfold finalize
      dsimp only
      rw [due_continueRoutine, stackDue_guarded, hteardown, due_observe]
      show _ + g (.enter _) ≤ g (.enter _) + total g (bodyErrands body) + _ + _
      omega

theorem due_release (g : Errand → Nat) (s : State) (stack : List Frame) (o : ObjectId) :
    (release o s stack).due g + enterDue g (enters? ⟨s, .release o, stack⟩) ≤
      stackDue g stack + s.view.due g := by
  by_cases hlast : ∃ c cell, s.heap.Opens o c cell ∧ cell.count = 1
  · obtain ⟨c, cell, hopens, hcount⟩ := hlast
    have henters : enters? ⟨s, .release o, stack⟩ =
        Cell.routine? {finalizer := cell.finalizer} := by
      unfold enters?
      dsimp only
      rw [State.release_of_opens hopens, hcount]
      rfl
    have hfinalize := due_finalize (g := g) ⟨o, c⟩ cell.finalizer (s.begin ⟨o, c⟩) stack
    have hbegin : (s.begin ⟨o, c⟩).view.due g + routineDue g cell.routine? = s.view.due g :=
      View.due_begin (t := ⟨o, c⟩) (v := s.view) hopens.found
    have hsame : Cell.routine? {finalizer := cell.finalizer} = cell.routine? := rfl
    rw [hsame] at hfinalize
    rw [release_of_last hopens hcount, henters, hsame]
    omega
  · obtain ⟨hshifts, hnone⟩ : Shifts (fun _ => True) [] s.view _ ∧ _ :=
      State.shifts_release fun c cell hopens hcount => hlast ⟨c, cell, hopens, hcount⟩
    have hheap := hshifts.due_le_of_nil (g := g)
    have henters : enters? ⟨s, .release o, stack⟩ = none := by
      unfold enters?
      dsimp only
      split
      · next t finalizer u heq => exact absurd heq (hnone (t, finalizer) u)
      · rfl
    rw [henters]
    show (release o s stack).due g + 0 ≤ _
    unfold release
    split
    · next t ht =>
      rw [ht] at hheap
      exact due_idle_le rfl hheap
    · next begun finalizer t ht => exact absurd ht (hnone (begun, finalizer) t)
    · next cause t ht =>
      rw [ht] at hheap
      exact due_idle_le rfl hheap
    · next halt t ht =>
      rw [ht] at hheap
      exact due_idle_le rfl hheap

/-! ### Copies on write -/

theorem due_copyOnWrite (handle : String) (o : ObjectId) (literal : Literal) :
    (copyOnWrite handle o literal s stack).due g ≤ stackDue g stack + s.view.due g := by
  unfold copyOnWrite
  split
  · exact due_idle_le rfl (Nat.le_refl _)
  · next v _ =>
    have hretain := (State.shifts_retainEach (s := s) v.children).due_le_of_nil (g := g)
    split
    · next retained cause t heq =>
      rw [heq] at hretain
      rw [due_continueDropping, stackDue_cons]
      exact Nat.add_le_add (Nat.le_of_eq (Nat.zero_add _)) hretain
    · next halt t heq =>
      rw [heq] at hretain
      exact due_idle_le rfl hretain
    · next retained u t heq =>
      rw [heq] at hretain
      have hhold := Nat.le_trans ((State.shifts_hold (s := t) v).due_le_of_nil (g := g)) hretain
      split
      · next fresh t' hfresh =>
        rw [hfresh] at hhold
        rw [due_idle rfl, stackDue_cons]
        exact Nat.add_le_add (Nat.le_of_eq (Nat.zero_add _)) hhold
      · next cause t' hfresh =>
        rw [hfresh] at hhold
        exact due_idle_le rfl hhold
      · next halt t' hfresh =>
        rw [hfresh] at hhold
        exact due_idle_le rfl hhold

theorem due_makeUnique (handle : String) (o : ObjectId) (literal : Literal) :
    (makeUnique handle o literal s stack).due g ≤ stackDue g stack + s.view.due g := by
  have hunique := congrArg (View.due g) (State.view_isUnique (s := s) (o := o))
  unfold makeUnique
  split
  · next t ht =>
    rw [ht] at hunique
    exact due_settle (Nat.le_of_eq (by rw [view_assigned]; exact hunique))
  · next t ht =>
    rw [ht] at hunique
    have hunique : t.view.due g = s.view.due g := hunique
    rw [← hunique]
    exact due_copyOnWrite handle o literal
  · next cause t ht =>
    rw [ht] at hunique
    exact due_idle_le rfl (Nat.le_of_eq hunique)
  · next halt t ht =>
    rw [ht] at hunique
    exact due_idle_le rfl (Nat.le_of_eq hunique)

/-! ### Steps -/

/-- A step that settles at once puts its routine to use. -/
theorem due_settle_of_shifts {out : Outcome Answer} {routine : Option (Routine Step)}
    (h : Shifts (fun _ => True) routine.toList s.view out.state.view) :
    (settle out stack).due g ≤ routineDue g routine + stackDue g stack + s.view.due g := by
  have hsettle : (settle out stack).due g ≤ stackDue g stack + _ := due_settle h.due_le_of_toList
  omega

/-- A step that may bring a routine along leaves nothing to do but that. -/
theorem due_bringing {step : Step} {routine : Option (Routine Step)}
    (hroutine : step.routine? = some routine) :
    (perform s stack step).due g + callDue g (step.call? s.names.objects) ≤
      total g step.inner + stackDue g stack + s.view.due g := by
  obtain ⟨out, hout, hshifts⟩ : ∃ out, perform s stack step = settle out stack ∧
      Shifts (fun _ => True) routine.toList s.view out.state.view :=
    exists_settle hroutine fun _ _ _ _ => trivial
  have hcall : step.call? s.names.objects = none := by
    cases step <;> cases hroutine <;> rfl
  have hinner : step.inner = routineErrands routine := by
    cases step <;> cases hroutine <;> rfl
  rw [hout, hcall, hinner]
  exact due_settle_of_shifts hshifts

theorem due_perform (g : Errand → Nat) (s : State) (stack : List Frame) (step : Step) :
    (perform s stack step).due g + callDue g (step.call? s.names.objects) ≤
      total g step.inner + stackDue g stack + s.view.due g := by
  cases step with
  | allocate _ _ _ _ _ | assemble _ _ _ | reinstall _ _ | newCell _ _ | describe _ =>
    exact due_bringing rfl
  | call c name times via =>
    cases times with
    | zero =>
      show due g ⟨s, .answer .done, stack⟩ + 0 ≤ 0 + _ + _
      rw [due_idle rfl]
      omega
    | succ times =>
      have := due_repeatCall g s stack c name via times
      show (repeatCall c name via s stack (times + 1)).due g + g (.call c) ≤
        total g (List.replicate (times + 1) (.call c)) + _ + _
      rw [total_replicate]
      omega
  | race name threads retains releases rounds =>
    unfold perform Step.call?
    dsimp only
    cases s.names.objects.find? name with
    | none =>
      show due g ⟨s, .halt .malformed, stack⟩ + 0 ≤ _
      rw [due_idle rfl]
      omega
    | some o =>
      exact due_runThreads o s stack
        (List.replicate threads (threadCalls retains releases rounds)) []
  | dropHandle handle =>
    have hdrop : (perform s stack (.dropHandle handle)).due g ≤
        stackDue g stack + s.view.due g := by
      unfold perform
      dsimp only
      split
      · exact Nat.le_of_eq (due_idle rfl)
      · exact Nat.le_of_eq (due_idle rfl)
    show _ + 0 ≤ 0 + _ + _
    omega
  | makeUnique handle literal =>
    have hassign : (perform s stack (.makeUnique handle literal)).due g ≤
        stackDue g stack + s.view.due g := by
      unfold perform
      dsimp only
      split
      · exact due_makeUnique handle _ literal
      · exact Nat.le_of_eq (due_idle rfl)
    show _ + 0 ≤ 0 + _ + _
    omega
  | attempt step =>
    show total g (.perform step :: step.inner) + (0 + stackDue g stack) + s.view.due g + 0 ≤
      total g (.perform step :: step.inner) + _ + _
    omega
  | act action =>
    have hshifts : Shifts (fun _ => True) [] s.view (act s action).state.view :=
      shifts_act action fun _ _ _ _ => trivial
    have hsettle : (settle (act s action) stack).due g ≤ stackDue g stack + s.view.due g :=
      due_settle hshifts.due_le_of_nil
    show (settle (act s action) stack).due g + 0 ≤ 0 + _ + _
    omega

/-! ### Frames -/

/-- A frame that goes on with no call. -/
theorem due_frame {frame : Frame} {unwound : Bool} {m : Machine}
    (hcall : frame.call? s.names.objects unwound = none)
    (h : m.due g ≤ stackDue g stack + s.view.due g) :
    m.due g + callDue g (frame.call? s.names.objects unwound) ≤
      stackDue g (frame :: stack) + s.view.due g := by
  rw [hcall, stackDue_cons]
  show m.due g + 0 ≤ _
  omega

theorem due_finish_le (t : Teardown) : (s.finish t).view.due g ≤ s.view.due g := by
  rw [State.view_finish]
  exact View.due_finish_le t

theorem due_resume (g : Errand → Nat) (s : State) (stack : List Frame) (answer : Answer)
    (frame : Frame) :
    (resume answer s stack frame).due g + callDue g (frame.call? s.names.objects false) ≤
      stackDue g (frame :: stack) + s.view.due g := by
  cases frame with
  | repeating c name times via =>
    cases times with
    | zero => exact due_frame rfl (Nat.le_of_eq (due_idle rfl))
    | succ times =>
      have := due_repeatCall g s stack c name via times
      have hframe : Frame.due g (.repeating c name (times + 1) via) = (times + 1) * g (.call c) :=
        total_replicate g (times + 1) _
      rw [stackDue_cons, hframe]
      exact this
  | routine label rest =>
    exact Nat.le_of_eq (due_continueRoutine label (s.observe (.stepped answer)) stack rest)
  | teardown t => exact due_frame rfl (due_idle_le rfl (due_finish_le t))
  | barrier | attempt | cleaning _ => exact due_frame rfl (Nat.le_of_eq (due_idle rfl))
  | thread rest o waiting ended => exact due_runThreads o s stack (rest :: waiting) ended
  | dropping rest cause =>
    exact due_frame rfl (Nat.le_of_eq (due_continueDropping cause s stack rest))
  | assigning fresh literal =>
    exact due_frame rfl (due_settle (Nat.le_of_eq (by rw [view_assigned])))

theorem due_unwind (g : Errand → Nat) (s : State) (stack : List Frame) (cause : Cause)
    (frame : Frame) :
    (unwind cause s stack frame).due g + callDue g (frame.call? s.names.objects true) ≤
      stackDue g (frame :: stack) + s.view.due g := by
  cases frame with
  | repeating c name times via =>
    cases times <;> exact due_frame rfl (Nat.le_of_eq (due_idle rfl))
  | routine _ _ | barrier | attempt | cleaning _ | assigning _ _ =>
    exact due_frame rfl (Nat.le_of_eq (due_idle rfl))
  | teardown t => exact due_frame rfl (due_idle_le rfl (due_finish_le t))
  | thread rest o waiting ended =>
    have hrun := due_runThreads (g := g) o s stack waiting (ended ++ [false])
    have hframe : Frame.due g (.thread rest o waiting ended) =
        total g (rest.map .call) + total g (waiting.flatten.map .call) := by
      rw [← total_append, ← List.map_append]
      rfl
    rw [stackDue_cons, hframe]
    show (runThreads o s stack waiting (ended ++ [false])).due g +
      callDue g (waiting.flatten.head?.map (·, some o)) ≤ _
    omega
  | dropping rest earlier =>
    cases earlier with
    | none => exact due_frame rfl (Nat.le_of_eq (due_continueDropping (some cause) s stack rest))
    | some earlier => exact due_frame rfl (Nat.le_of_eq (due_idle rfl))

/-! ### Transitions -/

/-- **What a transition does is taken out of what waits.** -/
theorem due_next? (g : Errand → Nat) {m m' : Machine} (h : m.next? = some m') :
    total g m.doing + m'.due g ≤ m.due g := by
  obtain ⟨s, control, stack⟩ := m
  rw [total_doing]
  cases control with
  | perform step =>
    cases h
    have hperform := due_perform g s stack step
    show g (.perform step) + 0 + callDue g (step.call? s.names.objects) +
      (perform s stack step).due g ≤ g (.perform step) + total g step.inner + stackDue g stack +
        s.view.due g
    omega
  | release o =>
    cases h
    have hrelease := due_release g s stack o
    show 0 + enterDue g (enters? ⟨s, .release o, stack⟩) + 0 + (release o s stack).due g ≤
      0 + stackDue g stack + s.view.due g
    omega
  | halt halt => cases h
  | answer answer =>
    cases stack with
    | nil => cases h
    | cons frame stack =>
      cases h
      have hresume := due_resume g s stack answer frame
      show 0 + 0 + callDue g (frame.call? s.names.objects false) +
        (resume answer s stack frame).due g ≤ 0 + stackDue g (frame :: stack) + s.view.due g
      omega
  | unwind cause =>
    cases stack with
    | nil => cases h
    | cons frame stack =>
      cases h
      have hunwind := due_unwind g s stack cause frame
      show 0 + 0 + callDue g (frame.call? s.names.objects true) +
        (unwind cause s stack frame).due g ≤ 0 + stackDue g (frame :: stack) + s.view.due g
      omega

/-- At rest there is nothing left to do. -/
theorem doing_of_rest {m : Machine} (h : m.next? = none) : m.doing = [] := by
  obtain ⟨s, control, stack⟩ := m
  cases control with
  | perform _ | release _ => cases h
  | halt _ => rfl
  | answer _ | unwind _ =>
    cases stack with
    | nil => rfl
    | cons frame stack => cases h

end Machine
end Custody
