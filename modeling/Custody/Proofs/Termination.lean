import Mathlib.Data.List.Perm.Basic
import Custody.Proofs.Blocking
import Custody.Proofs.Conservation
import Custody.Proofs.SideBySide

/-! Every session of object steps ends.

Finalizers run steps that install finalizers, so no step gets any smaller as it runs. What does get
smaller is all that the session holds, in the steps to come, on the stack and in the cells. So
nothing is done more often than it was written (`Session.subperm_done`), and after five transitions
for every step that was written, repetitions counted, the session is at rest
(`Session.comesToRest`). -/
namespace Custody

variable {g : Errand → Nat} {s : State} {session : Session}

/-! ### What is done -/

theorem total_indicator (p : α → Bool) (l : List α) :
    total (fun x => if p x then 1 else 0) l = l.countP p := by
  induction l with
  | nil => rfl
  | cons x rest ih =>
    rw [total_cons, ih, List.countP_cons, Nat.add_comm]

namespace Stage

/-- What the next transition does. -/
def doing (st : Stage) : List Errand :=
  match st.position with
  | .between _ => []
  | .during m => m.doing

/-- The weight of all that can still be done. -/
def due (g : Errand → Nat) (st : Stage) : Nat :=
  total g (bodyErrands st.rest) +
    match st.position with
    | .between s => s.view.due g
    | .during m => m.due g

end Stage

namespace Session

/-- What was done by the first `n` transitions. -/
def done (session : Session) (s : State) (n : Nat) : List Errand :=
  (List.range n).flatMap fun i => (session.stage s i).doing

theorem done_succ (session : Session) (s : State) (n : Nat) :
    session.done s (n + 1) = session.done s n ++ (session.stage s n).doing := by
  simp [done, List.range_succ]

theorem due_conclude (records : List Record) (rest : List Step) (result : Result) (t : State) :
    (session.conclude records rest result t).due g =
      total g (bodyErrands rest) + t.view.due g := by
  unfold conclude record
  dsimp only
  split <;> rfl

theorem due_next? {st st' : Stage} (h : session.next? st = some st') :
    total g st.doing + st'.due g ≤ st.due g := by
  cases advances_of_next? h with
  | begins records rest t step =>
    show 0 + (total g (bodyErrands rest) +
        (total g (.perform step :: step.inner) + 0 + t.view.due g)) ≤
      total g (.perform step :: (step.inner ++ bodyErrands rest)) + t.view.due g
    rw [total_cons, total_cons, total_append]
    omega
  | @moves records rest m m' hm =>
    have := Machine.due_next? g hm
    show total g m.doing + (total g (bodyErrands rest) + m'.due g) ≤
      total g (bodyErrands rest) + m.due g
    omega
  | answers records rest t answer =>
    rw [due_conclude]
    show 0 + (total g (bodyErrands rest) + t.view.due g) ≤
      total g (bodyErrands rest) + (0 + 0 + t.view.due g)
    omega
  | fails records rest t cause =>
    rw [due_conclude]
    show 0 + (total g (bodyErrands rest) + t.view.due g) ≤
      total g (bodyErrands rest) + (0 + 0 + t.view.due g)
    omega

theorem doing_of_rest {st : Stage} (h : session.next? st = none) : st.doing = [] := by
  obtain ⟨records, rest, position⟩ := st
  cases position with
  | between t => rfl
  | during m =>
    refine Machine.doing_of_rest ?_
    cases hm : m.next? with
    | none => rfl
    | some m' =>
      rw [next?_during hm] at h
      cases h

theorem due_done_le (session : Session) (h : s.Fresh) (g : Errand → Nat) (n : Nat) :
    total g (session.done s n) + (session.stage s n).due g ≤
      total g (bodyErrands session.steps) := by
  induction n with
  | zero =>
    have hempty : s.view.due g = 0 := by simp [View.due, State.view, h.heap]
    show 0 + (total g (bodyErrands session.steps) + s.view.due g) ≤ _
    omega
  | succ n ih =>
    rw [done_succ, total_append]
    cases hn : session.next? (session.stage s n) with
    | none =>
      rw [stage_succ_of_rest hn, doing_of_rest hn, total_nil]
      omega
    | some st =>
      have := due_next? (g := g) hn
      rw [stage_succ_of_next? hn]
      omega

open Classical in
/-- **Nothing is done more often than it was written.** -/
theorem subperm_done (session : Session) (h : s.Fresh) (n : Nat) :
    (session.done s n).Subperm (bodyErrands session.steps) := by
  rw [List.subperm_ext_iff]
  intro errand _
  have hdue := session.due_done_le h (fun e => if e == errand then 1 else 0) n
  rw [total_indicator, total_indicator] at hdue
  unfold List.count
  omega

end Session

/-! ### The text and its work -/

namespace Errand

/-- A routine, to be run as a finalizer. -/
def isRoutine : Errand → Bool
  | .enter _ => true
  | _ => false

/-- A step, or one of the calls that a step makes. -/
def isStep (errand : Errand) : Bool :=
  !errand.isRoutine

@[simp] theorem isStep_enter (r : Routine Step) : (enter r).isStep = false := rfl

@[simp] theorem isStep_perform (step : Step) : (perform step).isStep = true := rfl

@[simp] theorem isStep_call (c : CountCall) : (call c).isStep = true := rfl

end Errand

theorem countP_map_call (calls : List CountCall) :
    (calls.map Errand.call).countP (·.isStep) = calls.length := by
  simp

mutual

theorem Step.work_le : ∀ step : Step, step.every Step.onObjects = true →
    step.work + 3 ≤ 5 * (1 + step.inner.countP (·.isStep))
  | .allocate _ _ routine _ _ | .assemble _ _ routine | .reinstall _ routine | .newCell _ routine =>
    fun h => by
      have := routineWork_le routine (Bool.and_eq_true_iff.1 h).2
      simp only [Step.work, Step.inner]
      omega
  | .describe _ => fun _ => by simp only [Step.work]; omega
  | .call c name times via => fun _ => by
    have hcalls : (Step.call c name times via).inner.countP (·.isStep) = times := by
      simp [Step.inner, List.countP_replicate]
    rw [hcalls]
    simp only [Step.work, callWork, releaseWork]
    omega
  | .race name threads retains releases rounds => fun _ => by
    have hcalls : (Step.race name threads retains releases rounds).inner.countP (·.isStep) =
        threads * (rounds * (retains + releases)) := by
      rw [Step.inner, countP_map_call]
      simp [Machine.length_threadCalls]
    rw [hcalls]
    simp only [Step.work, handleWork, releaseWork]
    omega
  | .attempt step => fun h => by
    have := Step.work_le step (Bool.and_eq_true_iff.1 h).2
    simp only [Step.work, Step.inner, List.countP_cons, Errand.isStep_perform, if_true]
    omega
  | .act action => fun h => by
    cases action with
    | handle _ => cases h
    | _ => simp only [Step.work, Action.work]; omega
  | .dropHandle _ | .makeUnique _ _ => nofun

theorem routineWork_le : ∀ routine : Option (Routine Step),
    routineEvery Step.onObjects routine = true →
      routineWork routine ≤ 5 * (routineErrands routine).countP (·.isStep)
  | none => fun _ => Nat.zero_le _
  | some ⟨_, _, body⟩ => fun h => by
    have := bodyWork_le body h
    simp only [routineWork, routineBodyWork, routineErrands, Routine.errands, List.countP_cons]
    omega

theorem bodyWork_le : ∀ body : List Step, bodyEvery Step.onObjects body = true →
    bodyWork body ≤ 5 * (bodyErrands body).countP (·.isStep)
  | [] => fun _ => Nat.zero_le _
  | step :: rest => fun h => by
    have hstep := Step.work_le step (Bool.and_eq_true_iff.1 h).1
    have hrest := bodyWork_le rest (Bool.and_eq_true_iff.1 h).2
    simp only [bodyWork, bodyErrands, List.countP_cons, List.countP_append, Errand.isStep_perform,
      if_true]
    omega

end

mutual

theorem Step.copies_eq_zero : ∀ step : Step, step.every Step.onObjects = true → step.copies = 0
  | .allocate _ _ routine _ _ | .assemble _ _ routine | .reinstall _ routine | .newCell _ routine =>
    fun h => routineCopies_eq_zero routine (Bool.and_eq_true_iff.1 h).2
  | .attempt step => fun h => Step.copies_eq_zero step (Bool.and_eq_true_iff.1 h).2
  | .describe _ | .call _ _ _ _ | .race _ _ _ _ _ | .dropHandle _ | .act _ => fun _ => rfl
  | .makeUnique _ _ => nofun

theorem routineCopies_eq_zero : ∀ routine : Option (Routine Step),
    routineEvery Step.onObjects routine = true → routineCopies routine = 0
  | none => fun _ => rfl
  | some ⟨_, _, body⟩ => fun h => bodyCopies_eq_zero body h

theorem bodyCopies_eq_zero : ∀ body : List Step, bodyEvery Step.onObjects body = true →
    bodyCopies body = 0
  | [] => fun _ => rfl
  | step :: rest => fun h => by
    rw [bodyCopies, Step.copies_eq_zero step (Bool.and_eq_true_iff.1 h).1,
      bodyCopies_eq_zero rest (Bool.and_eq_true_iff.1 h).2]

end

/-! ### Rest -/

namespace Stage

/-- The transitions that are left, at most, where no step makes a copy on write. -/
def work (st : Stage) : Nat :=
  total (fun step => step.work + 2) st.rest +
    match st.position with
    | .between s => s.heap.work
    | .during m => m.work + 1

def copies (st : Stage) : Nat :=
  total Step.copies st.rest +
    match st.position with
    | .between s => s.heap.copies
    | .during m => m.copies

end Stage

namespace Session

/-- Without copies on write every transition uses up work. -/
theorem work_next? {st st' : Stage} (h : session.next? st = some st') (hnone : st.copies = 0) :
    st'.work < st.work ∧ st'.copies = 0 := by
  have hconclude (records : List Record) (rest : List Step) (result : Result) (t : State) :
      (session.conclude records rest result t).work =
          total (fun step => step.work + 2) rest + t.heap.work ∧
        (session.conclude records rest result t).copies =
          total Step.copies rest + t.heap.copies := by
    have hheap : (session.record result true t).2.heap = t.heap := by
      unfold record
      dsimp only
      split <;> rfl
    exact ⟨congrArg (fun heap : Heap => _ + heap.work) hheap,
      congrArg (fun heap : Heap => _ + heap.copies) hheap⟩
  cases advances_of_next? h with
  | begins records rest t step =>
    have hnone : step.copies + total Step.copies rest + t.heap.copies = 0 := hnone
    constructor
    · show total (fun step => step.work + 2) rest + (step.work + 0 + t.heap.work + 1) <
        step.work + 2 + total (fun step => step.work + 2) rest + t.heap.work
      omega
    · show total Step.copies rest + (step.copies + 0 + t.heap.copies) = 0
      omega
  | @moves records rest m m' hm =>
    have hnone : total Step.copies rest + m.copies = 0 := hnone
    have hspends := Machine.next?_spends hm
    constructor
    · show total (fun step => step.work + 2) rest + (m'.work + 1) <
        total (fun step => step.work + 2) rest + (m.work + 1)
      rcases hspends with ⟨hwork, _⟩ | ⟨_, hcopies⟩ <;> omega
    · show total Step.copies rest + m'.copies = 0
      rcases hspends with ⟨_, hcopies⟩ | ⟨_, hcopies⟩ <;> omega
  | answers records rest t answer | fails records rest t cause =>
    have hnone : total Step.copies rest + (0 + 0 + t.heap.copies) = 0 := hnone
    rw [(hconclude _ _ _ _).1, (hconclude _ _ _ _).2]
    constructor
    · show _ < total (fun step => step.work + 2) rest + (0 + 0 + t.heap.work + 1)
      omega
    · omega

/-- The steps of the text and of the routines in it, repetitions counted. -/
def size (session : Session) : Nat :=
  (bodyErrands session.steps).countP (·.isStep)

theorem work_stage_zero (h : s.Fresh)
    (hsteps : ∀ step ∈ session.steps, step.every Step.onObjects = true) :
    (session.stage s 0).work ≤ 5 * session.size ∧ (session.stage s 0).copies = 0 := by
  have hheap : s.heap.work = 0 ∧ s.heap.copies = 0 := by
    rw [h.heap]
    exact ⟨rfl, rfl⟩
  have hbody (body : List Step) (hbody : ∀ step ∈ body, step.every Step.onObjects = true) :
      total (fun step => step.work + 2) body ≤ 5 * (bodyErrands body).countP (·.isStep) ∧
        total Step.copies body = 0 := by
    induction body with
    | nil => exact ⟨Nat.zero_le _, rfl⟩
    | cons step rest ih =>
      obtain ⟨hstep, hrest⟩ := List.forall_mem_cons.1 hbody
      obtain ⟨hwork, hcopies⟩ := ih hrest
      have hone := step.work_le hstep
      have hnone := step.copies_eq_zero hstep
      simp only [total_cons, bodyErrands, List.countP_cons, List.countP_append,
        Errand.isStep_perform, if_true]
      omega
  obtain ⟨hwork, hcopies⟩ := hbody session.steps hsteps
  constructor
  · show total (fun step => step.work + 2) session.steps + s.heap.work ≤ 5 * session.size
    unfold size
    omega
  · show total Step.copies session.steps + s.heap.copies = 0
    omega

theorem rest_or_work_le (h : s.Fresh)
    (hsteps : ∀ step ∈ session.steps, step.every Step.onObjects = true) (n : Nat) :
    session.next? (session.stage s n) = none ∨
      (session.stage s n).work + n ≤ 5 * session.size ∧ (session.stage s n).copies = 0 := by
  induction n with
  | zero => exact .inr (work_stage_zero h hsteps)
  | succ n ih =>
    cases hn : session.next? (session.stage s n) with
    | none =>
      rw [stage_succ_of_rest hn]
      exact .inl hn
    | some st =>
      rcases ih with ih | ⟨hwork, hcopies⟩
      · rw [ih] at hn
        cases hn
      · obtain ⟨hless, hnone⟩ := work_next? hn hcopies
        rw [stage_succ_of_next? hn]
        exact .inr ⟨by omega, hnone⟩

/-- **A session of object steps comes to rest.** -/
theorem rests (h : s.Fresh)
    (hsteps : ∀ step ∈ session.steps, step.every Step.onObjects = true) {n : Nat}
    (hn : 5 * session.size ≤ n) : session.next? (session.stage s n) = none := by
  rcases rest_or_work_le h hsteps n with hrest | ⟨hwork, hcopies⟩
  · exact hrest
  · cases hnext : session.next? (session.stage s n) with
    | none => rfl
    | some st =>
      have := (work_next? hnext hcopies).1
      omega

/-! ### What is told of routines -/

end Session

/-- The label of the routine that an event tells has been entered. -/
def Event.enteredLabel? : Event → Option String
  | .entered label _ _ => some label
  | _ => none

def Errand.enteredLabel? : Errand → Option String
  | .enter r => some r.label
  | _ => none

namespace Machine

variable {m : Machine} {o : ObjectId} {c : CellId} {cell : Cell}

theorem enters?_of_lastRelease (h : m.LastRelease o c cell) : m.enters? = cell.routine? := by
  unfold enters?
  rw [h.control]
  dsimp only
  rw [State.release_of_opens h.opens, h.last]
  rfl

theorem enters?_eq_none (h : ∀ o c cell, ¬ m.LastRelease o c cell) : m.enters? = none := by
  unfold enters?
  split
  · next o hcontrol =>
    obtain ⟨-, hnone⟩ : Shifts (fun _ => True) [] m.state.view _ ∧ _ :=
      State.shifts_release fun c cell hopens hlast => h o c cell ⟨hcontrol, hopens, hlast⟩
    split
    · next t finalizer u heq => exact absurd heq (hnone (t, finalizer) u)
    · rfl
  · rfl

/-- Of what a transition does only the entry into a routine is told. -/
theorem enteredLabels_doing (m : Machine) :
    m.doing.filterMap (·.enteredLabel?) = m.enters?.toList.map (·.label) := by
  unfold doing
  cases m.performs? <;> cases m.enters? <;> cases m.call? <;> rfl

end Machine

namespace Stage

variable {st st' : Stage}

theorem enteredLabels_doing_of_releases {o : ObjectId} {c : CellId} {cell : Cell}
    (h : st.Releases o c cell) :
    st.doing.filterMap (·.enteredLabel?) = cell.routine?.toList.map (·.label) := by
  obtain ⟨m, hposition, hlast⟩ := h
  rw [doing, hposition, m.enteredLabels_doing, Machine.enters?_of_lastRelease hlast]

theorem enteredLabels_doing_of_not_releases (h : ∀ o c cell, ¬ st.Releases o c cell) :
    st.doing.filterMap (·.enteredLabel?) = [] := by
  unfold doing
  cases hposition : st.position with
  | between t => rfl
  | during m =>
    dsimp only
    rw [m.enteredLabels_doing, Machine.enters?_eq_none fun o c cell hlast =>
      h o c cell ⟨m, hposition, hlast⟩]
    rfl

/-- A transition tells of the routine that it enters. -/
theorem enteredLabels_of_moves (hm : st.Moves st')
    (hsound : Sound st.view (teardowns st.stack)) :
    st'.events.filterMap (·.enteredLabel?) =
      st.events.filterMap (·.enteredLabel?) ++ st.doing.filterMap (·.enteredLabel?) := by
  have htold (st : Stage) : st.events.filterMap (·.enteredLabel?) =
      st.view.told.reverse.filterMap (·.enteredLabel?) := by
    show _ = ((st.events.filter (·.tellsRoutine)).reverse).reverse.filterMap _
    rw [List.reverse_reverse, List.filterMap_filter]
    refine List.filterMap_congr fun event _ => ?_
    cases event <;> rfl
  rw [htold st', htold st]
  cases hm with
  | shifts rs hshifts _ _ hother =>
    rw [enteredLabels_doing_of_not_releases hother, List.append_nil]
    refine hshifts.kept (P := fun v => v.told.reverse.filterMap (·.enteredLabel?) =
      st.view.told.reverse.filterMap (·.enteredLabel?)) (fun _ v w hs hv => ?_) rfl
    obtain ⟨new, hw, hdiscarded⟩ := hs.told_eq
    have hnone : new.reverse.filterMap (·.enteredLabel?) = [] := by
      rw [List.filterMap_eq_nil_iff]
      intro event hmem
      obtain ⟨label, rfl⟩ := hdiscarded event (List.mem_reverse.1 hmem)
      rfl
    rw [hw, List.reverse_append, List.filterMap_append, hnone, List.append_nil, hv]
  | begins o c cell hlast hview _ _ =>
    have hentered : (View.entered o cell.finalizer).reverse.filterMap (·.enteredLabel?) =
        cell.routine?.toList.map (·.label) := by
      unfold Cell.routine? View.entered
      cases cell.finalizer with
      | none => rfl
      | some finalizer => cases finalizer <;> rfl
    rw [enteredLabels_doing_of_releases hlast, hview, ← hentered, ← List.filterMap_append,
      ← List.reverse_append]
    rfl
  | finishes t hview hunder _ hother =>
    rw [hunder] at hsound
    rw [enteredLabels_doing_of_not_releases hother, hview, hsound.told_finish, List.append_nil]

end Stage

namespace Session

theorem enteredLabels_done (session : Session) (h : s.Fresh) (n : Nat) :
    (session.stage s n).events.filterMap (·.enteredLabel?) =
      (session.done s n).filterMap (·.enteredLabel?) := by
  induction n with
  | zero => rfl
  | succ n ih =>
    rw [Stage.enteredLabels_of_moves (session.moves_stage s n) (session.sound_stage h n), ih,
      done_succ, List.filterMap_append]

/-- A routine is taken out of its cell as it is entered. -/
theorem cell?_of_releases {n : Nat} {o : ObjectId} {c : CellId} {cell : Cell}
    (h : (session.stage s n).Releases o c cell) :
    (session.stage s (n + 1)).view.cell? c = some {locked := true} := by
  cases session.moves_stage s n with
  | shifts rs _ _ _ hother => exact absurd h (hother o c cell)
  | finishes t _ _ _ hother => exact absurd h (hother o c cell)
  | begins p d other hlast hview _ _ =>
    obtain ⟨m, hposition, hrelease⟩ := h
    obtain ⟨m', hposition', hother⟩ := hlast
    obtain rfl : m = m' := Position.during.inj (hposition.symm.trans hposition')
    obtain rfl : o = p := Control.release.inj (hrelease.control.symm.trans hother.control)
    obtain rfl : c = d := Option.some.inj (hrelease.opens.link.symm.trans hother.opens.link)
    have hfound : (session.stage s n).view.cell? c = some cell := by
      have hcell := hrelease.opens.found
      rwa [show m.state = (session.stage s n).state by simp [Stage.state, hposition]] at hcell
    rw [hview]
    exact View.cell?_begin_self hfound

/-- How a session of object steps ends. -/
structure ComesToRest (session : Session) (s : State) : Prop where
  /-- Nothing is done more often than it was written: of two routines, two steps or two calls that
  are done, each is one of its own in the text. -/
  done (n : Nat) : (session.done s n).Subperm (bodyErrands session.steps)
  /-- No more routines are run than there are in the text. -/
  routines (n : Nat) :
    (session.done s n).countP (·.isRoutine) ≤ (bodyErrands session.steps).countP (·.isRoutine)
  /-- The routines that are run are those that events tell of. -/
  told (n : Nat) : (session.stage s n).events.filterMap (·.enteredLabel?) =
    (session.done s n).filterMap (·.enteredLabel?)
  /-- A cell from which a last release has taken its finalizer has none at another one. -/
  once (i j : Nat) (earlier : i < j) (o p : ObjectId) (c : CellId) (cell other : Cell)
    (first : (session.stage s i).Releases o c cell)
    (second : (session.stage s j).Releases p c other) : other.finalizer = none
  /-- No more steps are performed and calls are made than the text has, repetitions counted. -/
  steps (n : Nat) : (session.done s n).countP (·.isStep) ≤ session.size
  rests (n : Nat) (late : 5 * session.size ≤ n) : session.next? (session.stage s n) = none
  /-- What the session comes to is what it has come to by then. -/
  comes : session.runFrom s session.steps = session.ending (session.stage s (5 * session.size))
  /-- It waits for no lock in the end, unless an operation meets a cell that is locked. -/
  free (unbarred : ∀ n c, (session.stage s n).locks? = some c →
      ¬ (session.stage s n).state.Locked c) :
    (session.runFrom s session.steps).2.1 ≠ .blocked

/-- **Every session of object steps ends**, however deep its finalizers reach. -/
theorem comesToRest (session : Session) {s : State} (h : s.Fresh)
    (hsteps : ∀ step ∈ session.steps, step.every Step.onObjects = true) :
    session.ComesToRest s where
  done n := session.subperm_done h n
  routines n := (session.subperm_done h n).countP_le _
  told n := session.enteredLabels_done h n
  once i j earlier o p c cell other first second := by
    have htaken := cell?_of_releases first
    obtain ⟨_, hfound, _⟩ := second.opens
    obtain ⟨before, hbefore, hspent⟩ :=
      (session.spends_stage s earlier).2 c other (View.lt_of_cell? htaken) hfound
    obtain rfl := Option.some.inj (htaken.symm.trans hbefore)
    exact hspent.elim id id
  steps n := (session.subperm_done h n).countP_le _
  rests _ late := rests h hsteps late
  comes := runFrom_of_rest (rests h hsteps (Nat.le_refl _))
  free unbarred hblocked := by
    obtain ⟨n, c, hlocks, hlocked⟩ := locked_of_blocked h hsteps hblocked
    exact unbarred n c hlocks hlocked

/-- Finalizers that create and release objects with finalizers, three deep, and catch a panic: all
of them have run, and no lock was in the way. -/
theorem comesToRest_nested :
    (nested.size = 18 ∧ (bodyErrands nested.steps).countP (·.isRoutine) = 3) ∧
      nested.next? (nested.stage .embedded 90) = none ∧
      (nested.done .embedded 90).countP (·.isRoutine) ≤ 3 ∧
      (nested.runFrom .embedded nested.steps).2.1 ≠ .blocked := by
  have h := nested.comesToRest State.fresh_embedded (by decide)
  have hsize : nested.size = 18 := by decide
  have hroutines : (bodyErrands nested.steps).countP (·.isRoutine) = 3 := by decide
  refine ⟨⟨hsize, hroutines⟩, h.rests 90 (by omega), hroutines ▸ h.routines 90,
    h.free fun n c hlocks ⟨cell, hcell, hlocked⟩ => ?_⟩
  have hearly : ∀ n < 40, ((nested.stage .embedded n).locks?.bind
      (nested.stage .embedded n).state.heap.cell?).all (!·.locked) = true := by
    decide +kernel
  have hrest : nested.next? (nested.stage .embedded 39) = none :=
    Option.isNone_iff_eq_none.1 (by decide +kernel)
  have hunlocked : ((nested.stage .embedded n).locks?.bind
      (nested.stage .embedded n).state.heap.cell?).all (!·.locked) = true := by
    rcases Nat.lt_or_ge n 39 with hlt | hge
    · exact hearly n (Nat.lt_succ_of_lt hlt)
    · obtain ⟨k, rfl⟩ := Nat.exists_eq_add_of_le hge
      rw [stage_add, after_of_rest hrest]
      exact hearly 39 (by decide)
  rw [hlocks, Option.bind_some, hcell] at hunlocked
  simp [hlocked] at hunlocked

end Session
end Custody
