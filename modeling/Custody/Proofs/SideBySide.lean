import Mathlib.Data.List.Forall2
import Custody.Proofs.Likeness
import Custody.Proofs.Refinement
import Custody.Proofs.Unwinding

/-! Two sessions of the same steps, side by side.

Like machines make like transitions (`Likeness.next?`), and so do like stages. Two runs from like
states stay alike forever, or until a fault stops the second one, which then stays where it is
(`Likeness.alike_or_stopped`). -/
namespace Custody

def Frame.recast (f : Cause → Cause) : Frame → Frame
  | .dropping rest cause => .dropping rest (cause.map f)
  | .cleaning cause => .cleaning (f cause)
  | frame => frame

def Control.recast (f : Cause → Cause) : Control → Control
  | .answer a => .answer (a.recast f)
  | .unwind cause => .unwind (f cause)
  | control => control

def Result.recast (f : Cause → Cause) : Result → Result
  | .answered answer => .answered (answer.recast f)
  | .failed cause => .failed (f cause)
  | .died => .died

theorem Frame.recast_id (frame : Frame) : frame.recast id = frame := by
  cases frame with
  | dropping rest cause => exact congrArg (Frame.dropping rest) Option.map_id_apply
  | _ => rfl

theorem Control.recast_id (control : Control) : control.recast id = control := by
  cases control with
  | answer answer => exact congrArg Control.answer answer.recast_id
  | _ => rfl

theorem Result.recast_id (result : Result) : result.recast id = result := by
  cases result with
  | answered answer => exact congrArg Result.answered answer.recast_id
  | _ => rfl

/-- What a fault leaves a machine with: the machine unwinds with the cause, gives back first what it
has taken so far, or is stopped where it would leave a foreign call. -/
inductive Machine.Struck (cause : Cause) : Machine → Prop where
  | unwinds (s : State) (stack : List Frame) : Struck cause ⟨s, .unwind cause, stack⟩
  | cleans (s : State) (stack : List Frame) (os : List ObjectId) :
    Struck cause (continueDropping none s (.cleaning cause :: stack) os)
  | stopped (s : State) (stack : List Frame) : Struck cause ⟨s, .halt .aborted, stack⟩

theorem State.counts_eq {s t : State} (h : t.heap = s.heap) (hnames : t.names = s.names) :
    t.counts = s.counts := by
  unfold State.counts
  rw [h, hnames]

theorem Session.runFrom_of_rest {session : Session} {s : State} {n : Nat}
    (hrest : session.next? (session.stage s n) = none) :
    session.runFrom s session.steps = session.ending (session.stage s n) := by
  obtain ⟨k, hk, hrun⟩ := session.exists_ending s
  rw [hrun, Session.stage_eq_of_rest hk hrest]

namespace Likeness

variable (K : Likeness)

def frames (stack : List Frame) : List Frame :=
  stack.map (Frame.recast K.cause)

/-- The same machine, but for what may differ. -/
inductive Machines : Machine → Machine → Prop where
  | alike (control : Control) (stack : List Frame) {s t : State} (h : K.States s t) :
    Machines ⟨s, control, stack⟩ ⟨t, control.recast K.cause, K.frames stack⟩

/-- What two transitions lead to: like machines, or a second one that has stopped. -/
inductive Moves : Machine → Machine → Prop where
  | alike (control : Control) (stack : List Frame) {s t : State} (h : K.States s t) :
    Moves ⟨s, control, stack⟩ ⟨t, control.recast K.cause, K.frames stack⟩
  | stopped {m : Machine} {t : State} {cause : Cause} (stack : List Frame) (hm : m.Struck cause)
    (h : K.stops cause m.state t) : Moves m ⟨t, .halt .aborted, stack⟩

variable {K} {s t : State}

theorem frames_guarded (via : Convention) (stack : List Frame) :
    K.frames (Machine.guarded via stack) = Machine.guarded via (K.frames stack) := by
  cases via <;> rfl

theorem moves_settle {out out' : Outcome Answer}
    (h : K.Outcomes (Answer.recast K.cause) out out') (stack : List Frame) :
    K.Moves (Machine.settle out stack) (Machine.settle out' (K.frames stack)) := by
  cases h with
  | returned answer h => exact .alike (.answer answer) stack h
  | unwound cause h => exact .alike (.unwind cause) stack h
  | halted halt h => exact .alike (.halt halt) stack h
  | outlived cause h => exact .stopped _ (.unwinds _ _) h
  | stopped cause h => exact .stopped _ (.stopped _ _) h

section Transitions

variable (hK : K.Lawful) (h : K.States s t) (stack : List Frame)
include hK h

/-! ### Calls -/

theorem moves_call (c : CountCall) (o : ObjectId) :
    K.Moves (Machine.call c o s stack) (Machine.call c o t (K.frames stack)) := by
  cases c with
  | retain => exact moves_settle ((retain hK h o).map fun _ => rfl) stack
  | release => exact .alike (.release o) stack h

theorem moves_callNamed (c : CountCall) (name : Option String) :
    K.Moves (Machine.callNamed c name s stack) (Machine.callNamed c name t (K.frames stack)) := by
  cases name with
  | none => exact moves_settle (hK.report _ h _) stack
  | some name =>
    unfold Machine.callNamed
    rw [h.names]
    dsimp only
    split
    · exact moves_call hK h stack c _
    · exact .alike (.halt .malformed) stack h

theorem moves_repeatCall (c : CountCall) (name : Option String) (via : Convention) (times : Nat) :
    K.Moves (Machine.repeatCall c name via s stack times)
      (Machine.repeatCall c name via t (K.frames stack) times) := by
  cases times with
  | zero => exact .alike (.answer .done) stack h
  | succ times =>
    have hcall := moves_callNamed hK h (Machine.guarded via (.repeating c name times via :: stack))
      c name
    rwa [frames_guarded] at hcall

theorem moves_runThreads (o : ObjectId) (waiting : List (List CountCall)) (ended : List Bool) :
    K.Moves (Machine.runThreads o s stack waiting ended)
      (Machine.runThreads o t (K.frames stack) waiting ended) := by
  induction waiting generalizing ended with
  | nil => exact .alike (.answer (.flags ended)) stack h
  | cons calls waiting ih =>
    cases calls with
    | nil => exact ih _
    | cons c rest => exact moves_call hK h (.thread rest o waiting ended :: stack) c o

/-! ### Finalizers -/

omit hK in
theorem moves_continueRoutine (label : String) (steps : List Step) :
    K.Moves (Machine.continueRoutine label s stack steps)
      (Machine.continueRoutine label t (K.frames stack) steps) := by
  cases steps with
  | nil => exact .alike (.answer .done) stack (h.observe rfl)
  | cons step rest => exact .alike (.perform step) (.routine label rest :: stack) h

omit hK in
theorem moves_continueDropping (cause : Option Cause) (os : List ObjectId) :
    K.Moves (Machine.continueDropping cause s stack os)
      (Machine.continueDropping (cause.map K.cause) t (K.frames stack) os) := by
  cases os with
  | nil =>
    cases cause with
    | none => exact .alike (.answer .done) stack h
    | some cause => exact .alike (.unwind cause) stack h
  | cons o rest => exact .alike (.release o) (.dropping rest cause :: stack) h

omit hK in
theorem moves_dropValue (o : ObjectId) :
    K.Moves (Machine.dropValue o s stack) (Machine.dropValue o t (K.frames stack)) := by
  unfold Machine.dropValue
  rw [h.heap]
  split
  · exact moves_continueDropping ((h.onHeap _).observe rfl) stack none _
  · exact .alike (.answer .done) stack (h.onHeap _)

omit hK in
theorem moves_finalize (teardown : Teardown) (finalizer : Option Finalizer) :
    K.Moves (Machine.finalize teardown finalizer s stack)
      (Machine.finalize teardown finalizer t (K.frames stack)) := by
  unfold Machine.finalize
  rw [h.heap]
  dsimp only
  split
  · exact .alike (.answer .done) (.teardown teardown :: stack) h
  · next r =>
    have hentered : K.States
        (s.observe (.entered r.label teardown.object
          ((s.heap.governing? teardown.object).map (·.locked))))
        (t.observe (.entered r.label teardown.object
          ((s.heap.governing? teardown.object).map (·.locked)))) := h.observe rfl
    have hroutine := moves_continueRoutine hentered
      (Machine.guarded r.convention (.teardown teardown :: stack)) r.label r.body
    rwa [frames_guarded] at hroutine
  · exact moves_dropValue h (.barrier :: .teardown teardown :: stack) teardown.object

theorem moves_release (o : ObjectId) :
    K.Moves (Machine.release o s stack) (Machine.release o t (K.frames stack)) := by
  have hrelease := release hK h o
  unfold Machine.release
  generalize s.release o = out at hrelease
  generalize t.release o = out' at hrelease
  cases hrelease with
  | returned begun h =>
    cases begun with
    | none => exact .alike (.answer .done) stack h
    | some begun => exact moves_finalize h stack begun.1 begun.2
  | unwound cause h => exact .alike (.unwind cause) stack h
  | halted halt h => exact .alike (.halt halt) stack h
  | outlived cause h => exact .stopped _ (.unwinds _ _) h
  | stopped cause h => exact .stopped _ (.stopped _ _) h

/-! ### Copy on write -/

omit hK in
theorem assigned (o : ObjectId) (literal : Literal) (fresh : Bool) :
    K.Outcomes (Answer.recast K.cause) (Machine.assigned o literal fresh s)
      (Machine.assigned o literal fresh t) :=
  givenState h (assign h o literal) fun _ _ h => .answered rfl h

theorem moves_copyOnWrite (handle : String) (o : ObjectId) (literal : Literal) :
    K.Moves (Machine.copyOnWrite handle o literal s stack)
      (Machine.copyOnWrite handle o literal t (K.frames stack)) := by
  unfold Machine.copyOnWrite
  rw [h.heap]
  split
  · exact .alike (.halt .malformed) stack h
  · next v _ =>
    obtain ⟨hretained, hretain⟩ := retainEach hK h v.children
    generalize s.retainEach v.children = before at hretained hretain
    generalize t.retainEach v.children = before' at hretained hretain
    obtain ⟨retained, out⟩ := before
    obtain ⟨_, out'⟩ := before'
    cases hretained
    cases hretain with
    | unwound cause h => exact moves_continueDropping h (.cleaning cause :: stack) none retained
    | halted halt h => exact .alike (.halt halt) stack h
    | outlived cause h =>
      refine .stopped _ (.cleans _ stack retained) ?_
      cases retained <;> exact h
    | stopped cause h => exact .stopped _ (.stopped _ _) h
    | returned result h =>
      have hhold := hold hK h v
      dsimp only
      generalize State.hold v _ = out at hhold
      generalize State.hold v _ = out' at hhold
      cases hhold with
      | returned fresh h =>
        exact .alike (.release o) (.assigning fresh literal :: stack) (h.onNames _)
      | unwound cause h => exact .alike (.unwind cause) stack h
      | halted halt h => exact .alike (.halt halt) stack h
      | outlived cause h => exact .stopped _ (.unwinds _ _) h
      | stopped cause h => exact .stopped _ (.stopped _ _) h

theorem moves_makeUnique (handle : String) (o : ObjectId) (literal : Literal) :
    K.Moves (Machine.makeUnique handle o literal s stack)
      (Machine.makeUnique handle o literal t (K.frames stack)) := by
  have hunique := isUnique hK h o
  unfold Machine.makeUnique
  generalize s.isUnique o = out at hunique
  generalize t.isUnique o = out' at hunique
  cases hunique with
  | returned unique h =>
    cases unique with
    | true => exact moves_settle (assigned h o literal false) stack
    | false => exact moves_copyOnWrite hK h stack handle o literal
  | unwound cause h => exact .alike (.unwind cause) stack h
  | halted halt h => exact .alike (.halt halt) stack h
  | outlived cause h => exact .stopped _ (.unwinds _ _) h
  | stopped cause h => exact .stopped _ (.stopped _ _) h

/-! ### Steps and frames -/

theorem moves_perform {step : Step} (hcovered : K.covers step = true) :
    K.Moves (Machine.perform s stack step) (Machine.perform t (K.frames stack) step) := by
  cases step with
  | allocate name size routine provider via =>
    refine moves_settle (Outcomes.through ?_ via) stack
    have hprovider : t.provider? provider = s.provider? provider := by
      unfold State.provider?
      rw [h.allocators, h.names]
    rw [hprovider]
    exact .given h fun provider => (allocate hK h provider size _ _).andThen fun o _ _ h =>
      .answered rfl (h.onNames _)
  | assemble name size routine =>
    have hassembled : K.Outcomes (Answer.recast K.cause)
        (Machine.created name (s.assemble size (routine.map .routine)).1
          (s.assemble size (routine.map .routine)).2)
        (Machine.created name (t.assemble size (routine.map .routine)).1
          (t.assemble size (routine.map .routine)).2) := by
      simp only [State.assemble, h.heap]
      exact .answered rfl ((h.withHeap _).onNames _)
    exact moves_settle hassembled stack
  | reinstall name routine =>
    refine moves_settle ?_ stack
    exact withObject h name fun o => .answered rfl (reinstall h o _)
  | newCell name routine =>
    unfold Machine.perform
    rw [h.heap]
    exact .alike (.answer .done) stack ((h.withHeap _).onNames _)
  | describe routine =>
    exact .alike (.answer (.text (Machine.finalizerText routine))) stack (h.discard _)
  | call c name times via => exact moves_repeatCall hK h stack c name via times
  | race name threads retains releases rounds =>
    unfold Machine.perform
    rw [h.names]
    dsimp only
    split
    · exact moves_runThreads hK h stack _ _ _
    · exact .alike (.halt .malformed) stack h
  | dropHandle handle =>
    unfold Machine.perform
    rw [h.names]
    dsimp only
    split
    · exact .alike (.release _) stack (h.onNames _)
    · exact .alike (.halt .malformed) stack h
  | makeUnique handle literal =>
    unfold Machine.perform
    rw [h.names]
    dsimp only
    split
    · exact moves_makeUnique hK h stack handle _ literal
    · exact .alike (.halt .malformed) stack h
  | attempt step => exact .alike (.perform step) (.attempt :: stack) h
  | act action => exact moves_settle (act hK h hcovered) stack

theorem moves_resume (answer : Answer) (frame : Frame) :
    K.Moves (Machine.resume answer s stack frame)
      (Machine.resume (answer.recast K.cause) t (K.frames stack) (frame.recast K.cause)) := by
  cases frame with
  | repeating c name times via => exact moves_repeatCall hK h stack c name via times
  | routine label rest =>
    have hstepped : K.States (s.observe (.stepped answer))
        (t.observe (.stepped (answer.recast K.cause))) :=
      {h with events := congrArg (Event.stepped (answer.recast K.cause) :: ·) h.events}
    exact moves_continueRoutine hstepped stack label rest
  | teardown teardown => exact .alike (.answer .done) stack (h.finish teardown)
  | barrier => exact .alike (.answer answer) stack h
  | attempt => exact .alike (.answer (.succeeded answer)) stack h
  | thread rest o waiting ended => exact moves_runThreads hK h stack o _ ended
  | dropping rest cause => exact moves_continueDropping h stack cause rest
  | cleaning cause => exact .alike (.unwind cause) stack h
  | assigning fresh literal => exact moves_settle (assigned h fresh literal true) stack

theorem moves_unwind (cause : Cause) (frame : Frame) :
    K.Moves (Machine.unwind cause s stack frame)
      (Machine.unwind (K.cause cause) t (K.frames stack) (frame.recast K.cause)) := by
  cases frame with
  | repeating _ _ _ _ | routine _ _ | assigning _ _ => exact .alike (.unwind cause) stack h
  | teardown teardown => exact .alike (.unwind cause) stack (h.finish teardown)
  | barrier | cleaning _ => exact .alike (.halt .aborted) stack h
  | attempt => exact .alike (.answer (.failed cause)) stack h
  | thread _ o waiting ended => exact moves_runThreads hK h stack o waiting _
  | dropping rest earlier =>
    cases earlier with
    | none => exact moves_continueDropping h stack (some cause) rest
    | some _ => exact .alike (.halt .aborted) stack h

omit h in
/-- **Like machines make like transitions.** -/
theorem next? {m m' : Machine} (hm : K.Machines m m')
    (hcovered : ∀ step, m.control = .perform step → K.covers step = true) :
    Option.Rel K.Moves m.next? m'.next? := by
  cases hm with
  | alike control stack h =>
    cases control with
    | perform step => exact .some (moves_perform hK h stack (hcovered step rfl))
    | release o => exact .some (moves_release hK h stack o)
    | halt halt => exact .none
    | answer answer =>
      cases stack with
      | nil => exact .none
      | cons frame stack => exact .some (moves_resume hK h stack answer frame)
    | unwind cause =>
      cases stack with
      | nil => exact .none
      | cons frame stack => exact .some (moves_unwind hK h stack cause frame)

end Transitions

/-! ### Stages -/

variable (K)

structure Records (r r' : Record) : Prop where
  result : r'.result = r.result.recast K.cause
  events : r'.events = r.events.map (Event.recast K.cause)
  lines : K.texts r.lines r'.lines
  counts : r'.counts = r.counts

inductive Positions : Position → Position → Prop where
  | between {s t : State} (h : K.States s t) : Positions (.between s) (.between t)
  | during {m m' : Machine} (h : K.Machines m m') : Positions (.during m) (.during m')

/-- The same stage, but for what may differ. -/
structure Stages (st st' : Stage) : Prop where
  records : List.Forall₂ K.Records st.records st'.records
  rest : st'.rest = st.rest
  position : K.Positions st.position st'.position

/-- The second session has stopped where the first one goes on. -/
structure Stopped (st st' : Stage) : Prop where
  records : List.Forall₂ K.Records st.records st'.records
  rest : st'.rest = st.rest
  position : ∃ m t stack cause, st.position = .during m ∧
    st'.position = .during ⟨t, .halt .aborted, stack⟩ ∧ m.Struck cause ∧ K.stops cause m.state t

/-- What two like sessions come to. -/
structure Endings (e e' : List Record × Exit × State) : Prop where
  records : List.Forall₂ K.Records e.1 e'.1
  exit : e'.2.1 = e.2.1
  state : K.States e.2.2 e'.2.2

variable {K} {session : Session} {st st' : Stage} {records records' : List Record}

theorem records_record (hK : K.Lawful) (session : Session) (result : Result) (counted : Bool)
    (h : K.States s t) :
    K.Records (session.record result counted s).1
      (session.record (result.recast K.cause) counted t).1 where
  result := rfl
  events := by
    unfold Session.record
    rw [h.events, List.map_reverse]
  lines := by
    unfold Session.record
    dsimp only
    split
    · exact hK.captured h.logger
    · exact hK.silent
  counts := by
    unfold Session.record
    rw [State.counts_eq h.heap h.names]

theorem conclude (hK : K.Lawful) (session : Session)
    (hrecords : List.Forall₂ K.Records records records') (rest : List Step) (result : Result)
    (h : K.States s t) :
    K.Stages (session.conclude records rest result s)
      (session.conclude records' rest (result.recast K.cause) t) where
  records := List.rel_append hrecords (.cons (records_record hK session result true h) .nil)
  rest := rfl
  position := by
    refine .between ?_
    unfold Session.record
    dsimp only
    split
    · exact {h with logger := hK.clear h.logger}
    · exact h

/-- **Like stages lead to like stages**, or to one where the second session has stopped. -/
theorem stages_next? (hK : K.Lawful) (h : K.Stages st st')
    (hcovered : ∀ m step, st.position = .during m → m.control = .perform step →
      K.covers step = true) :
    Option.Rel (fun a b => K.Stages a b ∨ K.Stopped a b) (session.next? st) (session.next? st') := by
  obtain ⟨records, rest, position⟩ := st
  obtain ⟨records', rest', position'⟩ := st'
  obtain ⟨hrecords, hrest, hposition⟩ := h
  cases hrest
  cases hposition with
  | between h =>
    cases rest with
    | nil => exact .none
    | cons step rest =>
      exact .some (.inl ⟨hrecords, rfl, .during (.alike (.perform step) [] h.fresh)⟩)
  | @during m m' hm =>
    have hnext := next? hK hm fun step => hcovered m step rfl
    simp only [Session.next?]
    generalize m.next? = moved at hnext
    generalize m'.next? = moved' at hnext
    cases hnext with
    | some hmoved =>
      cases hmoved with
      | alike control stack h => exact .some (.inl ⟨hrecords, rfl, .during (.alike control stack h)⟩)
      | stopped stack hm h =>
        exact .some (.inr ⟨hrecords, rfl, ⟨_, _, stack, _, rfl, rfl, hm, h⟩⟩)
    | none =>
      cases hm with
      | alike control stack h =>
        cases control with
        | answer answer => exact .some (.inl (conclude hK session hrecords rest (.answered answer) h))
        | unwind cause => exact .some (.inl (conclude hK session hrecords rest (.failed cause) h))
        | halt _ | perform _ | release _ => exact .none

theorem stopped_rest (h : K.Stopped st st') : session.next? st' = none := by
  obtain ⟨records, rest, position⟩ := st'
  obtain ⟨-, -, m, t, stack, cause, -, hposition, -⟩ := h
  cases hposition
  simp [Session.next?, Machine.next?]

/-- What is said of a session from two starting states. -/
structure Runs (K : Likeness) (session : Session) (s t : State) : Prop where
  lawful : K.Lawful
  covered : ∀ n m step, (session.stage s n).position = .during m → m.control = .perform step →
    K.covers step = true
  start : K.States s t

namespace Runs

variable (h : K.Runs session s t)
include h

/-- **Two sessions stay alike**, until a fault stops the second one for good. -/
theorem alike_or_stopped (n : Nat) : K.Stages (session.stage s n) (session.stage t n) ∨
    ∃ k < n, K.Stages (session.stage s k) (session.stage t k) ∧
      K.Stopped (session.stage s (k + 1)) (session.stage t (k + 1)) ∧
      session.stage t n = session.stage t (k + 1) := by
  induction n with
  | zero => exact .inl ⟨.nil, rfl, .between h.start⟩
  | succ n ih =>
    obtain hstages | ⟨k, hk, hstages, hstopped, heq⟩ := ih
    · have hnext : Option.Rel (fun a b => K.Stages a b ∨ K.Stopped a b)
          (session.next? (session.stage s n)) (session.next? (session.stage t n)) :=
        stages_next? h.lawful hstages (h.covered n)
      have hadvance := rel_getD hnext (.inl hstages)
      rw [← Session.stage_succ, ← Session.stage_succ] at hadvance
      obtain hadvance | hadvance := hadvance
      · exact .inl hadvance
      · exact .inr ⟨n, Nat.lt_succ_self n, hstages, hadvance, rfl⟩
    · refine .inr ⟨k, Nat.lt_succ_of_lt hk, hstages, hstopped, ?_⟩
      rw [Session.stage_succ_of_rest (heq ▸ stopped_rest hstopped), heq]

theorem alike_of_forall (hnever : ∀ cause s t, ¬ K.stops cause s t) (n : Nat) :
    K.Stages (session.stage s n) (session.stage t n) := by
  obtain hstages | ⟨k, -, -, hstopped, -⟩ := h.alike_or_stopped n
  · exact hstages
  · obtain ⟨m, t, -, cause, -, -, -, hstops⟩ := hstopped.position
    exact absurd hstops (hnever cause _ _)

end Runs

/-! ### The end of a session -/

theorem ending_of_stages (hK : K.Lawful) (session : Session) (h : K.Stages st st') :
    K.Endings (session.ending st) (session.ending st') := by
  obtain ⟨records, rest, position⟩ := st
  obtain ⟨records', rest', position'⟩ := st'
  obtain ⟨hrecords, hrest, hposition⟩ := h
  cases hposition with
  | between h => exact ⟨hrecords, rfl, h⟩
  | during hm =>
    cases hm with
    | @alike control stack s t h =>
      cases control with
      | perform _ | release _ | answer _ | unwind _ =>
        have hblocked : K.Endings (records, .blocked, s) (records', .blocked, t) :=
          ⟨hrecords, rfl, h⟩
        exact hblocked
      | halt halt =>
        have hended (hlast : List.Forall₂ K.Records (session.lastRecord halt s).toList
            (session.lastRecord halt t).toList) :
            K.Endings (records ++ (session.lastRecord halt s).toList, Session.exitOf halt, s)
              (records' ++ (session.lastRecord halt t).toList, Session.exitOf halt, t) :=
          ⟨List.rel_append hrecords hlast, rfl, h⟩
        refine hended ?_
        cases halt with
        | blocked | malformed => exact .nil
        | exited fault =>
          have hrecord := records_record hK session (.failed (.reported fault)) false h
          rw [Result.recast, hK.reported] at hrecord
          exact .cons hrecord .nil
        | aborted =>
          unfold Session.lastRecord
          rw [h.events, List.isEmpty_map]
          dsimp only
          split
          · exact .nil
          · exact .cons ⟨rfl, List.map_reverse.symm, hK.silent, rfl⟩ .nil

/-- Two runs that are alike where the first has come to rest come to the same. -/
theorem Runs.endings_of_rest (h : K.Runs session s t) {n : Nat}
    (hstages : K.Stages (session.stage s n) (session.stage t n))
    (hrest : session.next? (session.stage s n) = none) :
    K.Endings (session.runFrom s session.steps) (session.runFrom t session.steps) := by
  have hrest' := (eq_none_iff_of_rel (stages_next? h.lawful hstages (h.covered n))).1 hrest
  rw [Session.runFrom_of_rest hrest, Session.runFrom_of_rest hrest']
  exact ending_of_stages h.lawful session hstages

theorem Runs.endings (h : K.Runs session s t) (hnever : ∀ cause s t, ¬ K.stops cause s t) :
    K.Endings (session.runFrom s session.steps) (session.runFrom t session.steps) := by
  obtain ⟨n, hrest, -⟩ := session.exists_ending s
  exact h.endings_of_rest (h.alike_of_forall hnever n) hrest

end Likeness
end Custody
