import Custody.Machine.Rest
import Custody.Session

/-! A session, one transition at a time.

A stage is where a session stands: between two steps or during one, with the
records made so far and the steps to come. `stage` follows a session from stage to
stage, and what the session comes to is what can be read off the stage at which no
transition is left (`exists_ending`). What holds at every stage holds between steps
and at every point inside of every finalizer. -/
namespace Custody

inductive Position where
  | between (s : State)
  | during (m : Machine)

structure Stage where
  records : List Record
  rest : List Step
  position : Position

namespace Stage

def state (st : Stage) : State :=
  match st.position with
  | .between s => s
  | .during m => m.state

def stack (st : Stage) : List Frame :=
  match st.position with
  | .between _ => []
  | .during m => m.stack

/-- Everything observed so far, in order. -/
def events (st : Stage) : List Event :=
  st.records.flatMap (·.events) ++
    match st.position with
    | .between _ => []
    | .during m => m.state.events.reverse

end Stage

/-- A state in which there are no objects and no cells yet. -/
structure State.Fresh (s : State) : Prop where
  heap : s.heap = {}
  objects : s.names.objects = []
  cells : s.names.cells = []

theorem State.fresh_initial (memory : UInt64 → Bool) : (State.initial memory).Fresh :=
  ⟨rfl, rfl, rfl⟩

theorem State.fresh_embedded : State.embedded.Fresh :=
  ⟨rfl, rfl, rfl⟩

namespace Session

/-- The stage after a step that came to a result. -/
def conclude (session : Session) (records : List Record) (rest : List Step) (result : Result)
    (s : State) : Stage :=
  ⟨records ++ [(session.record result true s).1], rest,
    .between (session.record result true s).2⟩

/-- The next stage, if there is one. -/
def next? (session : Session) : Stage → Option Stage
  | ⟨_, [], .between _⟩ => none
  | ⟨records, step :: rest, .between s⟩ =>
    some ⟨records, rest, .during (.start step {s with events := []})⟩
  | ⟨records, rest, .during m⟩ =>
    match m.next? with
    | some m => some ⟨records, rest, .during m⟩
    | none =>
      match m.control with
      | .answer answer => some (session.conclude records rest (.answered answer) m.state)
      | .unwind cause => some (session.conclude records rest (.failed cause) m.state)
      | .halt _ | .perform _ | .release _ => none

/-- At most `n` transitions. -/
def after (session : Session) : Nat → Stage → Stage
  | 0, st => st
  | n + 1, st =>
    match session.next? st with
    | some st => session.after n st
    | none => st

/-- Where the session stands after `n` transitions from a state. -/
def stage (session : Session) (s : State) (n : Nat) : Stage :=
  session.after n ⟨[], session.steps, .between s⟩

/-- What a session comes to that stops at a stage. -/
def ending (session : Session) (st : Stage) : List Record × Exit × State :=
  match st.position with
  | .between s => (st.records, .finished, s)
  | .during m =>
    match m.control with
    | .halt halt => (st.records ++ (session.lastRecord halt m.state).toList, exitOf halt, m.state)
    | _ => (st.records, .blocked, m.state)

variable {session : Session} {s : State} {st st' : Stage}

/-! ### Following a session -/

theorem after_of_rest (h : session.next? st = none) (n : Nat) : session.after n st = st := by
  cases n with
  | zero => rfl
  | succ n => simp [after, h]

theorem after_add (m n : Nat) (st : Stage) :
    session.after (m + n) st = session.after n (session.after m st) := by
  induction m generalizing st with
  | zero => rw [Nat.zero_add]; rfl
  | succ m ih =>
    rw [Nat.succ_add]
    cases h : session.next? st with
    | none => simp [after_of_rest h]
    | some st' => simpa [after, h] using ih st'

theorem after_succ (n : Nat) (st : Stage) :
    session.after (n + 1) st = (session.next? (session.after n st)).getD (session.after n st) := by
  rw [after_add]
  cases h : session.next? (session.after n st) <;> simp [after, h]

theorem stage_add (s : State) (m n : Nat) :
    session.stage s (m + n) = session.after n (session.stage s m) :=
  after_add m n _

theorem stage_succ (s : State) (n : Nat) :
    session.stage s (n + 1) = (session.next? (session.stage s n)).getD (session.stage s n) :=
  after_succ n _

theorem stage_succ_of_next? {n : Nat} (h : session.next? (session.stage s n) = some st) :
    session.stage s (n + 1) = st := by
  rw [stage_succ, h, Option.getD_some]

theorem stage_succ_of_rest {n : Nat} (h : session.next? (session.stage s n) = none) :
    session.stage s (n + 1) = session.stage s n := by
  rw [stage_succ, h, Option.getD_none]

/-! ### The kinds of transition -/

/-- A session begins a step, lets the machine make a transition, or concludes a step. -/
inductive Advances (session : Session) : Stage → Stage → Prop where
  | begins (records : List Record) (rest : List Step) (s : State) (step : Step) :
    Advances session ⟨records, step :: rest, .between s⟩
      ⟨records, rest, .during (.start step {s with events := []})⟩
  | moves (records : List Record) (rest : List Step) {m m' : Machine} (h : m.next? = some m') :
    Advances session ⟨records, rest, .during m⟩ ⟨records, rest, .during m'⟩
  | answers (records : List Record) (rest : List Step) (s : State) (answer : Answer) :
    Advances session ⟨records, rest, .during ⟨s, .answer answer, []⟩⟩
      (session.conclude records rest (.answered answer) s)
  | fails (records : List Record) (rest : List Step) (s : State) (cause : Cause) :
    Advances session ⟨records, rest, .during ⟨s, .unwind cause, []⟩⟩
      (session.conclude records rest (.failed cause) s)

theorem advances_of_next? (h : session.next? st = some st') : Advances session st st' := by
  obtain ⟨records, rest, position⟩ := st
  cases position with
  | between s =>
    cases rest with
    | nil => cases h
    | cons step rest =>
      cases h
      exact .begins records rest s step
  | during m =>
    simp only [next?] at h
    split at h
    · next m' hm =>
      cases h
      exact .moves records rest hm
    · next hm =>
      obtain ⟨s, control, stack⟩ := m
      cases control with
      | perform step => cases hm
      | release o => cases hm
      | halt halt => cases h
      | answer answer =>
        cases stack with
        | nil => cases h; exact .answers records rest s answer
        | cons frame stack => cases hm
      | unwind cause =>
        cases stack with
        | nil => cases h; exact .fails records rest s cause
        | cons frame stack => cases hm

theorem next?_during {records : List Record} {rest : List Step} {m m' : Machine}
    (h : m.next? = some m') :
    session.next? ⟨records, rest, .during m⟩ = some ⟨records, rest, .during m'⟩ := by
  simp [next?, h]

/-! ### The end of a session -/

/-- A machine that a session waits for is seen to come to rest. -/
theorem exists_after_run (session : Session) (records : List Record) (rest : List Step) (m : Machine) :
    ∃ n, session.after n ⟨records, rest, .during m⟩ = ⟨records, rest, .during m.run⟩ := by
  unfold Machine.run
  generalize m.budget = fuel
  induction fuel generalizing m with
  | zero => exact ⟨0, rfl⟩
  | succ fuel ih =>
    cases hm : m.next? with
    | none => exact ⟨0, by rw [Machine.advance_of_rest hm]; rfl⟩
    | some m' =>
      obtain ⟨n, hn⟩ := ih m'
      refine ⟨n + 1, ?_⟩
      simpa only [after, next?_during hm, Machine.advance, hm] using hn

theorem exists_after_ending (session : Session) (records : List Record) (steps : List Step)
    (s : State) :
    ∃ n, session.next? (session.after n ⟨records, steps, .between s⟩) = none ∧
      session.ending (session.after n ⟨records, steps, .between s⟩) =
        (records ++ (session.runFrom s steps).1, (session.runFrom s steps).2) := by
  induction steps generalizing records s with
  | nil => exact ⟨0, rfl, by simp [after, ending, runFrom]⟩
  | cons step rest ih =>
    obtain ⟨k, hk⟩ := exists_after_run session records rest
      (.start step {s with events := []})
    have hreach : session.after (1 + k) ⟨records, step :: rest, .between s⟩ =
        ⟨records, rest, .during (runStep step s)⟩ := by
      rw [after_add]
      exact hk
    have hrest : (runStep step s).next? = none := Machine.run_rests _
    -- The step's last machine decides whether the session goes on.
    have hcontinue (result : Result)
        (hnext : session.next? ⟨records, rest, .during (runStep step s)⟩ =
          some (session.conclude records rest result (runStep step s).state))
        (hrun : session.runFrom s (step :: rest) =
          ((session.record result true (runStep step s).state).1 ::
              (session.runFrom (session.record result true (runStep step s).state).2 rest).1,
            (session.runFrom (session.record result true (runStep step s).state).2 rest).2)) :
        ∃ n, session.next? (session.after n ⟨records, step :: rest, .between s⟩) = none ∧
          session.ending (session.after n ⟨records, step :: rest, .between s⟩) =
            (records ++ (session.runFrom s (step :: rest)).1,
              (session.runFrom s (step :: rest)).2) := by
      obtain ⟨n, hnone, hending⟩ := ih
        (records ++ [(session.record result true (runStep step s).state).1])
        (session.record result true (runStep step s).state).2
      have hlast : session.after (1 + k + (1 + n)) ⟨records, step :: rest, .between s⟩ =
          session.after n (session.conclude records rest result (runStep step s).state) := by
        rw [after_add, hreach, after_add]
        simp only [after, hnext]
      refine ⟨1 + k + (1 + n), ?_, ?_⟩
      · rw [hlast]
        exact hnone
      · rw [hlast, hrun]
        simpa only [conclude, List.append_assoc, List.cons_append, List.nil_append] using hending
    cases hcontrol : (runStep step s).control with
    | answer answer =>
      refine hcontinue (.answered answer) ?_ ?_
      · simp only [next?, hrest, hcontrol]
      · simp only [runFrom, hcontrol]
    | unwind cause =>
      refine hcontinue (.failed cause) ?_ ?_
      · simp only [next?, hrest, hcontrol]
      · simp only [runFrom, hcontrol]
    | halt halt =>
      refine ⟨1 + k, ?_, ?_⟩
      · rw [hreach]
        simp only [next?, hrest, hcontrol]
      · rw [hreach]
        simp only [ending, runFrom, hcontrol]
    | perform step' =>
      have : (runStep step s).next? ≠ none := by simp [Machine.next?, hcontrol]
      contradiction
    | release o =>
      have : (runStep step s).next? ≠ none := by simp [Machine.next?, hcontrol]
      contradiction

/-- **A session comes to what its last stage says.** -/
theorem exists_ending (session : Session) (s : State) :
    ∃ n, session.next? (session.stage s n) = none ∧
      session.runFrom s session.steps = session.ending (session.stage s n) := by
  obtain ⟨n, hrest, hending⟩ := exists_after_ending session [] session.steps s
  exact ⟨n, hrest, hending.symm⟩

end Session
end Custody
