import Custody.Proofs.Exports

/-! Foreign calls and native ones: sessions.

A session that makes some of its calls through the exported functions runs like the one that makes
all of them natively, for as long as no call of an exported function unwinds there. The first one
that does stops the process instead, with the fault counted and logged as before, however many
attempts surround it (`Session.agreesWithNative`). A foreign call takes one transition more than a
native one, to leave the barrier that it stands behind, so the session is followed at its own pace
(`Session.paced`). -/
namespace Custody

/-! ### Records -/

inductive Result.Reads : Result → Result → Prop where
  | answered {answer answer' : Answer} (h : answer.Reads answer') :
    Reads (.answered answer) (.answered answer')
  | failed (cause : Cause) : Reads (.failed cause) (.failed cause)
  | died : Reads .died .died

/-- The same record, but for answers that foreign calls give as numbers. -/
structure Record.Reads (r r' : Record) : Prop where
  result : r.result.Reads r'.result
  events : List.Forall₂ Event.Reads r.events r'.events
  lines : r.lines = r'.lines
  counts : r.counts = r'.counts

inductive Position.Parallel : Position → Position → Prop where
  | between {s t : State} (h : s.Parallel t) : Parallel (.between s) (.between t)
  | during {m m' : Machine} (h : m.Parallel m') : Parallel (.during m) (.during m')

/-- The first stage is the second one after native calls. -/
structure Stage.Parallel (st st' : Stage) : Prop where
  records : List.Forall₂ Record.Reads st.records st'.records
  rest : st.rest = bodyNative st'.rest
  position : st.position.Parallel st'.position

/-- The process has stopped where the native one unwinds. -/
structure Stage.Aborted (st st' : Stage) : Prop where
  records : List.Forall₂ Record.Reads st.records st'.records
  stopped : ∃ t stack, st'.position = .during ⟨t, .halt .aborted, stack⟩ ∧ st.state.Parallel t

/-- What two sessions come to. -/
structure Endings (e e' : List Record × Exit × State) : Prop where
  records : List.Forall₂ Record.Reads e.1 e'.1
  exit : e.2.1 = e'.2.1
  state : e.2.2.Parallel e'.2.2

theorem State.Parallel.counts {s t : State} (h : s.Parallel t) : s.counts = t.counts := by
  have hcount (o : ObjectId) :
      (s.heap.governing? o).map (·.count) = (t.heap.governing? o).map (·.count) := by
    rw [h.heap, Heap.governing?_native, Option.map_map]
    rfl
  unfold State.counts
  simp only [hcount, h.names]

namespace Stage

/-- How many transitions go with one native one. -/
def pace (st : Stage) : Nat :=
  match st.position with
  | .between _ => 1
  | .during m => if m.returns then 2 else 1

/-- A call that is made through an export next unwinds in the native session. -/
def escapes (st st' : Stage) : Bool :=
  match st.position, st'.position with
  | .during m, .during m' => m'.exports && m.next?.any (·.unwinds)
  | _, _ => false

end Stage

namespace Session

/-- The same session with every call made natively. -/
def native (session : Session) : Session :=
  {session with steps := bodyNative session.steps}

/-- Where a session has got to when the native one has made `n` transitions. -/
def paced (session : Session) (s : State) : Nat → Nat
  | 0 => 0
  | n + 1 => session.paced s n + (session.stage s (session.paced s n)).pace

/-- The native session's next transition unwinds out of a call that is made through an export. -/
def escapes (session : Session) (s : State) (n : Nat) : Bool :=
  (session.native.stage s n).escapes (session.stage s (session.paced s n))

variable {session : Session} {s t : State} {n : Nat} {st st' : Stage}
  {records records' : List Record}

theorem reads_record (session : Session) {result result' : Result} (hresult : result.Reads result')
    (counted : Bool) (h : s.Parallel t) :
    (session.native.record result counted s).1.Reads (session.record result' counted t).1 where
  result := hresult
  events := List.rel_reverse h.events
  lines := by
    unfold record native
    rw [h.logger]
  counts := by
    unfold record native
    rw [h.counts]

theorem parallel_conclude (session : Session)
    (hrecords : List.Forall₂ Record.Reads records records') (rest : List Step)
    {result result' : Result} (hresult : result.Reads result') (h : s.Parallel t) :
    (session.native.conclude records (bodyNative rest) result s).Parallel
      (session.conclude records' rest result' t) where
  records := List.rel_append hrecords (.cons (reads_record session hresult true h) .nil)
  rest := rfl
  position := by
    refine .between ?_
    unfold record native
    dsimp only
    split
    · exact {h with logger := congrArg Log.Logger.clearCaptured h.logger}
    · exact h

/-- **A native transition is kept pace with**, unless a call through an export unwinds. -/
theorem follows_stage (session : Session) (h : st.Parallel st')
    (hportable : ∀ m step, st'.position = .during m → m.control = .perform step →
      step.portable = true) :
    (st.escapes st' = false ∧
        ((session.native.next? st).getD st).Parallel (session.after st'.pace st')) ∨
      (st.escapes st' = true ∧
        ((session.native.next? st).getD st).Aborted (session.after st'.pace st')) := by
  obtain ⟨records, rest, position⟩ := st
  obtain ⟨records', rest', position'⟩ := st'
  obtain ⟨hrecords, hrest, hposition⟩ := h
  cases hrest
  cases hposition with
  | between h =>
    refine .inl ⟨rfl, ?_⟩
    cases rest' with
    | nil => exact ⟨hrecords, rfl, .between h⟩
    | cons step rest' =>
      exact ⟨hrecords, rfl, .during ⟨h.fresh, .perform step, .nil⟩⟩
  | @during m m' hm =>
    cases hreturns : m'.returns with
    | true =>
      obtain ⟨n, m'', n', hn, hm'', hn', hparallel⟩ := Machine.parallel_returning hm hreturns
      have hpace : (Stage.mk records' rest' (.during m')).pace = 2 := by
        simp [Stage.pace, hreturns]
      refine .inl ⟨?_, ?_⟩
      · simp [Stage.escapes, Machine.not_exports_of_returns hreturns]
      · rw [hpace, next?_during hn]
        simp only [after, next?_during hm'', next?_during hn']
        exact ⟨hrecords, rfl, .during hparallel⟩
    | false =>
      have hpace : (Stage.mk records' rest' (.during m')).pace = 1 := by
        simp [Stage.pace, hreturns]
      have hnext := Machine.follows_next? hm hreturns fun step => hportable m' step rfl
      rw [hpace]
      generalize hmoved : m.next? = moved at hnext
      generalize hmoved' : m'.next? = moved' at hnext
      cases hnext with
      | some hfollows =>
        rw [next?_during hmoved]
        simp only [after, next?_during hmoved', Stage.escapes, hmoved, Option.any_some]
        cases hfollows with
        | along contained h => exact .inl ⟨contained, hrecords, rfl, .during h⟩
        | aborts escapes stack h => exact .inr ⟨escapes, hrecords, _, stack, rfl, h⟩
      | none =>
        refine .inl ⟨by simp [Stage.escapes, hmoved], ?_⟩
        obtain ⟨s, control, stack⟩ := m
        obtain ⟨t, control', stack'⟩ := m'
        obtain ⟨hstate, hcontrol, hstack⟩ := hm
        simp only [after, next?, hmoved, hmoved']
        cases hcontrol with
        | answer hread => exact parallel_conclude session hrecords rest' (.answered hread) hstate
        | unwind cause => exact parallel_conclude session hrecords rest' (.failed cause) hstate
        | halt halt => exact ⟨hrecords, rfl, .during ⟨hstate, .halt halt, hstack⟩⟩
        | perform step => cases hmoved
        | release o => cases hmoved

/-! ### The end of a session -/

theorem rest_of_parallel (h : st.Parallel st') (hrest : session.native.next? st = none) :
    session.next? st' = none := by
  obtain ⟨records, rest, position⟩ := st
  obtain ⟨records', rest', position'⟩ := st'
  obtain ⟨-, hsteps, hposition⟩ := h
  cases hsteps
  cases hposition with
  | between h =>
    cases rest' with
    | nil => rfl
    | cons step rest' => cases hrest
  | @during m m' hm =>
    have hnone : m.next? = none := by
      cases hmoved : m.next? with
      | none => rfl
      | some n =>
        rw [next?_during hmoved] at hrest
        cases hrest
    obtain ⟨s, control, stack⟩ := m
    obtain ⟨t, control', stack'⟩ := m'
    obtain ⟨-, hcontrol, -⟩ := hm
    simp only [next?, hnone] at hrest
    cases hcontrol with
    | halt halt => simp [next?, Machine.next?]
    | answer hread => cases hrest
    | unwind cause => cases hrest
    | perform step => cases hnone
    | release o => cases hnone

theorem reads_lastRecord (session : Session) (halt : Halt) (h : s.Parallel t) :
    List.Forall₂ Record.Reads (session.native.lastRecord halt s).toList
      (session.lastRecord halt t).toList := by
  cases halt with
  | blocked | malformed => exact .nil
  | exited fault => exact .cons (reads_record session (.failed _) false h) .nil
  | aborted =>
    have hempty : s.events.isEmpty = t.events.isEmpty := by
      have hevents := h.events
      generalize s.events = events at hevents
      generalize t.events = events' at hevents
      cases hevents <;> rfl
    unfold lastRecord
    rw [hempty]
    dsimp only
    split
    · exact .nil
    · exact .cons ⟨.died, List.rel_reverse h.events, rfl, rfl⟩ .nil

theorem endings_of_parallel (session : Session) (h : st.Parallel st') :
    Endings (session.native.ending st) (session.ending st') := by
  obtain ⟨records, rest, position⟩ := st
  obtain ⟨records', rest', position'⟩ := st'
  obtain ⟨hrecords, -, hposition⟩ := h
  cases hposition with
  | between h => exact ⟨hrecords, rfl, h⟩
  | @during m m' hm =>
    obtain ⟨s, control, stack⟩ := m
    obtain ⟨t, control', stack'⟩ := m'
    obtain ⟨hstate, hcontrol, -⟩ := hm
    have hblocked : Endings (records, .blocked, s) (records', .blocked, t) :=
      ⟨hrecords, rfl, hstate⟩
    cases hcontrol with
    | halt halt =>
      have hended : Endings
          (records ++ (session.native.lastRecord halt s).toList, exitOf halt, s)
          (records' ++ (session.lastRecord halt t).toList, exitOf halt, t) :=
        ⟨List.rel_append hrecords (reads_lastRecord session halt hstate), rfl, hstate⟩
      exact hended
    | _ => exact hblocked

/-! ### Running -/

section Runs

variable (h : s.Fresh) (hsteps : ∀ step ∈ session.steps, step.every Step.portable = true)
include h hsteps

theorem parallel_stage {n : Nat} (contained : ∀ k < n, session.escapes s k = false) :
    (session.native.stage s n).Parallel (session.stage s (session.paced s n)) := by
  induction n with
  | zero =>
    have hstart : s.Parallel s := by
      refine ⟨?_, rfl, rfl, rfl, rfl, rfl, rfl, rfl, List.forall₂_same.2 fun _ _ => .same _⟩
      rw [h.heap]
      rfl
    exact ⟨.nil, rfl, .between hstart⟩
  | succ n ih =>
    have hn := ih fun k hk => contained k (Nat.lt_succ_of_lt hk)
    rw [stage_succ, paced, stage_add]
    obtain ⟨-, hparallel⟩ | ⟨hescapes, -⟩ := session.follows_stage hn
      fun m step hd hm => performs_every h hsteps hd hm
    · exact hparallel
    · exact absurd (hescapes.symm.trans (contained n (Nat.lt_succ_self n))) (by decide)

theorem aborted_stage {n : Nat} (contained : ∀ k < n, session.escapes s k = false)
    (escapes : session.escapes s n = true) :
    (session.native.stage s (n + 1)).Aborted (session.stage s (session.paced s (n + 1))) := by
  have hn := parallel_stage h hsteps contained
  rw [stage_succ, paced, stage_add]
  obtain ⟨hcontained, -⟩ | ⟨-, haborted⟩ := session.follows_stage hn
    fun m step hd hm => performs_every h hsteps hd hm
  · exact absurd (escapes.symm.trans hcontained) (by decide)
  · exact haborted

end Runs

/-- How a session that makes some of its calls through exports compares with the one that makes
all of them natively. -/
structure AgreesWithNative (session : Session) (s : State) : Prop where
  /-- The two stand at the same point after every native transition, inside of finalizers too. -/
  follows (n : Nat) (contained : ∀ k < n, session.escapes s k = false) :
    (session.native.stage s n).Parallel (session.stage s (session.paced s n))
  /-- They come to the same, if no call that is made through an export unwinds natively. -/
  ends (contained : ∀ n, session.escapes s n = false) :
    Endings (session.native.runFrom s session.native.steps) (session.runFrom s session.steps)
  /-- The first one that does is the end of the process, in the state that the native session
  unwinds in, and with no record but those of the steps before. -/
  aborts (n : Nat) (contained : ∀ k < n, session.escapes s k = false)
    (escapes : session.escapes s n = true) : ∃ records t,
      session.runFrom s session.steps =
        (records ++ (session.lastRecord .aborted t).toList, .aborted, t) ∧
      List.Forall₂ Record.Reads (session.native.stage s (n + 1)).records records ∧
      (session.native.stage s (n + 1)).state.Parallel t
  /-- Whatever the process stands in the middle of, an export that is handed null notes the fault
  under its own name and does not come back. -/
  null (e : InstanceExport) (t : State) (stack : List Frame) : ∃ rest,
    (Machine.mk t (.perform (e.call none)) stack).run =
      ⟨t.noted (.nullInstance e.name), .halt (t.lastHalt (.nullInstance e.name)), rest⟩

/-- **Calls through exports agree with native ones**, in every session that makes nothing else. -/
theorem agreesWithNative (h : s.Fresh)
    (hsteps : ∀ step ∈ session.steps, step.every Step.portable = true) :
    session.AgreesWithNative s where
  follows n contained := parallel_stage h hsteps contained
  ends contained := by
    obtain ⟨n, hrest, hrun⟩ := session.native.exists_ending s
    have hparallel := parallel_stage h hsteps (n := n) fun k _ => contained k
    rw [hrun, runFrom_of_rest (rest_of_parallel hparallel hrest)]
    exact endings_of_parallel session hparallel
  aborts n contained escapes := by
    obtain ⟨hrecords, t, stack, hposition, hstate⟩ := aborted_stage h hsteps contained escapes
    have hrest : session.next? (session.stage s (session.paced s (n + 1))) = none := by
      generalize session.stage s (session.paced s (n + 1)) = st at hposition
      obtain ⟨records, rest, position⟩ := st
      cases hposition
      simp [next?, Machine.next?]
    refine ⟨_, t, ?_, hrecords, hstate⟩
    rw [runFrom_of_rest hrest, ending, hposition]
    rfl
  null e t stack := e.run_null t stack

/-- An object whose finalizer asks about another one and releases it, both through exports. In the
end the first one is released once too often, and something waits to catch that. -/
def crossing : Session where
  steps :=
    [.allocate "inner" 8 none none .foreign,
      .call .retain (some "inner") 2 .native,
      .allocate "outer" 8 (some ⟨.foreign, "outer",
        [.act (.object (.isUnique (some "inner") .foreign)),
          .call .release (some "inner") 1 .foreign]⟩) none .native,
      .call .retain (some "outer") 1 .foreign,
      .call .release (some "outer") 1 .foreign,
      .act (.object (.isUnique (some "inner") .foreign)),
      .attempt (.call .release (some "outer") 1 .foreign),
      .act (.object (.count (some "inner") .native))]

/-- The two stand at the same point inside of the finalizer, and the last release stops the process
with one fault counted, where natively it is caught. -/
theorem agreesWithNative_crossing :
    (crossing.native.stage .embedded 22).Parallel (crossing.stage .embedded 23) ∧
      (∃ records t, crossing.runFrom .embedded crossing.steps = (records, .aborted, t) ∧
        t.faults.count = 1 ∧ t.counts = [("outer", none), ("inner", some 1)]) ∧
      (crossing.native.stage .embedded 37).state.faults.count = 1 := by
  have h := crossing.agreesWithNative State.fresh_embedded (by decide)
  refine ⟨h.follows 22 (by decide), ?_, by decide⟩
  obtain ⟨records, t, hrun, -, hstate⟩ := h.aborts 35 (by decide) (by decide)
  refine ⟨_, t, hrun, ?_, ?_⟩
  · rw [← hstate.faults]
    decide
  · rw [← hstate.counts]
    decide

end Session
end Custody
