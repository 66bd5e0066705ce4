import Custody.Proofs.SideBySide
import Custody.Proofs.Writing

/-! The reporter decides how a fault ends, and nothing else.

Two sessions of steps that do not ask who handles faults are set side by side with one that unwinds
by policy. Where a reporter unwinds instead, everything is the same but for the form of the cause
and the entries that the reporter does not write. Where the policy is to abort, everything is the
same up to the entry of the first fault, and nothing comes after it. -/
namespace Custody

/-- Steps that neither read nor change the policy, the reporter or the configuration and do not
read captured lines. -/
def Step.unconcerned : Step → Bool
  | .act (.setting .policy) => false
  | .act (.setting (.setPolicy _)) => false
  | .act (.setting (.setReporter _)) => false
  | .act (.setting (.configure _)) => false
  | .act (.setting (.configureFromEnvironment _)) => false
  | .act (.setting .configuration) => false
  | .act (.log .takeCaptured) => false
  | _ => true

namespace State

/-- The same state under a policy and without a reporter. -/
def under (policy : Policy) (s : State) : State :=
  {s with faults := {s.faults with policy, reporter := none}}

/-- The same state under a reporter that unwinds. -/
def reporting (s : State) : State :=
  {s with faults := {s.faults with reporter := some .unwinding}}

end State

namespace Likeness

/-! ### Loggers with the same settings -/

/-- Loggers that are alike have the same settings, however they are set. -/
structure SameSettings (K : Likeness) : Prop where
  level {l l' : Log.Logger} (h : K.logger l l') : l'.level = l.level
  format {l l' : Log.Logger} (h : K.logger l l') : l'.format = l.format
  setLevel {l l' : Log.Logger} (level : Log.Level) (h : K.logger l l') :
    K.logger {l with level} {l' with level}
  setFormat {l l' : Log.Logger} (format : Log.Format) (h : K.logger l l') :
    K.logger {l with format} {l' with format}
  setSink {l l' : Log.Logger} (sink : Log.Sink) (h : K.logger l l') :
    K.logger {l with sink} {l' with sink}
  emit {l l' : Log.Logger} (entry : Log.Entry) (h : K.logger l l') :
    K.logger (l.emit entry) (l'.emit entry)

/-- Steps on the logger end alike, unless they show what was captured. -/
theorem SameSettings.act {K : Likeness} (hK : K.SameSettings) {s t : State} (h : K.States s t)
    {action : Action} (hspecial : action.special = true)
    (hunconcerned : (Step.act action).unconcerned = true) :
    K.Outcomes (Answer.recast K.cause) (Machine.act s action) (Machine.act t action) := by
  cases action with
  | object _ | handle _ | panic _ => cases hspecial
  | setting action =>
    cases action with
    | policy | setPolicy _ | setReporter _ | configure _ | configureFromEnvironment _
      | configuration => cases hunconcerned
    | _ => cases hspecial
  | log action =>
    cases action with
    | takeCaptured => cases hunconcerned
    | state =>
      unfold Machine.act State.performLog
      rw [hK.level h.logger, hK.format h.logger]
      exact .answered rfl h
    | wouldLog level =>
      unfold Machine.act State.performLog Log.Logger.wouldLog
      rw [hK.level h.logger]
      exact .answered rfl h
    | setLevel level => exact .answered rfl {h with logger := hK.setLevel level h.logger}
    | setFormat format => exact .answered rfl {h with logger := hK.setFormat format h.logger}
    | setSink sink => exact .answered rfl {h with logger := hK.setSink sink h.logger}
    | emit entry => exact .answered rfl {h with logger := hK.emit entry h.logger}

end Likeness

/-! ### A reporter that unwinds -/

/-- The cause of an unwinding where the reporter passes faults on. -/
def Cause.passedOn : Cause → Cause
  | .fault f => .reported f
  | cause => cause

namespace Log

/-- The same lines without some that report a fault. -/
inductive Thins : List Line → List Line → Prop where
  | nil : Thins [] []
  | keep (line : Line) {l l' : List Line} (h : Thins l l') : Thins (line :: l) (line :: l')
  | drop (format : Format) (fault : Fault) {l l' : List Line} (h : Thins l l') :
    Thins (⟨format, fault.entry⟩ :: l) l'

theorem Thins.refl (l : List Line) : Thins l l := by
  induction l with
  | nil => exact .nil
  | cons line l ih => exact .keep line ih

namespace Logger

/-- A logger that was not told of every fault. -/
structure Misses (l l' : Logger) : Prop where
  level : l'.level = l.level
  format : l'.format = l.format
  sink : l'.sink = l.sink
  captured : Thins l.captured l'.captured
  outputLines : Thins l.outputLines l'.outputLines
  errorLines : Thins l.errorLines l'.errorLines

theorem Misses.refl (l : Logger) : l.Misses l :=
  ⟨rfl, rfl, rfl, .refl _, .refl _, .refl _⟩

theorem Misses.put {l l' : Logger} (h : l.Misses l') (line : Line) :
    (l.put line).Misses (l'.put line) := by
  unfold Logger.put
  rw [h.sink]
  split
  · exact {h with sink := rfl, errorLines := .keep line h.errorLines}
  · exact {h with sink := rfl, outputLines := .keep line h.outputLines}
  · exact {h with sink := rfl, captured := .keep line h.captured}

theorem Misses.emit {l l' : Logger} (h : l.Misses l') (entry : Entry) :
    (l.emit entry).Misses (l'.emit entry) := by
  have hpasses : l'.wouldLog entry.level = l.wouldLog entry.level := by
    unfold wouldLog
    rw [h.level]
  unfold Logger.emit
  rw [hpasses, h.format]
  split
  · exact h.put _
  · exact h

/-- An entry that only the first logger is told of. -/
theorem Misses.miss {l l' : Logger} (h : l.Misses l') (fault : Fault) :
    (l.emit fault.entry).Misses l' := by
  unfold Logger.emit
  split
  · unfold Logger.put
    split
    · exact {h with errorLines := .drop _ fault h.errorLines}
    · exact {h with outputLines := .drop _ fault h.outputLines}
    · exact {h with captured := .drop _ fault h.captured}
  · exact h

end Logger
end Log

/-- A run whose faults unwind by policy, and one whose reporter unwinds. -/
def passingOn : Likeness where
  cause := Cause.passedOn
  logger := Log.Logger.Misses
  faults f f' := (f.policy = .panic ∧ f.reporter = none) ∧ f'.reporter = some .unwinding ∧
    f'.count = f.count
  texts a b := ∃ l l', Log.Thins l l' ∧ a = (l.map Log.Line.text).reverse ∧
    b = (l'.map Log.Line.text).reverse
  stops _ _ _ := False
  covers := Step.unconcerned

theorem passingOn_sameSettings : passingOn.SameSettings where
  level h := h.level
  format h := h.format
  setLevel _ h := {h with level := rfl}
  setFormat _ h := {h with format := rfl}
  setSink _ h := {h with sink := rfl}
  emit entry h := h.emit entry

theorem passingOn_lawful : passingOn.Lawful where
  panic _ := rfl
  reported _ := rfl
  emit entry h := h.emit entry
  clear h := {h with captured := .nil}
  captured h := ⟨_, _, h.captured, rfl, rfl⟩
  silent := ⟨[], [], .nil, rfl, rfl⟩
  count h := h.2.2
  report {s t} fault h α f := by
    obtain ⟨⟨hpolicy, hreporter⟩, hreporter', hcount⟩ := h.faults
    simp only [State.report, hpolicy, hreporter, hreporter']
    exact .unwound (.fault fault)
      {h with
        logger := h.logger.miss fault
        faults := ⟨⟨rfl, rfl⟩, rfl, congrArg (· + 1) hcount⟩}
  discard _ h := h.elim
  act hspecial hcovered h := passingOn_sameSettings.act h hspecial hcovered

/-! ### A policy that aborts -/

/-- Where a fault that the first run lives through stops the second one: all is as it is after the
line of the fault. What the first run still throws away as it goes on, the second does not. -/
structure State.Cut (n : UInt64) (fault : Fault) (s t : State) : Prop where
  heap : t.heap = s.heap
  statistics : t.statistics = s.statistics
  allocators : t.allocators = s.allocators
  environment : t.environment = s.environment
  configuration : t.configuration = s.configuration
  names : t.names = s.names
  logger : t.logger = s.logger
  /-- The line that was written last tells of the fault, unless the logger is off. -/
  told : t.logger.level ≠ .off →
    ∃ entry before, fault.ToldBy entry ∧ t.logger.written = ⟨t.logger.format, entry⟩ :: before
  faults : s.faults = ⟨.panic, none, n + 1⟩
  faults' : t.faults = ⟨.abort, none, n + 1⟩
  events : ∃ thrown, s.events = thrown ++ t.events ∧
    ∀ event ∈ thrown, ∃ label, event = .discarded label

/-- A run whose faults unwind by policy, and one whose first fault aborts. -/
def cuttingOff (n : UInt64) : Likeness where
  cause := id
  logger := Eq
  faults f f' := f = ⟨.panic, none, n⟩ ∧ f' = ⟨.abort, none, n⟩
  texts := Eq
  stops cause s t := ∃ fault, cause = .fault fault ∧ s.Cut n fault t
  covers := Step.unconcerned

theorem map_recast_id {n : UInt64} (events : List Event) :
    events.map (Event.recast (cuttingOff n).cause) = events :=
  Event.map_recast_id events

theorem State.Cut.discard {n : UInt64} {fault : Fault} {s t : State} (h : s.Cut n fault t)
    (finalizer : Option Finalizer) : (s.discard finalizer).Cut n fault t := by
  unfold State.discard
  split
  · next label _ =>
    obtain ⟨thrown, hevents, hthrown⟩ := h.events
    refine {h with events := ⟨.discarded label :: thrown, ?_, ?_⟩}
    · rw [State.observe, hevents, List.cons_append]
    · exact List.forall_mem_cons.2 ⟨⟨label, rfl⟩, hthrown⟩
  · exact h

theorem cuttingOff_sameSettings (n : UInt64) : (cuttingOff n).SameSettings where
  level h := by rw [h]
  format h := by rw [h]
  setLevel _ h := by
    cases (show _ = _ from h)
    rfl
  setFormat _ h := by
    cases (show _ = _ from h)
    rfl
  setSink _ h := by
    cases (show _ = _ from h)
    rfl
  emit entry h := congrArg (Log.Logger.emit entry) h

theorem cuttingOff_lawful (n : UInt64) : (cuttingOff n).Lawful where
  panic _ := rfl
  reported _ := rfl
  emit _ h := congrArg _ h
  clear h := congrArg _ h
  captured h := congrArg _ h
  silent := rfl
  count h := by rw [h.1, h.2]
  report {s t} fault h α f := by
    obtain ⟨hfaults, hfaults'⟩ := h.faults
    simp only [State.report, hfaults, hfaults']
    refine .outlived (.fault fault) ⟨fault, rfl, ?_⟩
    have hlogger : t.logger = s.logger := (show s.logger = t.logger from h.logger).symm
    have hevents : t.events = s.events := h.events.trans (map_recast_id s.events)
    exact {
      heap := h.heap
      statistics := h.statistics
      allocators := h.allocators
      environment := h.environment
      configuration := h.configuration
      names := h.names
      logger := congrArg (Log.Logger.emit fault.entry) hlogger
      told := fun hlevel => ⟨fault.entry, _, fault.toldBy_entry, Log.Logger.written_told fault _ hlevel⟩
      faults := rfl
      faults' := rfl
      events := ⟨[], hevents.symm, nofun⟩ }
  discard finalizer h := by
    obtain ⟨fault, hcause, hcut⟩ := h
    exact ⟨fault, hcause, hcut.discard finalizer⟩
  act hspecial hcovered h := (cuttingOff_sameSettings n).act h hspecial hcovered

/-! ### Up to the first fault -/

def Position.under (policy : Policy) : Position → Position
  | .between s => .between (s.under policy)
  | .during m => .during {m with state := m.state.under policy}

/-- The same stage under a policy and without a reporter. -/
def Stage.under (policy : Policy) (st : Stage) : Stage :=
  {st with position := st.position.under policy}

section

variable {n : UInt64} {s t : State} {st st' : Stage} {session : Session}

theorem eq_under_of_states (h : (cuttingOff n).States s t) : t = s.under .abort := by
  obtain ⟨heap, statistics, logger, faults, allocators, environment, configuration, names, events⟩ := s
  obtain ⟨_, _, _, _, _, _, _, _, _⟩ := t
  obtain ⟨rfl, rfl, rfl, rfl, rfl, rfl, hevents, hlogger, hfaults⟩ := h
  cases (show _ = _ from hlogger)
  obtain ⟨rfl, rfl⟩ : _ = _ ∧ _ = _ := hfaults
  rw [map_recast_id] at hevents
  cases hevents
  rfl

theorem result_id (result : Result) : result.recast (cuttingOff n).cause = result :=
  result.recast_id

theorem eq_of_records {r r' : Record} (h : (cuttingOff n).Records r r') : r' = r := by
  obtain ⟨hresult, hevents, hlines, hcounts⟩ := h
  rw [result_id] at hresult
  rw [map_recast_id] at hevents
  obtain ⟨result, events, lines, counts⟩ := r
  obtain ⟨_, _, _, _⟩ := r'
  cases hresult
  cases hevents
  cases hcounts
  cases (show _ = _ from hlines)
  rfl

theorem eq_of_forall₂_records {records records' : List Record}
    (h : List.Forall₂ (cuttingOff n).Records records records') : records' = records := by
  induction h with
  | nil => rfl
  | cons hfirst _ ih => rw [eq_of_records hfirst, ih]

theorem frames_id (stack : List Frame) : (cuttingOff n).frames stack = stack := by
  rw [Likeness.frames, show Frame.recast (cuttingOff n).cause = id from funext Frame.recast_id,
    List.map_id]

theorem control_id (control : Control) : control.recast (cuttingOff n).cause = control :=
  control.recast_id

theorem eq_under_of_stages (h : (cuttingOff n).Stages st st') : st' = st.under .abort := by
  obtain ⟨records, rest, position⟩ := st
  obtain ⟨records', rest', position'⟩ := st'
  obtain ⟨hrecords, hrest, hposition⟩ := h
  cases eq_of_forall₂_records hrecords
  cases hrest
  cases hposition with
  | between h =>
    rw [eq_under_of_states h]
    rfl
  | during hm =>
    cases hm with
    | alike control stack h =>
      rw [eq_under_of_states h, frames_id, control_id]
      rfl

theorem count_of_stages (h : (cuttingOff n).Stages st st') : st.state.faults.count = n := by
  obtain ⟨records, rest, position⟩ := st
  obtain ⟨records', rest', position'⟩ := st'
  obtain ⟨-, -, hposition⟩ := h
  cases hposition with
  | between h => exact congrArg FaultHandling.count h.faults.1
  | during hm =>
    cases hm with
    | alike control stack h => exact congrArg FaultHandling.count h.faults.1

theorem count_of_stopped (h : (cuttingOff n).Stopped st st') :
    st.state.faults.count = n + 1 := by
  obtain ⟨records, rest, position⟩ := st
  obtain ⟨-, -, m, t, stack, cause, hposition, -, -, fault, -, hcut⟩ := h
  cases hposition
  exact congrArg FaultHandling.count hcut.faults

theorem succ_ne_self (n : UInt64) : n + 1 ≠ n := by
  intro h
  have hnat := congrArg UInt64.toNat h
  rw [UInt64.toNat_add] at hnat
  have hlt := n.toNat_lt
  simp only [UInt64.toNat_one] at hnat
  omega

end

/-! ### Records are kept -/

namespace Session

variable {session : Session} {s t : State} {st st' : Stage}

theorem records_next? (h : session.next? st = some st') : st.records <+: st'.records := by
  cases advances_of_next? h with
  | begins _ _ _ _ | moves _ _ _ => exact List.prefix_rfl
  | answers records _ _ _ | fails records _ _ _ => exact List.prefix_append records _

theorem records_after (n : Nat) (st : Stage) : st.records <+: (session.after n st).records := by
  induction n generalizing st with
  | zero => exact List.prefix_rfl
  | succ n ih =>
    unfold after
    split
    · next st' hst' => exact (records_next? hst').trans (ih st')
    · exact List.prefix_rfl

theorem records_ending (st : Stage) : st.records <+: (session.ending st).1 := by
  unfold ending
  split
  · exact List.prefix_rfl
  · split
    · exact List.prefix_append _ _
    · exact List.prefix_rfl

/-- What was recorded at a stage is in the end recorded first. -/
theorem records_stage (session : Session) (s : State) (n : Nat) :
    (session.stage s n).records <+: (session.runFrom s session.steps).1 := by
  obtain ⟨k, hk, hrun⟩ := session.exists_ending s
  rw [hrun]
  refine List.IsPrefix.trans ?_ (records_ending _)
  rcases Nat.le_total n k with hnk | hkn
  · obtain ⟨d, rfl⟩ := Nat.exists_eq_add_of_le hnk
    rw [stage_add]
    exact records_after d _
  · obtain ⟨d, rfl⟩ := Nat.exists_eq_add_of_le hkn
    have hlast : session.stage s (k + d) = session.stage s k := by
      rw [stage_add, after_of_rest hk]
    exact hlast ▸ List.prefix_rfl

/-! ### The two comparisons -/

/-- The session from the second state goes as from the first, transition by transition: the heap,
the statistics and the count of faults are the same, and so are the results, the events and the
control, where a fault that was raised in the first is one passed on in the second. Of the log
only entries of faults are missing. -/
structure PassedOn (session : Session) (s t : State) : Prop where
  stages (n : Nat) : passingOn.Stages (session.stage s n) (session.stage t n)
  ending : passingOn.Endings (session.runFrom s session.steps) (session.runFrom t session.steps)

/-- No fault has been counted up to a stage. -/
def Faultless (session : Session) (s : State) (n : Nat) : Prop :=
  ∀ m ≤ n, (session.stage s m).state.faults.count = s.faults.count

/-- The session from the second state goes as from the first up to the line of the first fault,
which is the last thing it does. -/
structure CutOff (session : Session) (s t : State) : Prop where
  same (n : Nat) (quiet : session.Faultless s n) :
    session.stage t n = (session.stage s n).under .abort
  finished (quiet : ∀ n, session.Faultless s n) :
    session.runFrom t session.steps =
      ((session.runFrom s session.steps).1, (session.runFrom s session.steps).2.1,
        (session.runFrom s session.steps).2.2.under .abort)
  /-- It stops over the fault with which the first one goes on. No later stage is another one:
  nothing catches the fault, no finalizer goes on, no teardown is finished, and no step is begun. -/
  stopped (n : Nat) (quiet : session.Faultless s n) (loud : ¬ session.Faultless s (n + 1)) :
    ∃ fault m u stack, (session.stage s (n + 1)).position = .during m ∧
      m.Struck (.fault fault) ∧ m.state.Cut s.faults.count fault u ∧
      (∀ k > n, session.stage t k = ⟨(session.stage s (n + 1)).records,
        (session.stage s (n + 1)).rest, .during ⟨u, .halt .aborted, stack⟩⟩) ∧
      session.runFrom t session.steps =
        ((session.stage s (n + 1)).records ++ (session.lastRecord .aborted u).toList, .aborted, u)
  /-- The steps that were over are recorded in both. -/
  recorded (n : Nat) : (session.stage s n).records <+: (session.runFrom s session.steps).1

theorem fresh_under (h : s.Fresh) (policy : Policy) : (s.under policy).Fresh :=
  ⟨h.heap, h.objects, h.cells⟩

section

variable {n : UInt64} (h : (cuttingOff n).Runs session s t)
include h

theorem count_eq : s.faults.count = n :=
  congrArg FaultHandling.count h.start.faults.1

theorem stages_of_faultless {k : Nat} (quiet : session.Faultless s k) :
    (cuttingOff n).Stages (session.stage s k) (session.stage t k) := by
  obtain hstages | ⟨i, hik, -, hstopped, -⟩ := h.alike_or_stopped k
  · exact hstages
  · have hcount := quiet (i + 1) hik
    rw [count_of_stopped hstopped, count_eq h] at hcount
    exact absurd hcount (succ_ne_self n)

theorem cutOff : session.CutOff s t where
  same k quiet := eq_under_of_stages (stages_of_faultless h quiet)
  finished quiet := by
    obtain ⟨k, hrest, -⟩ := session.exists_ending s
    obtain ⟨hrecords, hexit, hstate⟩ :=
      h.endings_of_rest (stages_of_faultless h (quiet k)) hrest
    exact Prod.ext (eq_of_forall₂_records hrecords)
      (Prod.ext hexit (eq_under_of_states hstate))
  stopped k quiet loud := by
    obtain hstages | ⟨i, hi, -, hstopped, -⟩ := h.alike_or_stopped (k + 1)
    · refine absurd (fun m hm => ?_) loud
      rcases Nat.lt_or_eq_of_le hm with hlt | rfl
      · exact quiet m (Nat.le_of_lt_succ hlt)
      · rw [count_of_stages hstages, count_eq h]
    · obtain rfl : i = k := by
        rcases Nat.lt_or_eq_of_le (Nat.le_of_lt_succ hi) with hlt | heq
        · have hcount := quiet (i + 1) hlt
          rw [count_of_stopped hstopped, count_eq h] at hcount
          exact absurd hcount (succ_ne_self n)
        · exact heq
      have hstop : session.next? (session.stage t (i + 1)) = none :=
        Likeness.stopped_rest hstopped
      obtain ⟨hrecords, hrest, m, u, stack, _, hm, hu, hstruck, fault, rfl, hcut⟩ := hstopped
      have hstage : session.stage t (i + 1) = ⟨(session.stage s (i + 1)).records,
          (session.stage s (i + 1)).rest, .during ⟨u, .halt .aborted, stack⟩⟩ := by
        rw [← eq_of_forall₂_records hrecords, ← hrest, ← hu]
      refine ⟨fault, m, u, stack, hm, hstruck, count_eq h ▸ hcut, fun k hk => ?_, ?_⟩
      · obtain ⟨d, rfl⟩ := Nat.exists_eq_add_of_le (Nat.succ_le_of_lt hk)
        rw [stage_add, after_of_rest hstop, hstage]
      · rw [runFrom_of_rest hstop, hstage]
        rfl
  recorded n := records_stage session s n

end

/-- **The reporter decides how a fault ends, and nothing else.** -/
theorem reporterEnds (session : Session) {s : State} (h : s.Fresh) (hsilent : s.events = [])
    (hsteps : ∀ step ∈ session.steps, step.every Step.unconcerned = true) :
    session.PassedOn (s.under .panic) s.reporting ∧
      session.CutOff (s.under .panic) (s.under .abort) := by
  have hcovered : ∀ n m step, (session.stage (s.under .panic) n).position = .during m →
      m.control = .perform step → step.unconcerned = true :=
    fun n m step hposition hcontrol =>
      performs_every (fresh_under h .panic) hsteps hposition hcontrol
  have hpassing : passingOn.Runs session (s.under .panic) s.reporting := {
    lawful := passingOn_lawful
    covered := hcovered
    start := {
      heap := rfl
      statistics := rfl
      allocators := rfl
      environment := rfl
      configuration := rfl
      names := rfl
      events := by
        show s.events = s.events.map _
        rw [hsilent, List.map_nil]
      logger := .refl s.logger
      faults := ⟨⟨rfl, rfl⟩, rfl, rfl⟩ } }
  have hcutting : (cuttingOff s.faults.count).Runs session (s.under .panic) (s.under .abort) := {
    lawful := cuttingOff_lawful _
    covered := hcovered
    start := {
      heap := rfl
      statistics := rfl
      allocators := rfl
      environment := rfl
      configuration := rfl
      names := rfl
      events := (map_recast_id s.events).symm
      logger := rfl
      faults := ⟨rfl, rfl⟩ } }
  exact ⟨⟨hpassing.alike_of_forall fun _ _ _ hstop => hstop,
    hpassing.endings fun _ _ _ hstop => hstop⟩, cutOff hcutting⟩

/-- A finalizer lets go of an object that nobody ever took a reference to, and catches that. -/
def misjudged : Session where
  steps :=
    .allocate "idle" 8 none none .native ::
      keeping "object" [.attempt (lettingGo "idle"), .act (.object .faultCount)] ++
      [lettingGo "object"]

/-- The fault in the finalizer is caught where it unwinds, and is the last thing that happens
where it aborts. -/
theorem reporterEnds_misjudged :
    (misjudged.runFrom State.embedded.reporting misjudged.steps).2.1 = .finished ∧
      (misjudged.runFrom (State.embedded.under .abort) misjudged.steps).2.1 = .aborted ∧
      misjudged.stage (State.embedded.under .abort) 15 =
        (misjudged.stage (State.embedded.under .panic) 15).under .abort := by
  obtain ⟨hpassed, hcut⟩ := misjudged.reporterEnds State.fresh_embedded rfl (by decide)
  have hquiet : misjudged.Faultless (State.embedded.under .panic) 15 := by
    unfold Faultless
    decide
  have hfault : ¬ misjudged.Faultless (State.embedded.under .panic) 16 :=
    fun h => absurd (h 16 (Nat.le_refl 16)) (by decide)
  obtain ⟨fault, m, u, stack, -, -, -, -, hrun⟩ := hcut.stopped 15 hquiet hfault
  refine ⟨hpassed.ending.exit.trans (by decide), ?_, hcut.same 15 hquiet⟩
  rw [hrun]

end Session
end Custody
