import Custody.Proofs.SideBySide

/-! The log makes no difference to anything else.

Two sessions of the same steps start in states that differ in their loggers alone. No step asks the
logger anything, in a finalizer or at the top. Then the two are the same at every stage once their
logs are erased, and so is what they come to (`Session.ignoresLog`). -/
namespace Custody

/-- Steps that do not ask the logger for its settings or for its lines. -/
def Step.unhearing : Step → Bool
  | .act (.log .state) => false
  | .act (.log (.wouldLog _)) => false
  | .act (.log .takeCaptured) => false
  | _ => true

/-! ### Erasing the log -/

/-- The same state with another logger. -/
def State.hearing (l : Log.Logger) (s : State) : State :=
  {s with logger := l}

/-- A record without the lines that were captured during its step. -/
def Record.unlogged (r : Record) : Record :=
  {r with lines := []}

def Position.unlogged : Position → Position
  | .between s => .between (s.hearing {})
  | .during m => .during {m with state := m.state.hearing {}}

/-- A stage without its log: neither the logger nor the lines in records. -/
def Stage.unlogged (st : Stage) : Stage :=
  ⟨st.records.map Record.unlogged, st.rest, st.position.unlogged⟩

/-- What a session comes to, without its log. -/
def Session.unlogged (e : List Record × Exit × State) : List Record × Exit × State :=
  (e.1.map Record.unlogged, e.2.1, e.2.2.hearing {})

namespace Likeness

/-! ### Loggers that may differ -/

/-- A second run whose logger is any other. -/
def deafened : Likeness where
  cause := id
  logger _ _ := True
  faults f f' := f' = f
  texts _ _ := True
  stops _ _ _ := False
  covers := Step.unhearing

variable {s t : State} {st st' : Stage}

theorem faults_deafened (h : deafened.States s t) : t.faults = s.faults :=
  h.faults

/-- A configuration is refused, or put into force, whatever the logger is. -/
theorem configure_deafened (h : deafened.States s t) (c : Configuration) :
    (t.configure c).1 = (s.configure c).1 ∧
      deafened.States (s.configure c).2 (t.configure c).2 := by
  unfold State.configure
  split
  · exact ⟨rfl, h⟩
  · refine ⟨rfl, ?_⟩
    have hfaults : (t.apply c).faults = (s.apply c).faults := by
      simp only [State.apply, State.log, faults_deafened h]
    have hallocators : (t.apply c).allocators = (s.apply c).allocators := by
      simp only [State.apply, State.log, h.allocators]
    exact {h with
      allocators := hallocators
      configuration := rfl
      logger := trivial
      faults := hfaults}

/-- Warnings are all that reading the environment leaves behind. -/
theorem readEnvironment_eq_hearing (s : State) :
    ∃ l, s.readEnvironment = (s.environment.configuration, s.hearing l) := by
  unfold State.readEnvironment
  generalize s.environment.warnings = warnings
  suffices hwarned : ∃ l, warnings.foldl (fun s warning => s.say .warn warning.message) s =
      s.hearing l by
    obtain ⟨l, hl⟩ := hwarned
    exact ⟨l, by rw [hl]⟩
  induction warnings generalizing s with
  | nil => exact ⟨s.logger, rfl⟩
  | cons warning rest ih =>
    obtain ⟨l, hl⟩ := ih (s.say .warn warning.message)
    exact ⟨l, hl⟩

theorem hearing_deafened (h : deafened.States s t) (l l' : Log.Logger) :
    deafened.States (s.hearing l) (t.hearing l') :=
  {h with logger := trivial}

theorem configureFromEnvironment_deafened (h : deafened.States s t) :
    t.configureFromEnvironment.1 = s.configureFromEnvironment.1 ∧
      deafened.States s.configureFromEnvironment.2 t.configureFromEnvironment.2 := by
  obtain ⟨l, hl⟩ := readEnvironment_eq_hearing s
  obtain ⟨l', hl'⟩ := readEnvironment_eq_hearing t
  have hread := hearing_deafened h l l'
  unfold State.configureFromEnvironment
  rw [hl, hl', h.environment]
  dsimp only
  split
  · exact configure_deafened hread _
  · exact ⟨rfl, (configure_deafened (hearing_deafened hread _ _) {}).2⟩

theorem report_deafened (h : deafened.States s t) (fault : Fault) (f : α → α) :
    deafened.Outcomes f (s.report fault) (t.report fault) := by
  have hcounted : deafened.States {s with faults := {s.faults with count := s.faults.count + 1}}
      {t with faults := {s.faults with count := s.faults.count + 1}} := {h with faults := rfl}
  simp only [State.report, faults_deafened h]
  split
  · exact .unwound (.reported fault) hcounted
  · exact .halted (.exited fault) hcounted
  · split
    · exact .halted .aborted {hcounted with logger := trivial}
    · exact .unwound (.fault fault) {hcounted with logger := trivial}

/-- Steps on settings and on the logger end alike, unless they ask the logger. -/
theorem special_deafened (h : deafened.States s t) {action : Action}
    (hspecial : action.special = true) (hunhearing : (Step.act action).unhearing = true) :
    deafened.Outcomes (Answer.recast id) (Machine.act s action) (Machine.act t action) := by
  cases action with
  | object _ | handle _ | panic _ => cases hspecial
  | log action =>
    cases action with
    | state | wouldLog _ | takeCaptured => cases hunhearing
    | setLevel _ | setFormat _ | setSink _ | emit _ =>
      exact .answered rfl {h with logger := trivial}
  | setting action =>
    cases action with
    | policy =>
      unfold Machine.act State.performSetting
      rw [faults_deafened h]
      exact .answered rfl h
    | setPolicy policy =>
      unfold Machine.act State.performSetting
      rw [faults_deafened h]
      exact .answered rfl {h with faults := rfl}
    | setReporter reporter =>
      unfold Machine.act State.performSetting
      rw [faults_deafened h]
      exact .answered rfl {h with faults := rfl}
    | configuration =>
      unfold Machine.act State.performSetting
      rw [h.configuration]
      exact .answered rfl h
    | configure settings =>
      obtain ⟨hresult, hstates⟩ := configure_deafened h (.ofSettings settings)
      unfold Machine.act State.performSetting
      dsimp only
      rw [hresult]
      exact .answered (Answer.recast_id _) hstates
    | configureFromEnvironment via =>
      obtain ⟨hresult, hstates⟩ := configureFromEnvironment_deafened h
      unfold Machine.act State.performSetting
      dsimp only
      rw [hresult]
      exact .answered (Answer.recast_id _) hstates
    | _ => cases hspecial

theorem deafened_lawful : deafened.Lawful where
  panic _ := rfl
  reported _ := rfl
  emit _ _ := trivial
  clear _ := trivial
  captured _ := trivial
  silent := trivial
  count h := congrArg FaultHandling.count h
  report fault h _ f := report_deafened h fault f
  discard _ h := h.elim
  act hspecial hcovered h := special_deafened h hspecial hcovered

/-! ### Equal once the log is erased -/

theorem hearing_of_states (h : deafened.States s t) : t.hearing {} = s.hearing {} := by
  obtain ⟨_, _, _, _, _, _, _, _, _⟩ := s
  obtain ⟨_, _, _, _, _, _, _, _, _⟩ := t
  obtain ⟨rfl, rfl, rfl, rfl, rfl, rfl, hevents, -, hfaults⟩ := h
  cases hevents.trans (Event.map_recast_id _)
  cases (show _ = _ from hfaults)
  rfl

theorem unlogged_of_records {r r' : Record} (h : deafened.Records r r') :
    r'.unlogged = r.unlogged := by
  obtain ⟨_, _, _, _⟩ := r
  obtain ⟨_, _, _, _⟩ := r'
  obtain ⟨hresult, hevents, -, hcounts⟩ := h
  cases hresult.trans (Result.recast_id _)
  cases hevents.trans (Event.map_recast_id _)
  cases hcounts
  rfl

theorem unlogged_of_forall₂ {records records' : List Record}
    (h : List.Forall₂ deafened.Records records records') :
    records'.map Record.unlogged = records.map Record.unlogged := by
  induction h with
  | nil => rfl
  | cons hfirst _ ih => rw [List.map_cons, List.map_cons, unlogged_of_records hfirst, ih]

theorem unlogged_of_positions {position position' : Position}
    (h : deafened.Positions position position') : position'.unlogged = position.unlogged := by
  cases h with
  | between h => exact congrArg Position.between (hearing_of_states h)
  | during hm =>
    cases hm with
    | alike control stack h =>
      have hframes : deafened.frames stack = stack := by
        rw [frames, show Frame.recast deafened.cause = id from funext Frame.recast_id, List.map_id]
      have hcontrol : control.recast deafened.cause = control := control.recast_id
      rw [hframes, hcontrol, Position.unlogged, hearing_of_states h, Position.unlogged]

theorem unlogged_of_stages (h : deafened.Stages st st') : st'.unlogged = st.unlogged := by
  obtain ⟨hrecords, hrest, hposition⟩ := h
  rw [Stage.unlogged, unlogged_of_forall₂ hrecords, hrest, unlogged_of_positions hposition,
    Stage.unlogged]

end Likeness

/-! ### Sessions -/

namespace Session

open Likeness

variable {session : Session} {s : State}

/-- A session from two states goes alike, transition by transition and to the end, but for what is
logged. -/
structure IgnoresLog (session : Session) (s t : State) : Prop where
  /-- The control, the stack, the records made and all of the state: heap, statistics, faults,
  allocators, configuration, names and events. -/
  stage (n : Nat) : (session.stage t n).unlogged = (session.stage s n).unlogged
  ending : unlogged (session.runFrom t session.steps) = unlogged (session.runFrom s session.steps)

/-- **The log makes no difference to anything else.** The session may start anywhere, as long as no
routine in a cell asks the logger either. -/
theorem ignoresLog (session : Session) (s : State) (l : Log.Logger)
    (hcells : s.view.Stores Step.unhearing)
    (hsteps : ∀ step ∈ session.steps, step.every Step.unhearing = true) :
    session.IgnoresLog s (s.hearing l) := by
  have hruns : deafened.Runs session s (s.hearing l) := {
    lawful := deafened_lawful
    covered := fun n m step hd hm => performs_stored hcells hsteps hd hm
    start := {
      heap := rfl
      statistics := rfl
      allocators := rfl
      environment := rfl
      configuration := rfl
      names := rfl
      events := (Event.map_recast_id s.events).symm
      logger := trivial
      faults := rfl } }
  obtain ⟨hrecords, hexit, hstate⟩ := hruns.endings fun _ _ _ hstop => hstop
  refine ⟨fun n => unlogged_of_stages (hruns.alike_of_forall (fun _ _ _ hstop => hstop) n), ?_⟩
  exact Prod.ext (unlogged_of_forall₂ hrecords) (Prod.ext hexit (hearing_of_states hstate))

/-- Lets go of an object that is already there, with three finalizers inside one another. -/
def lettingAllGo : Session where
  steps := [lettingGo "outer"]

/-- Where the finalizer waits in a cell as the session starts: a logger that lets everything
through is told of ten transitions, and nothing else changes. -/
theorem ignoresLog_lettingAllGo :
    (lettingAllGo.runFrom (nested.stage .embedded 7).state
        lettingAllGo.steps).2.2.logger.errorLines = [] ∧
      (lettingAllGo.runFrom ((nested.stage .embedded 7).state.hearing {level := .trace})
        lettingAllGo.steps).2.2.logger.errorLines.length = 10 ∧
      (lettingAllGo.runFrom ((nested.stage .embedded 7).state.hearing {level := .trace})
        lettingAllGo.steps).2.1 = .finished := by
  have hcells : (nested.stage .embedded 7).state.view.Stores Step.unhearing :=
    (passes_stage State.fresh_embedded.stores (by decide) 7).cells
  have hignored := lettingAllGo.ignoresLog (nested.stage .embedded 7).state {level := .trace} hcells
    (by decide)
  have hexit := congrArg (·.2.1) hignored.ending
  exact ⟨by decide, by decide, hexit.trans (by decide)⟩

end Session
end Custody
