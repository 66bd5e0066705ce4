import Custody.Proofs.Progress
import Custody.Proofs.Writing

/-! The settings in force are those of the configuration.

The level and the format of the log, the fault policy and the limit of the system allocator are
four pieces of state, and the configuration put into force last is a fifth. As long as nobody sets
one of the four alone they agree with the fifth, and it is valid (`Session.staysCoherent`): a
configuration that is not valid changes nothing, and an environment that is not valid leads to the
default one. What tells of it is written under the old settings, and what tells of the new
configuration under the new ones. -/
namespace Custody

/-- Steps that set one of the settings alone. -/
def Step.sets : Step → Bool
  | .act (.log (.setLevel _)) | .act (.log (.setFormat _)) => true
  | .act (.setting (.setPolicy _)) | .act (.setting (.setSystemLimit _)) => true
  | _ => false

/-- What is in force under a configuration, or under the default one as long as there is none. -/
def InForce.of (configuration : Option Configuration) : InForce :=
  let c := configuration.getD {}
  ⟨c.level, c.format, c.policy, c.maxHeapSize, configuration⟩

namespace Configuration

variable {settings : List Setting} {c : Configuration} {e : ConfigurationError}

theorem valid_of_built (h : build settings = .ok c) : c = ofSettings settings ∧
    (ofSettings settings).validate = .ok () := by
  unfold build at h
  cases hvalid : (ofSettings settings).validate with
  | error e =>
    rw [hvalid] at h
    cases h
  | ok u =>
    rw [hvalid] at h
    cases h
    exact ⟨rfl, rfl⟩

theorem invalid_of_unbuilt (h : build settings = .error e) :
    (ofSettings settings).validate = .error e := by
  unfold build at h
  cases hvalid : (ofSettings settings).validate with
  | error e' =>
    rw [hvalid] at h
    cases h
    rfl
  | ok u =>
    rw [hvalid] at h
    cases h

end Configuration

namespace State

/-- The settings in force are those of the configuration, which is valid. -/
structure Coherent (s : State) : Prop where
  level : s.logger.level = (s.configuration.getD {}).level
  format : s.logger.format = (s.configuration.getD {}).format
  policy : s.faults.policy = (s.configuration.getD {}).policy
  limit : s.allocators.system.limit = (s.configuration.getD {}).maxHeapSize
  valid : (s.configuration.getD {}).validate = .ok ()

variable {s t : State} {c : Configuration}

theorem coherent_iff : s.Coherent ↔
    s.inForce = InForce.of s.configuration ∧ (s.configuration.getD {}).validate = .ok () := by
  simp only [inForce, InForce.of, InForce.mk.injEq, and_true]
  constructor
  · intro h
    exact ⟨⟨h.level, h.format, h.policy, h.limit⟩, h.valid⟩
  · rintro ⟨⟨hlevel, hformat, hpolicy, hlimit⟩, hvalid⟩
    exact ⟨hlevel, hformat, hpolicy, hlimit, hvalid⟩

theorem Coherent.congr (h : s.Coherent) (hsame : t.inForce = s.inForce) : t.Coherent := by
  have hconfiguration : t.configuration = s.configuration := congrArg InForce.configuration hsame
  rw [coherent_iff] at h ⊢
  rw [hsame, hconfiguration]
  exact h

theorem coherent_initial (memory : UInt64 → Bool) : (initial memory).Coherent :=
  ⟨rfl, rfl, rfl, rfl, Configuration.validate_default⟩

/-! ### Configurations -/

/-- The logger under a configuration. -/
def retuned (c : Configuration) (l : Log.Logger) : Log.Logger :=
  {l with level := c.level, format := c.format}

/-- What is written of a configuration that takes effect, under its own settings. -/
def effectLines (c : Configuration) : List Log.Line :=
  if c.level = .trace ∨ c.level = .debug then [⟨c.format, c.entry⟩] else []

/-- A configuration was put into force: its settings are, it is the one that is recorded, its entry
is let through and written as they say, and nothing else has changed. -/
structure Established (c : Configuration) (s t : State) : Prop where
  configuration : t.configuration = some c
  logger : (retuned c s.logger).Wrote (effectLines c) t.logger
  faults : t.faults = {s.faults with policy := c.policy}
  allocators : t.allocators =
    {s.allocators with system := {s.allocators.system with limit := c.maxHeapSize}}
  heap : t.heap = s.heap
  statistics : t.statistics = s.statistics
  environment : t.environment = s.environment
  names : t.names = s.names
  events : t.events = s.events

theorem wrote_effect (c : Configuration) (l : Log.Logger) :
    (retuned c l).Wrote (effectLines c) ((retuned c l).emit c.entry) := by
  have hline : ((retuned c l).line? c.entry).toList = effectLines c := by
    have hpasses : (retuned c l).wouldLog c.entry.level = true ↔
        c.level = .trace ∨ c.level = .debug := by
      show Log.Level.passes .debug c.level = true ↔ _
      cases c.level <;> decide
    unfold Log.Logger.line? effectLines
    simp only [hpasses]
    split <;> rfl
  rw [← hline]
  exact Log.Logger.wrote_emit c.entry _

theorem configure_of_valid (h : c.validate = .ok ()) (s : State) :
    ∃ t, s.configure c = (.ok (), t) ∧ Established c s t := by
  unfold configure
  rw [h]
  exact ⟨_, rfl, rfl, wrote_effect c s.logger, rfl, rfl, rfl, rfl, rfl, rfl, rfl⟩

theorem configure_of_invalid {e : ConfigurationError} (h : c.validate = .error e) (s : State) :
    s.configure c = (.error e, s) := by
  unfold configure
  rw [h]

theorem Established.coherent (h : Established c s t) (hvalid : c.validate = .ok ()) :
    t.Coherent := by
  refine ⟨?_, ?_, ?_, ?_, ?_⟩
  · rw [h.configuration]
    exact h.logger.level
  · rw [h.configuration]
    exact h.logger.format
  · rw [h.configuration, h.faults]
    rfl
  · rw [h.configuration, h.allocators]
    rfl
  · rw [h.configuration]
    exact hvalid

theorem Coherent.configure (h : s.Coherent) (c : Configuration) : (s.configure c).2.Coherent := by
  cases hvalid : c.validate with
  | error e =>
    rw [configure_of_invalid hvalid]
    exact h
  | ok _ =>
    obtain ⟨t, hout, hestablished⟩ := configure_of_valid hvalid s
    rw [hout]
    exact hestablished.coherent hvalid

/-! ### The environment -/

theorem inForce_say (level : Log.Level) (message : String) (s : State) :
    (s.say level message).inForce = s.inForce :=
  inForce_log _ s

/-- The logger once it was told of each variable that is not understood. -/
def warned (s : State) : Log.Logger :=
  s.environment.warnings.foldl (fun l warning => l.emit ⟨.warn, warning.message, none, [], 0⟩)
    s.logger

theorem readEnvironment_eq (s : State) :
    s.readEnvironment = (s.environment.configuration, {s with logger := s.warned}) := by
  unfold readEnvironment warned
  generalize s.environment.warnings = warnings
  refine Prod.ext rfl ?_
  induction warnings generalizing s with
  | nil => rfl
  | cons warning rest ih => exact ih (s.say .warn warning.message)

/-- What is written of the variables that are not understood, the latest first: a line for each,
unless no warning is let through. -/
def warningLines (s : State) : List Log.Line :=
  if s.logger.level = .off ∨ s.logger.level = .error then []
  else (s.environment.warnings.map fun warning =>
    Log.Line.mk s.logger.format ⟨.warn, warning.message, none, [], 0⟩).reverse

theorem wrote_warned (s : State) : s.logger.Wrote s.warningLines s.warned := by
  have hlines : s.warningLines = if s.logger.wouldLog .warn = true then
      ((s.environment.warnings.map fun warning : ConfigurationError =>
        (⟨.warn, warning.message, none, [], 0⟩ : Log.Entry)).map
          (Log.Line.mk s.logger.format)).reverse else [] := by
    unfold warningLines Log.Logger.wouldLog
    rw [List.map_map]
    cases s.logger.level <;> rfl
  have hwarned : s.warned = (s.environment.warnings.map fun warning : ConfigurationError =>
      (⟨.warn, warning.message, none, [], 0⟩ : Log.Entry)).foldl
        (fun l e => l.emit e) s.logger := by
    unfold warned
    rw [List.foldl_map]
  rw [hlines, hwarned]
  refine Log.Logger.wrote_foldl_of_level (fun e he => ?_) s.logger
  obtain ⟨warning, -, rfl⟩ := List.mem_map.1 he
  rfl

theorem inForce_readEnvironment (s : State) : s.readEnvironment.2.inForce = s.inForce := by
  have hwrote := s.wrote_warned
  simp only [readEnvironment_eq, inForce, hwrote.level, hwrote.format]

/-- What is told where an environment gives way to the default configuration. -/
def fallback (e : ConfigurationError) : Log.Entry :=
  ⟨.error, e.message ++ "; falling back to default configuration", none, [], 0⟩

/-- What is written of it, under the settings of before. -/
def fallbackLines (e : ConfigurationError) (s : State) : List Log.Line :=
  if s.logger.level = .off then [] else [⟨s.logger.format, fallback e⟩]

theorem wrote_fallback (e : ConfigurationError) (s : State) :
    s.logger.Wrote (s.fallbackLines e ++ s.warningLines) (s.warned.emit (fallback e)) := by
  have hwarned := s.wrote_warned
  have hline : (s.warned.line? (fallback e)).toList = s.fallbackLines e := by
    rw [Log.Logger.line?_congr hwarned.manner]
    unfold Log.Logger.line? Log.Logger.wouldLog fallbackLines fallback
    cases s.logger.level <;> rfl
  rw [← hline]
  exact hwarned.trans (Log.Logger.wrote_emit _ _)

/-- An environment that is valid is put into force. -/
theorem configureFromEnvironment_of_valid {s : State}
    (h : s.environment.configuration.validate = .ok ()) :
    ∃ l t, s.configureFromEnvironment = (.ok (), t) ∧ s.logger.Wrote s.warningLines l ∧
      Established s.environment.configuration {s with logger := l} t := by
  obtain ⟨t, hout, hestablished⟩ := configure_of_valid h {s with logger := s.warned}
  refine ⟨s.warned, t, ?_, s.wrote_warned, hestablished⟩
  unfold configureFromEnvironment
  rw [readEnvironment_eq]
  dsimp only
  rw [h]
  exact hout

/-- One that is not gives way to the default configuration. -/
theorem configureFromEnvironment_of_invalid {s : State} {e : ConfigurationError}
    (h : s.environment.configuration.validate = .error e) :
    ∃ l t, s.configureFromEnvironment = (.error e, t) ∧
      s.logger.Wrote (s.fallbackLines e ++ s.warningLines) l ∧
      Established {} {s with logger := l} t := by
  obtain ⟨t, hout, hestablished⟩ := configure_of_valid Configuration.validate_default
    {s with logger := s.warned.emit (fallback e)}
  refine ⟨_, t, ?_, s.wrote_fallback e, hestablished⟩
  unfold configureFromEnvironment
  rw [readEnvironment_eq]
  dsimp only
  rw [h]
  have hsaid : ({s with logger := s.warned} : State).say .error
      (e.message ++ "; falling back to default configuration") =
        {s with logger := s.warned.emit (fallback e)} := rfl
  dsimp only
  rw [hsaid, hout]

theorem Coherent.configureFromEnvironment (h : s.Coherent) :
    s.configureFromEnvironment.2.Coherent := by
  have hread : s.readEnvironment.2.Coherent := h.congr (inForce_readEnvironment s)
  unfold State.configureFromEnvironment
  dsimp only
  split
  · exact hread.configure _
  · exact (hread.congr (inForce_say _ _ _)).configure {}

/-! ### Other actions -/

theorem inForce_given {found : Option α} {next : α → Outcome β}
    (h : ∀ a, found = some a → (next a).state.inForce = s.inForce) :
    (s.given found next).state.inForce = s.inForce := by
  cases found with
  | none => rfl
  | some a => exact h a rfl

/-- Steps on objects change no setting, done by hand or not. -/
theorem inForce_performObject (action : ObjectAction) (s : State) :
    (s.performObject action).state.inForce = s.inForce := by
  by_cases hplain : Step.plain (.act (.object action)) = true
  · obtain ⟨ds, hds⟩ := leads_performObject (s := s) hplain
    exact hds.inForce
  · cases action with
    | clearSlot name => exact inForce_given fun o _ => rfl
    | forceCount name count => exact inForce_given fun o _ => inForce_given fun c _ => rfl
    | freeCell name => exact inForce_given fun c _ => (still_discard _ s).inForce
    | _ => exact absurd rfl hplain

theorem inForce_performLog {action : LogAction} (hsets : Step.sets (.act (.log action)) = false)
    (s : State) : (s.performLog action).2.inForce = s.inForce := by
  cases action with
  | setLevel _ | setFormat _ => cases hsets
  | emit entry => exact inForce_log entry s
  | state | setSink _ | wouldLog _ | takeCaptured => rfl

theorem Coherent.performSetting (h : s.Coherent) {action : SettingAction}
    (hsets : Step.sets (.act (.setting action)) = false) :
    (s.performSetting action).state.Coherent := by
  cases action with
  | setPolicy _ | setSystemLimit _ => cases hsets
  | configure settings => exact h.configure _
  | configureFromEnvironment via => exact h.configureFromEnvironment
  | readEnvironment => exact h.congr (inForce_readEnvironment s)
  | report fault =>
    refine h.congr ?_
    rw [State.performSetting, state_report]
    exact inForce_noted fault s
  | raiseForeign message =>
    refine h.congr ?_
    rw [State.performSetting, Outcome.state_through, state_report]
    exact inForce_noted _ s
  | setAllocatorLimit name limit =>
    exact h.congr (inForce_given fun i _ => inForce_given fun q _ => rfl)
  | allocatorQuota name => exact h.congr (inForce_given fun i _ => inForce_given fun q _ => rfl)
  | installAllocator name =>
    refine h.congr (inForce_given fun i _ => inForce_given fun q _ => ?_)
    dsimp only
    split
    · next allocators hinstall =>
      unfold Allocators.install at hinstall
      split at hinstall <;> cases hinstall
      rfl
    · rfl
  | policy | setReporter _ | setVariables _ | configuration | systemLimit | systemQuota
    | newAllocator _ _ | globalIsSystem => exact h.congr rfl

end State

/-! ### Transitions -/

namespace Machine

open State

variable {m m' : Machine} {s : State}

/-- Steps that change slots, counts and cells by hand do not change a setting. -/
theorem inForce_byHand {step : Step} (hplain : step.plain = false) (s : State) (stack : List Frame)
    (hact : ∀ action, step ≠ .act action) : (perform s stack step).state.inForce = s.inForce := by
  cases step with
  | act action => exact absurd rfl (hact action)
  | assemble name size routine => rfl
  | newCell name routine => rfl
  | reinstall name routine =>
    unfold perform
    rw [state_settle]
    exact inForce_given fun o _ => rfl
  | _ => cases hplain

/-- **A step keeps the settings coherent**, unless it sets one of them alone. -/
theorem coherent_perform (h : s.Coherent) {step : Step} (hsets : step.sets = false)
    (stack : List Frame) : (perform s stack step).state.Coherent := by
  by_cases hplain : step.plain = true
  · obtain ⟨ds, hds⟩ := leads_perform hplain s stack
    exact h.congr hds.inForce
  · by_cases hact : ∃ action, step = .act action
    · obtain ⟨action, rfl⟩ := hact
      unfold perform
      rw [state_settle]
      cases action with
      | object action => exact h.congr (inForce_performObject action s)
      | log action => exact h.congr (inForce_performLog hsets s)
      | setting action => exact h.performSetting hsets
      | handle _ | panic _ => exact absurd rfl hplain
    · exact h.congr (inForce_byHand (by simpa using hplain) s stack fun action heq =>
        hact ⟨action, heq⟩)

theorem coherent_next (h : m.state.Coherent)
    (hsets : ∀ step, m.control = .perform step → step.sets = false) (hn : m.next? = some m') :
    m'.state.Coherent := by
  obtain ⟨s, control, stack⟩ := m
  by_cases hperform : ∃ step, control = .perform step
  · obtain ⟨step, rfl⟩ := hperform
    cases hn
    exact coherent_perform h (hsets step rfl) stack
  · obtain ⟨ds, hproceeds⟩ := proceeds_next (fun step hstep => absurd ⟨step, hstep⟩ hperform) hn
    cases hproceeds with
    | goes hds => exact h.congr hds.inForce
    | finishes t _ _ hstate =>
      refine h.congr ?_
      rw [hstate]
      exact inForce_finish t _

theorem act_configure {t : State} {settings : List Setting}
    {result : Except ConfigurationError Unit}
    (h : s.configure (.ofSettings settings) = (result, t)) :
    act s (.setting (.configure settings)) = .returned (configurationAnswer result) t := by
  unfold act performSetting
  dsimp only
  rw [h]

theorem act_configureFromEnvironment {t : State} {result : Except ConfigurationError Unit}
    (via : Convention) (h : s.configureFromEnvironment = (result, t)) :
    act s (.setting (.configureFromEnvironment via)) =
      .returned (initialiserAnswer via result) t := by
  unfold act performSetting
  dsimp only
  rw [h]

end Machine

namespace State

/-- What becomes of a configuration in a state. -/
structure Configures (s : State) : Prop where
  /-- What can be built is put into force. -/
  accepts (settings : List Setting) (c : Configuration)
    (built : Configuration.build settings = .ok c) :
    ∃ t, Machine.act s (.setting (.configure settings)) = .returned .done t ∧ Established c s t
  /-- What cannot be built is refused for the same reason, and nothing changes. -/
  refuses (settings : List Setting) (e : ConfigurationError)
    (unbuilt : Configuration.build settings = .error e) :
    Machine.act s (.setting (.configure settings)) = .returned (.invalid e) s
  /-- The variables that are not understood are told of first, under the settings of before. -/
  environment (via : Convention) (valid : s.environment.configuration.validate = .ok ()) :
    ∃ l t, Machine.act s (.setting (.configureFromEnvironment via)) =
        .returned (initialiserAnswer via (.ok ())) t ∧
      s.logger.Wrote s.warningLines l ∧
      Established s.environment.configuration {s with logger := l} t
  /-- The error is told of under the settings of before, too, and the default ones are put into
  force. -/
  fallsBack (via : Convention) (e : ConfigurationError)
    (invalid : s.environment.configuration.validate = .error e) :
    ∃ l t, Machine.act s (.setting (.configureFromEnvironment via)) =
        .returned (initialiserAnswer via (.error e)) t ∧
      s.logger.Wrote (s.fallbackLines e ++ s.warningLines) l ∧
      Established {} {s with logger := l} t

/-- A configuration takes effect as a whole or not at all. -/
theorem configures (s : State) : s.Configures where
  accepts settings c built := by
    obtain ⟨rfl, hvalid⟩ := Configuration.valid_of_built built
    obtain ⟨t, hout, hestablished⟩ := configure_of_valid hvalid s
    exact ⟨t, Machine.act_configure hout, hestablished⟩
  refuses settings e unbuilt :=
    Machine.act_configure (configure_of_invalid (Configuration.invalid_of_unbuilt unbuilt) s)
  environment via valid := by
    obtain ⟨l, t, hout, hwrote, hestablished⟩ := configureFromEnvironment_of_valid valid
    exact ⟨l, t, Machine.act_configureFromEnvironment via hout, hwrote, hestablished⟩
  fallsBack via e invalid := by
    obtain ⟨l, t, hout, hwrote, hestablished⟩ := configureFromEnvironment_of_invalid invalid
    exact ⟨l, t, Machine.act_configureFromEnvironment via hout, hwrote, hestablished⟩

end State

/-! ### Sessions -/

namespace Session

open State

variable {session : Session} {s : State}

theorem inForce_record (session : Session) (result : Result) (s : State) :
    (session.record result true s).2.inForce = s.inForce := by
  unfold record
  dsimp only
  split <;> rfl

theorem coherent_stage (hfresh : s.Fresh) (h : s.Coherent)
    (hsteps : ∀ step ∈ session.steps, step.every (!·.sets) = true) (n : Nat) :
    (session.stage s n).state.Coherent := by
  induction n with
  | zero => exact h
  | succ n ih =>
    cases hn : session.next? (session.stage s n) with
    | none =>
      rw [stage_succ_of_rest hn]
      exact ih
    | some st =>
      rw [stage_succ_of_next? hn]
      generalize hst : session.stage s n = st' at hn ih
      cases advances_of_next? hn with
      | begins records rest t step => exact ih.congr rfl
      | answers records rest t answer => exact ih.congr (inForce_record session _ t)
      | fails records rest t cause => exact ih.congr (inForce_record session _ t)
      | @moves records rest m m' hm =>
        have hd : (session.stage s n).position = .during m := by rw [hst]
        refine Machine.coherent_next ih (fun step hstep => ?_) hm
        simpa using performs_every hfresh hsteps hd hstep

/-- What holds of the settings all through a session from the initial state. -/
structure StaysCoherent (session : Session) (memory : UInt64 → Bool) : Prop where
  coherent (n : Nat) : (session.stage (.initial memory) n).state.Coherent
  configures (n : Nat) : (session.stage (.initial memory) n).state.Configures

/-- **The settings in force are those of the configuration** at every point of a session that sets
none of them alone, and a configuration takes effect as a whole or not at all. -/
theorem staysCoherent (session : Session) (memory : UInt64 → Bool)
    (hsteps : ∀ step ∈ session.steps, step.every (!·.sets) = true) :
    session.StaysCoherent memory where
  coherent n := coherent_stage (fresh_initial memory) (coherent_initial memory) hsteps n
  configures _ := State.configures _

/-- A variable for a heap that is smaller than the smallest one. -/
def poor : Environment := [("RCBOX_MAX_HEAP_SIZE", [0x31, 0x30, 0x30])]

/-- A configuration that is refused, one that is put into force, and an environment that is not
valid. -/
def reconfigured : Session where
  steps :=
    [.act (.setting (.configure [.maxHeapSize 1])),
      .act (.setting (.configure [.level .debug, .format .json, .policy .panic])),
      .act (.setting (.setVariables [("RCBOX_MAX_HEAP_SIZE", some [0x31, 0x30, 0x30])])),
      .act (.setting (.configureFromEnvironment .native))]

/-- The error of the third is told of under the settings of the second. -/
theorem staysCoherent_reconfigured :
    (reconfigured.stage (.initial Quota.backed) 9).state.Coherent ∧
      (reconfigured.stage (.initial Quota.backed) 9).state.inForce =
        ⟨.debug, .json, .panic, 0, some {level := .debug, format := .json, policy := .panic}⟩ ∧
      ∃ e t, Machine.act (reconfigured.stage (.initial Quota.backed) 9).state
          (.setting (.configureFromEnvironment .native)) = .returned (.invalid e) t ∧
        t.configuration = some {} ∧
        t.logger.errorLines = [⟨.json, fallback e⟩,
          ⟨.json, Configuration.entry {level := .debug, format := .json, policy := .panic}⟩] := by
  have h := reconfigured.staysCoherent Quota.backed (by decide)
  have hstate : (reconfigured.stage (.initial Quota.backed) 9).state.environment = poor := rfl
  have hread : poor.configuration = {maxHeapSize := 100} := by decide +kernel
  have hwarnings : poor.warnings = [] := by decide +kernel
  obtain ⟨l, t, hout, hwrote, hestablished⟩ := (h.configures 9).fallsBack .native
    (.invalidValue "memory.max_heap_size" "must be 0 (unlimited) or at least 4096 bytes") (by
      rw [hstate, hread]
      rfl)
  have hlines : (reconfigured.stage (.initial Quota.backed) 9).state.warningLines = [] := by
    unfold warningLines
    rw [hstate, hwarnings]
    rfl
  refine ⟨h.coherent 9, rfl, _, t, hout, hestablished.configuration, ?_⟩
  rw [hlines] at hwrote
  have hunchanged : t.logger.sent .errorStream = l.sent .errorStream :=
    (hestablished.logger.sent .errorStream).trans (ite_self _)
  exact hunchanged.trans (hwrote.sent .errorStream)

end Session
end Custody
