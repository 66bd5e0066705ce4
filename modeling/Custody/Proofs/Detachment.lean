import Custody.Proofs.Indifference
import Custody.Proofs.Possession
import Custody.Proofs.Serving

/-! Finalizers that touch no object.

Their steps write to the log, look at counters and settings, panic, report faults, or attempt one of
these. What such a step answers may depend on what else has happened, but never what it adds or
whether it unwinds (`Machine.Does`), so a whole finalizer adds the same and ends the same wherever
its object is torn down. -/
namespace Custody

/-! ### Steps that touch no object -/

/-- Steps on no object and no handle that leave the settings in force as they are. -/
def Step.detached : Step → Bool
  | .describe _ => true
  | .attempt step => step.detached
  | .act (.log _) | .act (.panic _) => true
  | .act (.object .statistics) | .act (.object .faultCount) => true
  | .act (.setting .policy) | .act (.setting (.report _)) | .act (.setting .readEnvironment) => true
  | .act (.setting (.setVariables _)) | .act (.setting .configuration) => true
  | .act (.setting .systemLimit) => true
  | .act (.setting .systemQuota) | .act (.setting .globalIsSystem) => true
  | _ => false

/-- Steps that do not unwind, as far as steps that touch no object go. -/
def Step.calm : Step → Bool
  | .act (.panic _) | .act (.setting (.report _)) => false
  | _ => true

/-- A routine that touches no object and does not unwind out of a foreign call. -/
def Routine.detached (r : Routine Step) : Bool :=
  r.body.all Step.detached && (r.convention == .native || r.body.all Step.calm)

/-- There is nothing to run, or a routine that touches no object. -/
def Finalizer.detached : Option Finalizer → Bool
  | none => true
  | some (.routine r) => r.detached
  | some .dropValue => false

/-! ### How work ends -/

inductive Ending where
  | answered (answer : Answer)
  | failed (cause : Cause)
  | stopped (halt : Halt)

namespace Ending

def outline : Ending → Ending
  | answered answer => answered answer.outline
  | e => e

/-- The ending of an attempt. -/
def caught : Ending → Ending
  | answered answer => answered (.succeeded answer)
  | failed cause => answered (.failed cause)
  | stopped halt => stopped halt

/-- The ending where the work was called by convention. -/
def through : Convention → Ending → Ending
  | .foreign, failed _ => stopped .aborted
  | _, e => e

/-- What a machine is left with. -/
def control : Ending → Control
  | answered answer => .answer answer
  | failed cause => .unwind cause
  | stopped halt => .halt halt

/-- What the ending of a step means for it, unless the process has stopped. -/
def result? (e : Ending) : Option Result :=
  e.control.result?

/-- The ending of work that has nothing to answer. -/
def ofCause? : Option Cause → Ending
  | none => answered .done
  | some cause => failed cause

theorem outline_caught (e : Ending) : e.caught.outline = e.outline.caught := by
  cases e <;> rfl

end Ending

def Outcome.ending : Outcome Answer → Ending
  | returned answer _ => .answered answer
  | unwound cause _ => .failed cause
  | halted halt _ => .stopped halt

theorem Outcome.ending_through (via : Convention) (out : Outcome Answer) :
    (out.through via).ending = out.ending.through via := by
  cases via <;> cases out <;> rfl

/-- The operation ends this way and leaves this state, up to what is only written down. -/
structure Outcome.ComesTo (out : Outcome Answer) (ending : Ending) (u : State) : Prop where
  ending : out.ending = ending
  state : out.state.hushed = u

theorem Outcome.ComesTo.through {out : Outcome Answer} {ending : Ending} {u : State}
    (h : out.ComesTo ending u) (via : Convention) :
    (out.through via).ComesTo (ending.through via) u where
  ending := by
    rw [Outcome.ending_through, h.ending]
  state := by
    rw [Outcome.state_through]
    exact h.state

namespace Machine

/-- Once started, the machine comes to this state and this ending, with these frames still to do;
they do not matter any more if the process has stopped. -/
inductive Ends (m : Machine) (t : State) : Ending → List Frame → Prop where
  | answered {answer : Answer} {stack : List Frame} (h : m.run = run ⟨t, .answer answer, stack⟩) :
    Ends m t (.answered answer) stack
  | failed {cause : Cause} {stack : List Frame} (h : m.run = run ⟨t, .unwind cause, stack⟩) :
    Ends m t (.failed cause) stack
  | stopped {halt : Halt} {stack left : List Frame} (h : m.run = ⟨t, .halt halt, left⟩) :
    Ends m t (.stopped halt) stack

namespace Ends

variable {m m' : Machine} {s t u : State} {e : Ending} {stack : List Frame}

theorem of_run (hrun : m.run = m'.run) (h : m'.Ends t e stack) : m.Ends t e stack := by
  cases h with
  | answered h => exact .answered (hrun.trans h)
  | failed h => exact .failed (hrun.trans h)
  | stopped h => exact .stopped (hrun.trans h)

theorem of_next? (hnext : m.next? = some m') (h : m'.Ends t e stack) : m.Ends t e stack :=
  h.of_run (run_of_next? hnext)

theorem settle (out : Outcome Answer) (stack : List Frame) :
    (Machine.settle out stack).Ends out.state out.ending stack := by
  cases out with
  | returned answer s => exact .answered rfl
  | unwound cause s => exact .failed rfl
  | halted halt s => exact .stopped (run_of_rest rfl)

/-- An attempt catches what unwinds. -/
theorem attempt (h : m.Ends t e (.attempt :: stack)) : m.Ends t e.caught stack := by
  cases h with
  | answered h => exact .answered (h.trans (run_of_next? rfl))
  | failed h => exact .answered (h.trans (run_of_next? rfl))
  | stopped h => exact .stopped h

/-- Nothing unwinds out of a foreign call. -/
theorem guarded {via : Convention} (h : m.Ends t e (Machine.guarded via stack)) :
    m.Ends t (e.through via) stack := by
  cases via with
  | native => cases h <;> [exact .answered ‹_›; exact .failed ‹_›; exact .stopped ‹_›]
  | foreign =>
    cases h with
    | answered h => exact .answered (h.trans (run_of_next? rfl))
    | failed h => exact .stopped ((h.trans (run_of_next? rfl)).trans (run_of_rest rfl))
    | stopped h => exact .stopped h

/-- At the bottom of the stack the machine has come to rest. -/
theorem rest (h : m.Ends t e []) : m.run.state = t ∧ m.run.control = e.control := by
  cases h with
  | answered h | failed h =>
    rw [h, run_of_rest rfl]
    exact ⟨rfl, rfl⟩
  | stopped h =>
    rw [h]
    exact ⟨rfl, rfl⟩

end Ends

/-- Wherever it starts while faults unwind, the work adds the same and ends in one of these ways. -/
def Does (raise : Fault → Cause) (start : State → List Frame → Machine) (g : Gain)
    (ends : Ending → Prop) : Prop :=
  ∀ s stack, s.faults.raises = some raise → ∃ t e, (start s stack).Ends t e stack ∧ ends e ∧
    t.hushed = g.on s.hushed

variable {raise : Fault → Cause}

/-! ### Steps -/

theorem does_act {action : Action} {g : Gain} {e : Ending}
    (h : ∀ s : State, s.faults.raises = some raise →
      (act s action).ending.outline = e ∧ (act s action).state.hushed = g.on s.hushed) :
    Does raise (fun s stack => ⟨s, .perform (.act action), stack⟩) g (·.outline = e) := by
  intro s stack hraise
  obtain ⟨hending, hstate⟩ := h s hraise
  exact ⟨(act s action).state, (act s action).ending, .of_next? rfl (.settle _ _), hending, hstate⟩

/-- A step that only reads. -/
theorem does_reading {action : Action}
    (h : ∀ s : State, ∃ answer t, act s action = .returned answer t ∧ t.hushed = s.hushed ∧
      answer.outline = .nothing) :
    Does raise (fun s stack => ⟨s, .perform (.act action), stack⟩) {}
      (·.outline = .answered .nothing) := by
  refine does_act fun s _ => ?_
  obtain ⟨answer, t, hact, hstate, hanswer⟩ := h s
  rw [hact, Gain.on_zero]
  exact ⟨congrArg Ending.answered hanswer, hstate⟩

/-- **A step that touches no object does the same anywhere.** It comes back, with an answer if it
is calm. -/
theorem exists_does (raise : Fault → Cause) : ∀ {step : Step}, step.detached = true →
    ∃ g e, Does raise (fun s stack => ⟨s, .perform step, stack⟩) g (·.outline = e) ∧
      ((∃ answer, e = .answered answer) ∨ step.calm = false ∧ ∃ cause, e = .failed cause)
  | .describe routine, _ => by
    refine ⟨{events := View.discarded (routine.map .routine)}, .answered .nothing, ?_,
      .inl ⟨_, rfl⟩⟩
    exact fun s stack _ => ⟨s.discard (routine.map .routine), .answered (.text _),
      .of_next? rfl (.answered rfl), rfl, s.hushed_discard _⟩
  | .attempt step, h => by
    obtain ⟨g, e, hdoes, hends⟩ := exists_does raise (show step.detached = true from h)
    refine ⟨g, e.caught, fun s stack hraise => ?_, ?_⟩
    · obtain ⟨t, e', ht, rfl, hstate⟩ := hdoes s (.attempt :: stack) hraise
      exact ⟨t, e'.caught, .of_next? rfl ht.attempt, e'.outline_caught, hstate⟩
    · rcases hends with ⟨answer, rfl⟩ | ⟨_, cause, rfl⟩
      · exact .inl ⟨_, rfl⟩
      · exact .inl ⟨_, rfl⟩
  | .act (.log action), _ =>
    ⟨{}, _, does_reading fun s => ⟨_, _, rfl, by cases action <;> rfl, by cases action <;> rfl⟩,
      .inl ⟨_, rfl⟩⟩
  | .act (.panic message), _ =>
    ⟨{}, .failed (.panic message), does_act fun s _ => ⟨rfl, (Gain.on_zero _).symm⟩,
      .inr ⟨rfl, _, rfl⟩⟩
  | .act (.setting (.report f)), _ => by
    refine ⟨{faults := 1}, .failed (raise f), does_act fun s hraise => ?_, .inr ⟨rfl, _, rfl⟩⟩
    rw [show act s (.setting (.report f)) = s.report f from rfl, State.report_of_raises hraise]
    exact ⟨rfl, State.hushed_noted f s⟩
  | .act (.setting .readEnvironment), _ => by
    refine ⟨{}, _, does_reading fun s => ?_, .inl ⟨_, rfl⟩⟩
    obtain ⟨l, hl⟩ := Likeness.readEnvironment_eq_hearing s
    refine ⟨.environment s.environment.configuration, s.hearing l, ?_, rfl, rfl⟩
    show State.performSetting s .readEnvironment = _
    simp only [State.performSetting, hl]
  | .act (.setting (.setVariables _)), _ =>
    ⟨{}, _, does_reading fun s => ⟨_, _, rfl, rfl, rfl⟩, .inl ⟨_, rfl⟩⟩
  | .act (.object .statistics), _ | .act (.object .faultCount), _
  | .act (.setting .policy), _ | .act (.setting .configuration), _
  | .act (.setting .systemLimit), _ | .act (.setting .systemQuota), _
  | .act (.setting .globalIsSystem), _ =>
    ⟨{}, _, does_reading fun s => ⟨_, s, rfl, rfl, rfl⟩, .inl ⟨_, rfl⟩⟩

/-! ### Routines and finalizers -/

/-- **A routine that touches no object does the same anywhere**, from any of its steps on. -/
theorem exists_does_body (raise : Fault → Cause) (label : String) {body : List Step}
    (h : ∀ step ∈ body, step.detached = true) :
    ∃ g cause?, Does raise (fun s stack => continueRoutine label s stack body) g
        (· = .ofCause? cause?) ∧
      ((∀ step ∈ body, step.calm = true) → cause? = none) := by
  induction body with
  | nil =>
    refine ⟨{events := [.left label]}, none, fun s stack _ => ?_, fun _ => rfl⟩
    exact ⟨s.observe (.left label), .answered .done, .answered rfl, rfl, s.hushed_observe _⟩
  | cons step rest ih =>
    obtain ⟨hstep, hrest⟩ := List.forall_mem_cons.1 h
    obtain ⟨g, e, hdoes, hends⟩ := exists_does raise hstep
    rcases hends with ⟨answer, rfl⟩ | ⟨hcalm, cause, rfl⟩
    · -- The step is told of, and the routine goes on.
      obtain ⟨g', cause?, hdoes', hcalm'⟩ := ih hrest
      refine ⟨g.followed (Gain.followed {events := [.stepped answer]} g'), cause?,
        fun s stack hraise => ?_, fun hcalm => hcalm' (List.forall_mem_cons.1 hcalm).2⟩
      obtain ⟨t, e', ht, he, hstate⟩ := hdoes s (.routine label rest :: stack) hraise
      obtain ⟨answer', rfl, hanswer⟩ : ∃ answer', e' = .answered answer' ∧
          answer'.outline = answer := by
        cases e' <;> cases he
        exact ⟨_, rfl, rfl⟩
      have hraise' : t.faults.raises = some raise :=
        State.raises_of_hushed (congrArg State.faults hstate) hraise
      obtain ⟨u, e', hu, rfl, hstate'⟩ := hdoes' (t.observe (.stepped answer')) stack hraise'
      refine ⟨u, _, ?_, rfl, ?_⟩
      · cases ht with
        | answered ht => exact hu.of_run (ht.trans (run_of_next? rfl))
      · rw [hstate', State.hushed_observe, hstate, Gain.on_on, Gain.on_on, ← hanswer]
        rfl
    · -- The routine unwinds.
      refine ⟨g, some cause, fun s stack hraise => ?_, fun hall => ?_⟩
      · obtain ⟨t, e', ht, he, hstate⟩ := hdoes s (.routine label rest :: stack) hraise
        obtain rfl : e' = .failed cause := by
          cases e' <;> cases he
          rfl
        refine ⟨t, .failed cause, ?_, rfl, hstate⟩
        cases ht with
        | failed ht => exact .failed (ht.trans (run_of_next? rfl))
      · rw [hall step List.mem_cons_self] at hcalm
        cases hcalm

/-- **A finalizer that touches no object does the same anywhere**, under the lock of its object's
cell, whatever the number of the object, and its teardown is finished on the way out. -/
theorem exists_does_finalize (raise : Fault → Cause) {f : Option Finalizer}
    (h : Finalizer.detached f = true) :
    ∃ (g : ObjectId → Gain) (cause? : Option Cause), (∀ o, (g o).unnumbered = (g 0).unnumbered) ∧
      ∀ (d : Teardown) (s : State) (stack : List Frame), s.faults.raises = some raise →
        (s.heap.governing? d.object).map (·.locked) = some true →
        ∃ t : State, (finalize d f s stack).Ends (t.finish d) (.ofCause? cause?) stack ∧
          t.hushed = (g d.object).on s.hushed := by
  -- The frame of the teardown finishes it, whichever way it is left.
  have hteardown {d : Teardown} {m : Machine} {t : State} {stack : List Frame}
      (cause? : Option Cause)
      (h : m.Ends t (.ofCause? cause?) (.teardown d :: stack)) :
      m.Ends (t.finish d) (.ofCause? cause?) stack := by
    cases cause? with
    | none =>
      cases h with
      | answered h => exact .answered (h.trans (run_of_next? rfl))
    | some cause =>
      cases h with
      | failed h => exact .failed (h.trans (run_of_next? rfl))
  match f with
  | none =>
    exact ⟨fun _ => {}, none, fun _ => rfl, fun d s stack _ _ =>
      ⟨s, hteardown none (.answered rfl), (Gain.on_zero _).symm⟩⟩
  | some .dropValue => cases h
  | some (.routine r) =>
    have hr : r.detached = true := h
    simp only [Routine.detached, Bool.and_eq_true, Bool.or_eq_true, List.all_eq_true,
      beq_iff_eq] at hr
    obtain ⟨g, cause?, hdoes, hcalm⟩ := exists_does_body raise r.label hr.1
    refine ⟨fun o => Gain.followed {events := [.entered r.label o (some true)]} g, cause?,
      fun o => ?_, fun d s stack hraise hlocked => ?_⟩
    · rw [Gain.unnumbered_followed, Gain.unnumbered_followed]
      rfl
    obtain ⟨t, e, ht, rfl, hstate⟩ := hdoes (s.observe (.entered r.label d.object (some true)))
      (guarded r.convention (.teardown d :: stack)) hraise
    -- A foreign routine is calm, so nothing reaches the barrier but an answer.
    have hthrough : (Ending.ofCause? cause?).through r.convention = .ofCause? cause? := by
      rcases hr.2 with hnative | hquiet
      · rw [hnative]
        cases cause? <;> rfl
      · rw [hcalm hquiet]
        cases r.convention <;> rfl
    refine ⟨t, hteardown cause? ?_, ?_⟩
    · have hfinalize : finalize d (some (.routine r)) s stack =
          continueRoutine r.label (s.observe (.entered r.label d.object (some true)))
            (guarded r.convention (.teardown d :: stack)) r.body := by
        simp only [finalize, hlocked]
      rw [hfinalize, ← hthrough]
      exact ht.guarded
    · rw [hstate, State.hushed_observe, Gain.on_on]
      rfl

end Machine
end Custody
