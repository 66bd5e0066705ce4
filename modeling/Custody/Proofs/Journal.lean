import Custody.Proofs.Tracing
import Custody.Proofs.Writing

/-! The trace log as a journal.

At level trace everything that is done to a count is written down as it is done, so the log of a
session is the list of its deeds (`Session.Chronicle`), and for every object it tells the story that
ends with what has become of the object. Whoever has nothing but the log knows between steps the
count of every object, and which ones have been deallocated (`Session.keepsJournal`). -/
namespace Custody

/-! ### Writing -/

theorem Deed.level_ne_off {reporter : Option Reporter} {d : Deed} {e : Log.Entry}
    (he : e ∈ d.entries reporter) : e.level ≠ .off := by
  have htrace (t : Transition) (o : ObjectId) (n : UInt32) : (t.entry o n).level ≠ .off := by
    show Log.Level.trace ≠ .off
    decide
  have hfault (f : Fault) : f.entry.level ≠ .off := by
    show Log.Level.error ≠ .off
    decide
  cases d with
  | create o | retain o n | count o n =>
    obtain rfl := List.mem_singleton.1 he
    exact htrace _ _ _
  | release o n =>
    rcases List.mem_cons.1 he with rfl | he
    · exact htrace _ _ _
    · split at he
      · obtain rfl := List.mem_singleton.1 he
        exact htrace _ _ _
      · cases he
  | fault f =>
    simp only [entries] at he
    split at he
    · obtain rfl := List.mem_singleton.1 he
      exact hfault f
    · cases he

/-- The entries of deeds, in order. -/
def Deed.journal (reporter : Option Reporter) (ds : List Deed) : List Log.Entry :=
  ds.flatMap (entries reporter)

namespace State

variable {s t : State} {d : Deed} {ds : List Deed} {o : ObjectId}

theorem Does.manner (h : s.Does ds t) : t.logger.manner = s.logger.manner := by
  rw [h.logger]
  exact (Log.Logger.wrote_foldl _ _).manner

/-- **Deeds are written down as they are done.** -/
theorem Does.written (h : s.Does ds t) (hlevel : s.logger.level = .trace) :
    t.logger.written =
      ((Deed.journal s.faults.reporter ds).map (Log.Line.mk s.logger.format)).reverse ++
        s.logger.written := by
  have hlines : (Deed.journal s.faults.reporter ds).filterMap s.logger.line? =
      (Deed.journal s.faults.reporter ds).map (Log.Line.mk s.logger.format) := by
    refine List.filterMap_eq_map_iff_forall_eq_some.2 fun e he => ?_
    obtain ⟨d, _, hd⟩ := List.mem_flatMap.1 he
    exact Log.Logger.line?_of_trace hlevel (Deed.level_ne_off hd)
  rw [h.logger, ← hlines]
  exact (Log.Logger.wrote_foldl _ _).written

theorem logger_finish (t : Teardown) (s : State) : (s.finish t).logger = s.logger := by
  have hfree : ((s.unlock t.cell).freeCell t.cell).logger = s.logger := by
    unfold freeCell
    exact (still_discard _ (s.unlock t.cell)).logger
  exact hfree

theorem faults_finish (t : Teardown) (s : State) : (s.finish t).faults = s.faults := by
  have hfree : ((s.unlock t.cell).freeCell t.cell).faults = s.faults := by
    unfold freeCell
    exact (still_discard _ (s.unlock t.cell)).faults
  exact hfree

/-! ### Operations that fail -/

/-- Nothing was done but to report faults. -/
def Fails (s t : State) : Prop :=
  ∃ fs : List Fault, s.Does (fs.map .fault) t

/-- An operation that does not come back has only reported faults. -/
def Untold (s : State) (out : Outcome α) : Prop :=
  (∃ a t, out = .returned a t) ∨ s.Fails out.state

theorem fails_of_still (h : s.Still t) : s.Fails t :=
  ⟨[], .still h⟩

theorem fails_report (f : Fault) (s : State) : s.Fails (s.report f : Outcome α).state := by
  rw [state_report]
  exact ⟨[f], .deed (.fault f s)⟩

theorem untold_access {next : CellId → Cell → State → Outcome β} (s : State) (o : ObjectId)
    (hopen : ∀ c cell, s.heap.Opens o c cell →
      s.Untold (next c {cell with locked := true} (s.onHeap (·.setLocked c true)))) :
    s.Untold ((s.resolve o).andThen fun c s => (s.lock c).andThen fun cell s => next c cell s) := by
  rcases s.heap.access o with hgone | ⟨c, hlink, hclosed⟩ | ⟨c, cell, hopens⟩
  · rw [access_of_gone hgone]
    exact .inr (fails_report _ s)
  · rw [access_of_barred hlink hclosed]
    exact .inr (fails_of_still (.refl s))
  · rw [access_of_opens hopens]
    exact hopen c cell hopens

theorem untold_retain (s : State) (o : ObjectId) : s.Untold (s.retain o) := by
  refine untold_access s o fun c cell hopens => ?_
  have hretain := retain_of_opens hopens
  rw [retain, access_of_opens hopens] at hretain
  rw [hretain]
  split
  · exact .inr (fails_report _ s)
  · exact .inl ⟨_, _, rfl⟩

theorem untold_release (s : State) (o : ObjectId) : s.Untold (s.release o) := by
  refine untold_access s o fun c cell hopens => ?_
  have hrelease := release_of_opens hopens
  rw [release, access_of_opens hopens] at hrelease
  rw [hrelease]
  split
  · exact .inr (fails_report _ s)
  · split <;> exact .inl ⟨_, _, rfl⟩

theorem untold_count (s : State) (o : ObjectId) : s.Untold (s.count o) :=
  untold_access s o fun _ _ _ => .inl ⟨_, _, rfl⟩

/-- Asking whether a reference is the only one leaves no trace, come back or not. -/
theorem fails_isUnique (s : State) (o : ObjectId) : s.Fails (s.isUnique o).state := by
  rcases s.heap.access o with hgone | ⟨c, hlink, hclosed⟩ | ⟨c, cell, hopens⟩
  · rw [isUnique, access_of_gone hgone]
    exact fails_report _ s
  · rw [isUnique, access_of_barred hlink hclosed]
    exact fails_of_still (.refl s)
  · rw [isUnique_of_opens hopens]
    exact fails_of_still (.refl s)

theorem untold_allocate (s : State) (provider : Option AllocatorId) (size : UInt64)
    (contents : Contents) (finalizer : Option Finalizer) :
    s.Untold (s.allocate provider size contents finalizer) := by
  unfold allocate
  cases Layout.ofPayload? size with
  | none =>
    obtain ⟨fs, hfs⟩ := fails_report (α := ObjectId) (.layoutOverflow size) s
    dsimp only
    cases hout : (s.report (.layoutOverflow size) : Outcome ObjectId) with
    | returned o t => exact .inl ⟨o, t, rfl⟩
    | unwound cause t =>
      rw [hout] at hfs
      refine .inr ⟨fs, ?_⟩
      have hthrown := hfs.trans (.still (still_discard finalizer t))
      rwa [List.append_nil] at hthrown
    | halted halt t =>
      rw [hout] at hfs
      exact .inr ⟨fs, hfs⟩
  | some layout =>
    have hstill := still_requestRegion provider layout s
    dsimp only
    cases hrequest : s.requestRegion provider layout with
    | returned granted t =>
      rw [hrequest] at hstill
      cases granted with
      | true => exact .inl ⟨_, _, rfl⟩
      | false => exact .inr (fails_of_still hstill)
    | unwound cause t | halted halt t =>
      rw [hrequest] at hstill
      exact .inr (fails_of_still hstill)

end State

/-! ### Sessions -/

theorem Step.not_byHand_of_plain {step : Step} (h : step.plain = true) : (!step.byHand) = true := by
  cases step with
  | assemble _ _ _ | reinstall _ _ | newCell _ _ => cases h
  | act action =>
    cases action with
    | object action =>
      cases action with
      | clearSlot _ | forceCount _ _ | freeCell _ => cases h
      | _ => rfl
    | _ => rfl
  | _ => rfl

/-- What the texts of a session say, taken into records or not. -/
def Stage.written (st : Stage) : List String :=
  (if st.state.logger.sink = .capture then st.records.flatMap (·.lines) else []) ++
    (st.state.logger.written.map Log.Line.text).reverse

/-- How a state writes what is done, and what it tells of faults. -/
def State.manner (s : State) : (Log.Level × Log.Format × Log.Sink) × Option Reporter :=
  (s.logger.manner, s.faults.reporter)

theorem State.of_manner {s t : State} (h : t.manner = s.manner) :
    t.logger.level = s.logger.level ∧ t.logger.format = s.logger.format ∧
      t.logger.sink = s.logger.sink ∧ t.faults.reporter = s.faults.reporter :=
  ⟨congrArg (·.1.1) h, congrArg (·.1.2.1) h, congrArg (·.1.2.2) h, congrArg Prod.snd h⟩

/-- What is told of an object is so. -/
def Fate.Holds (h : Heap) (o : ObjectId) : Fate → Prop
  | unborn => h.object? o = none
  | live count => h.count? o = some count
  | gone => h.object? o ≠ none ∧ h.link? o = none

namespace Machine

variable {m m' : Machine} {ds : List Deed}

theorem Proceeds.manner (h : m.Proceeds ds m') : m'.state.manner = m.state.manner := by
  unfold State.manner
  cases h with
  | goes h => rw [h.manner, h.reporter]
  | finishes t top popped h => rw [h, State.logger_finish, State.faults_finish]

theorem Proceeds.written (h : m.Proceeds ds m') (hlevel : m.state.logger.level = .trace) :
    m'.state.logger.written =
      ((Deed.journal m.state.faults.reporter ds).map
        (Log.Line.mk m.state.logger.format)).reverse ++ m.state.logger.written := by
  cases h with
  | goes h => exact h.written hlevel
  | finishes t top popped h =>
    rw [h, State.logger_finish]
    rfl

theorem Proceeds.story (h : m.Proceeds ds m') (hst : m.state.Standing (teardowns m.stack))
    {reporter : Option Reporter} {o : ObjectId} {tale : List (Transition × UInt32)}
    (hstory : Story tale (m.state.heap.fate o)) :
    Story (tale ++ Log.Entry.tales o (Deed.journal reporter ds)) (m'.state.heap.fate o) := by
  cases h with
  | goes h => exact h.story hst.linked hstory
  | finishes t top popped h =>
    have ht : t ∈ teardowns m.stack := by
      rw [top, teardowns_teardown]
      exact List.mem_cons_self
    rw [h, State.fate_finish hst ht]
    exact (List.append_nil tale).symm ▸ hstory

end Machine

namespace Session

variable {session : Session} {s t : State} {n : Nat} {ds : List Deed}

/-- The deeds that led from the start of a session to a stage, in order. Between the transitions of
its machines nothing is done. -/
inductive Chronicle (session : Session) (s : State) : Nat → List Deed → Prop where
  | start : Chronicle session s 0 []
  | passes {n : Nat} {ds : List Deed} (h : Chronicle session s n ds)
    (apart : ∀ m m', (session.stage s n).position = .during m → m.next? ≠ some m') :
    Chronicle session s (n + 1) ds
  | moves {n : Nat} {ds ds' : List Deed} (h : Chronicle session s n ds) {m m' : Machine}
    (during : (session.stage s n).position = .during m) (next : m.next? = some m')
    (proceeds : m.Proceeds ds' m') : Chronicle session s (n + 1) (ds ++ ds')

/-- What a step has written is as it was once its record is made. -/
theorem written_conclude (session : Session) (records : List Record) (rest : List Step)
    (result : Result) (m : Machine) :
    (session.conclude records rest result m.state).written =
      (Stage.mk records rest (.during m)).written := by
  have hflat (r : Record) : (records ++ [r]).flatMap (·.lines) =
      records.flatMap (·.lines) ++ r.lines := by simp
  cases htakes : session.takesLines <;> cases hsink : m.state.logger.sink <;>
    simp [Stage.written, Stage.state, conclude, record, htakes, hsink, hflat, State.onLogger,
      Log.Logger.written, Log.Logger.sent, Log.Logger.clearCaptured, Log.Logger.capturedTexts]

theorem heap_record (session : Session) (result : Result) (s : State) :
    (session.record result true s).2.heap = s.heap := by
  unfold record
  split <;> rfl

theorem manner_record (session : Session) (result : Result) (s : State) :
    (session.record result true s).2.manner = s.manner := by
  unfold record
  split <;> rfl

/-- Between transitions of machines nothing happens that matters to the journal. -/
theorem stage_of_apart
    (apart : ∀ m m', (session.stage s n).position = .during m → m.next? ≠ some m') :
    (session.stage s (n + 1)).state.heap = (session.stage s n).state.heap ∧
      (session.stage s (n + 1)).state.manner = (session.stage s n).state.manner ∧
      (session.stage s (n + 1)).written = (session.stage s n).written := by
  cases hn : session.next? (session.stage s n) with
  | none =>
    rw [stage_succ_of_rest hn]
    exact ⟨rfl, rfl, rfl⟩
  | some st =>
    rw [stage_succ_of_next? hn]
    generalize session.stage s n = st' at apart hn
    cases advances_of_next? hn with
    | begins records rest t step => exact ⟨rfl, rfl, rfl⟩
    | answers records rest t answer =>
      exact ⟨heap_record session _ t, manner_record session _ t,
        written_conclude session records rest _ ⟨t, .answer answer, []⟩⟩
    | fails records rest t cause =>
      exact ⟨heap_record session _ t, manner_record session _ t,
        written_conclude session records rest _ ⟨t, .unwind cause, []⟩⟩
    | moves records rest hm => exact absurd hm (apart _ _ rfl)

theorem written_moves {m m' : Machine} (records : List Record) (rest : List Step)
    (hproceeds : m.Proceeds ds m') (hlevel : m.state.logger.level = .trace) :
    (Stage.mk records rest (.during m')).written = (Stage.mk records rest (.during m)).written ++
      (Deed.journal m.state.faults.reporter ds).map
        fun e => Log.Line.text ⟨m.state.logger.format, e⟩ := by
  obtain ⟨-, -, hsink, -⟩ := State.of_manner hproceeds.manner
  simp only [Stage.written, Stage.state, hsink, hproceeds.written hlevel, List.map_append,
    List.map_reverse, List.reverse_append, List.reverse_reverse, List.map_map, List.append_assoc]
  rfl

theorem stage_of_during {m : Machine} (hd : (session.stage s n).position = .during m) :
    session.stage s n = ⟨(session.stage s n).records, (session.stage s n).rest, .during m⟩ := by
  rw [← hd]

theorem stage_of_moves {m m' : Machine} (hd : (session.stage s n).position = .during m)
    (hm : m.next? = some m') : session.stage s (n + 1) =
      ⟨(session.stage s n).records, (session.stage s n).rest, .during m'⟩ := by
  refine stage_succ_of_next? ?_
  rw [stage_of_during hd]
  exact next?_during hm

theorem state_of_during {m : Machine} (hd : (session.stage s n).position = .during m) :
    (session.stage s n).state = m.state := by
  simp only [Stage.state, hd]

section Stages

variable (h : s.Fresh) (hplain : ∀ step ∈ session.steps, step.every Step.plain = true)
include h hplain

theorem exists_chronicle (n : Nat) : ∃ ds, session.Chronicle s n ds := by
  induction n with
  | zero => exact ⟨[], .start⟩
  | succ n ih =>
    obtain ⟨ds, hds⟩ := ih
    by_cases hmoves : ∃ m m', (session.stage s n).position = .during m ∧ m.next? = some m'
    · obtain ⟨m, m', hd, hm⟩ := hmoves
      obtain ⟨ds', hproceeds⟩ := Machine.proceeds_next
        (fun step hstep => performs_every h hplain hd hstep) hm
      exact ⟨ds ++ ds', hds.moves hd hm hproceeds⟩
    · exact ⟨ds, hds.passes fun m m' hd hm => hmoves ⟨m, m', hd, hm⟩⟩

end Stages

namespace Chronicle

theorem manner (h : session.Chronicle s n ds) : (session.stage s n).state.manner = s.manner := by
  induction h with
  | start => rfl
  | passes _ apart ih => exact (stage_of_apart apart).2.1.trans ih
  | moves _ during next proceeds ih =>
    rw [stage_of_moves during next]
    rw [state_of_during during] at ih
    exact proceeds.manner.trans ih

/-- **The log is what the deeds write.** -/
theorem written (h : session.Chronicle s n ds) (hlevel : s.logger.level = .trace) :
    (session.stage s n).written = (session.stage s 0).written ++
      (Deed.journal s.faults.reporter ds).map fun e => Log.Line.text ⟨s.logger.format, e⟩ := by
  induction h with
  | start => exact (List.append_nil _).symm
  | passes _ apart ih => exact (stage_of_apart apart).2.2.trans ih
  | @moves n ds ds' before m m' during next proceeds ih =>
    have hmanner := before.manner
    rw [state_of_during during] at hmanner
    obtain ⟨hlevel', hformat, -, hreporter⟩ := State.of_manner hmanner
    rw [stage_of_moves during next, written_moves _ _ proceeds (hlevel'.trans hlevel),
      ← stage_of_during during, ih, hformat, hreporter, List.append_assoc, ← List.map_append]
    simp only [Deed.journal, List.flatMap_append]

/-- **For every object the log tells the story that ends with what has become of it.** -/
theorem story (hfresh : s.Fresh)
    (hplain : ∀ step ∈ session.steps, step.every Step.plain = true)
    (h : session.Chronicle s n ds) (reporter : Option Reporter) (o : ObjectId) :
    Story (Log.Entry.tales o (Deed.journal reporter ds))
      ((session.stage s n).state.heap.fate o) := by
  have hhand (step : Step) (hstep : step ∈ session.steps) : step.every (!·.byHand) = true :=
    step.every_mono (fun _ => Step.not_byHand_of_plain) (hplain step hstep)
  induction h with
  | start =>
    have hheap : (session.stage s 0).state.heap = {} := hfresh.heap
    rw [hheap]
    exact .untold
  | passes _ apart ih =>
    rw [(stage_of_apart apart).1]
    exact ih
  | @moves n ds ds' before m m' during next proceeds ih =>
    rw [state_of_during during] at ih
    have hjournal : Deed.journal reporter (ds ++ ds') =
        Deed.journal reporter ds ++ Deed.journal reporter ds' := List.flatMap_append
    rw [stage_of_moves during next, hjournal, Log.Entry.tales_append]
    exact proceeds.story (standing_stage hfresh hhand during) ih

end Chronicle

/-- Between steps nothing is being torn down. -/
theorem holds_fate (hfresh : s.Fresh) (hd : (session.stage s n).position = .between t)
    (o : ObjectId) : (t.heap.fate o).Holds t.heap o := by
  have hstate : (session.stage s n).state = t := by simp only [Stage.state, hd]
  have hstack : (session.stage s n).stack = [] := by simp only [Stage.stack, hd]
  have hsound := session.sound_stage hfresh n
  rw [hstack, teardowns_nil] at hsound
  have halive (c : CellId) (hl : t.heap.link? o = some c) :
      ∃ cell, t.heap.cell? c = some cell ∧ cell.locked = false := by
    rw [← hstate] at hl ⊢
    obtain ⟨cell, hc⟩ := hsound.alive o c hl
    refine ⟨cell, hc, ?_⟩
    cases hlocked : cell.locked with
    | false => rfl
    | true =>
      obtain ⟨u, hu, _⟩ := (hsound.locked c cell hc).1 hlocked
      cases hu
  by_cases hlt : o < t.heap.objects.length
  · cases hl : t.heap.link? o with
    | none =>
      have hgone : t.heap.fate o = .gone := by
        unfold Heap.fate Heap.governing?
        rw [if_pos hlt, hl]
        rfl
      rw [hgone]
      refine ⟨?_, hl⟩
      unfold Heap.object?
      rw [List.getElem?_eq_getElem hlt]
      exact Option.some_ne_none _
    | some c =>
      obtain ⟨cell, hc, hunlocked⟩ := halive c hl
      have hopens : t.heap.Opens o c cell := ⟨hl, hc, hunlocked⟩
      rw [hopens.fate_eq]
      show t.heap.count? o = some cell.count
      unfold Heap.count?
      rw [hopens.governing?_eq]
      rfl
  · have hunborn : t.heap.fate o = .unborn := if_neg hlt
    rw [hunborn]
    exact List.getElem?_eq_none (Nat.le_of_not_lt hlt)

/-- What the log of a session is good for. -/
structure KeepsJournal (session : Session) (s : State) : Prop where
  chronicled (n : Nat) : ∃ ds, session.Chronicle s n ds
  /-- What was written are the entries of what was done, in order and without a gap. -/
  written (n : Nat) (ds : List Deed) (chronicle : session.Chronicle s n ds) :
    (session.stage s n).written = (session.stage s 0).written ++
      (Deed.journal s.faults.reporter ds).map fun e => Log.Line.text ⟨s.logger.format, e⟩
  /-- What they tell of an object at any point, inside of finalizers too, is one story. -/
  story (n : Nat) (ds : List Deed) (chronicle : session.Chronicle s n ds) (o : ObjectId) :
    Story (Log.Entry.tales o (Deed.journal s.faults.reporter ds))
      ((session.stage s n).state.heap.fate o)
  /-- Between steps they are enough to know every count, and every object that is gone. -/
  replays (n : Nat) (ds : List Deed) (chronicle : session.Chronicle s n ds) (t : State)
    (between : (session.stage s n).position = .between t) (o : ObjectId) :
    (Fate.replay (Deed.journal s.faults.reporter ds) o).Holds t.heap o
  /-- An operation that comes back writes the entries of its deed. -/
  succeeds (n : Nat) (d : Deed) (t : State) (enacts : (session.stage s n).state.Enacts d t) :
    t.logger.written = ((d.entries s.faults.reporter).map (Log.Line.mk s.logger.format)).reverse ++
      (session.stage s n).state.logger.written
  /-- One that does not come back writes nothing but faults. -/
  allocate (n : Nat) (provider : Option AllocatorId) (size : UInt64) (contents : Contents)
    (finalizer : Option Finalizer) : (session.stage s n).state.Untold
      ((session.stage s n).state.allocate provider size contents finalizer)
  retain (n : Nat) (o : ObjectId) :
    (session.stage s n).state.Untold ((session.stage s n).state.retain o)
  release (n : Nat) (o : ObjectId) :
    (session.stage s n).state.Untold ((session.stage s n).state.release o)
  count (n : Nat) (o : ObjectId) :
    (session.stage s n).state.Untold ((session.stage s n).state.count o)
  isUnique (n : Nat) (o : ObjectId) :
    (session.stage s n).state.Fails ((session.stage s n).state.isUnique o).state

/-- **The trace log is a faithful journal** of a session in which counts change only by
operations. -/
theorem keepsJournal (h : s.Fresh) (hlevel : s.logger.level = .trace)
    (hplain : ∀ step ∈ session.steps, step.every Step.plain = true) : session.KeepsJournal s where
  chronicled := exists_chronicle h hplain
  written n ds chronicle := chronicle.written hlevel
  story n ds chronicle o := chronicle.story h hplain _ o
  replays n ds chronicle t between o := by
    have hstory := chronicle.story h hplain s.faults.reporter o
    have hstate : (session.stage s n).state = t := by simp only [Stage.state, between]
    rw [hstory.replay_eq, hstate]
    exact holds_fate h between o
  succeeds n d t enacts := by
    obtain ⟨ds, hds⟩ := exists_chronicle h hplain n
    obtain ⟨hlevel', hformat, -, hreporter⟩ := State.of_manner hds.manner
    have hwritten := (State.Does.deed enacts).written (hlevel'.trans hlevel)
    rw [hformat, hreporter, Deed.journal, List.flatMap_singleton] at hwritten
    exact hwritten
  allocate n := State.untold_allocate _
  retain n := State.untold_retain _
  release n := State.untold_release _
  count n := State.untold_count _
  isUnique n := State.fails_isUnique _

/-- A state that traces, inside a larger process. -/
def traced : State :=
  {State.embedded with logger := {level := .trace, sink := .capture}}

/-- Three finalizers inside one another, and then a fourth object that is kept. A release of the
first one fails. -/
def recounted : Session where
  steps := nested.steps ++ keeping "spare" [] ++
    [.call .retain (some "spare") 2 .native, .attempt (lettingGo "outer"),
      .act (.object (.count (some "spare") .native))]

/-- In the end the log tells that three objects are gone and that the fourth has three
references. -/
theorem keepsJournal_recounted :
    ∃ ds, recounted.Chronicle traced 59 ds ∧
      (recounted.stage traced 59).written =
        (Deed.journal none ds).map (fun e => Log.Line.text ⟨.plain, e⟩) ∧
      Fate.replay (Deed.journal none ds) 0 = .gone ∧ Fate.replay (Deed.journal none ds) 2 = .gone ∧
      Fate.replay (Deed.journal none ds) 3 = .live 3 ∧
      Fate.replay (Deed.journal none ds) 4 = .unborn := by
  have h := recounted.keepsJournal (s := traced) ⟨rfl, rfl, rfl⟩ rfl (by decide)
  obtain ⟨ds, hds⟩ := h.chronicled 59
  have hfate (o : ObjectId) := (h.story 59 ds hds o).replay_eq
  refine ⟨ds, hds, h.written 59 ds hds, ?_, ?_, ?_, ?_⟩
  · exact (hfate 0).trans (by decide)
  · exact (hfate 2).trans (by decide)
  · exact (hfate 3).trans (by decide)
  · exact (hfate 4).trans (by decide)

end Session
end Custody
