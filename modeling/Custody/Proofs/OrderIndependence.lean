import Custody.Proofs.LockDiscipline
import Custody.Proofs.Serving

/-! Threads that share objects, in whatever order they take turns.

Each call of a thread is one step of a session, since the lock of the object's cell makes it one.
A session that makes the calls in some order serves them one by one (`Session.runFrom_calls`), as
long as each finds an object to which there are references, and threads that follow the rules
leave each other such objects. What they come to is said by the threads alone
(`Session.accords`), so the order of their turns does not show in it: it shows only in what the
calls found on their way. -/
namespace Custody

/-! ### Schedules that are served -/

/-- The record of a call that found so many references, and of a teardown if it was the last. -/
structure Call.Noted (c : Call) (h : Heap) (found : Nat) (last : Prop) (record : Record) :
    Prop where
  result : record.result = .answered (c.answer found)
  told (teardown : last) : h.Told c.object (h.finalizerOf c.object) record.events
  silent (other : ¬ last) : record.events = []

/-- What a session has come to that served calls, starting from so many references to each
object. -/
structure State.Serves (s : State) (held : ObjectId → Nat) (retained released : Nat)
    (calls : Schedule) (out : List Record × Exit × State) : Prop where
  finished : out.2.1 = .finished
  progress : s.Progress (calls.after held) (retained + calls.made (.change .retain))
    (released + calls.made (.change .release)) out.2.2
  length : out.1.length = calls.length
  noted (before : Schedule) (c : Call) (rest : Schedule) (split : calls = before ++ c :: rest) :
    ∃ record, out.1[before.length]? = some record ∧
      c.Noted s.heap (before.after held c.object) (c.Last (before.after held c.object)) record

namespace Session

variable {session : Session} {s t : State} {calls : Schedule} {steps : List Step}

theorem unmoved_record (session : Session) (result : Result) (counted : Bool) (s : State) :
    s.Unmoved (session.record result counted s).2 := by
  unfold record
  split <;> exact ⟨rfl, rfl, rfl, rfl⟩

theorem runFrom_of_answer {step : Step} {answer : Answer} {u : State} {stack : List Frame}
    (h : runStep step t = ⟨u, .answer answer, stack⟩) :
    session.runFrom t (step :: steps) =
      ((session.record (.answered answer) true u).1 ::
          (session.runFrom (session.record (.answered answer) true u).2 steps).1,
        (session.runFrom (session.record (.answered answer) true u).2 steps).2) := by
  simp only [runFrom, h]

/-- **A session serves calls one by one.** -/
theorem runFrom_calls {held : ObjectId → Nat} {retained released : Nat}
    (hmade : List.Forall₂ (Call.MadeBy s.names) calls steps) (hrest : s.heap.Resting)
    (h : s.Progress held retained released t) (hlive : calls.Live held)
    (hcounted : ∀ o, 0 < held o → s.heap.countOf o ≠ 0)
    (hroom : ∀ o, held o + calls.retains o ≤ maxCount.toNat)
    (hrecording : ∀ c ∈ calls, s.heap.Recording c.object (s.heap.finalizerOf c.object)) :
    s.Serves held retained released calls (session.runFrom t steps) := by
  induction hmade generalizing held retained released t with
  | nil => exact ⟨rfl, h, rfl, fun before c rest h => by cases before <;> cases h⟩
  | @cons c step rest steps hc _ ih =>
    obtain ⟨name, hname, rfl⟩ := hc
    obtain ⟨hpos, hlater⟩ := hlive
    obtain ⟨hrecordingc, hrecordings⟩ := List.forall_mem_cons.1 hrecording
    have hroomc : held c.object + (if c.kind = .change .retain then 1 else 0) ≤ maxCount.toNat :=
      Nat.le_trans (Nat.add_le_add_left (Schedule.if_retain_le c rest) _) (hroom c.object)
    obtain ⟨u, hrun, hmoved⟩ :=
      h.serve hrest hpos (hcounted c.object hpos) hname hroomc hrecordingc
    have hunmoved := session.unmoved_record (.answered (c.answer (held c.object))) true u
    have hout := ih (hmoved.progress.unmoved hunmoved) hlater
      (fun o ho => hcounted o (Call.pos_of_on_pos hpos ho))
      (fun o => Nat.le_trans (Schedule.on_add_retains_le hpos o) (hroom o)) hrecordings
    rw [runFrom_of_answer hrun]
    refine ⟨hout.finished, ?_, congrArg (· + 1) hout.length, fun before d later hd => ?_⟩
    · rw [Schedule.made_cons, Schedule.made_cons, ← Nat.add_assoc, ← Nat.add_assoc]
      exact hout.progress
    · cases before with
      | nil =>
        cases hd
        refine ⟨_, rfl, rfl, fun hlast => ?_, fun hother => ?_⟩
        · obtain ⟨told, htold, hevents⟩ := hmoved.told hlast
          show s.heap.Told c.object _ u.events.reverse
          rwa [hevents, List.append_nil, List.reverse_reverse]
        · exact congrArg List.reverse (hmoved.silent hother)
      | cons b before =>
        cases hd
        exact hout.noted before d later rfl

end Session

/-! ### Threads that share a state -/

/-- All calls of some threads, thread after thread. -/
def callsOf (threads : List Thread) : Schedule :=
  (threads.map (·.calls)).flatten

/-- Threads and an outside owner share the objects of a state, and follow the rules. -/
structure State.Shared (s : State) (outside : ObjectId → Nat) (threads : List Thread) : Prop where
  divided : Divided s.heap.countOf outside threads
  follows : ∀ t ∈ threads, Follows outside t.share t.calls
  room (o : ObjectId) : s.heap.countOf o + (callsOf threads).retains o ≤ maxCount.toNat
  recording : ∀ c ∈ callsOf threads, s.heap.Recording c.object (s.heap.finalizerOf c.object)

/-- How many references to an object are left once so many calls have been made. -/
def State.remaining (s : State) (calls : Schedule) (o : ObjectId) : Nat :=
  s.heap.countOf o + calls.retains o - calls.releases o

theorem State.remaining_congr {s : State} {calls order : Schedule} (h : calls.Perm order) :
    s.remaining calls = s.remaining order := by
  funext o
  unfold remaining Schedule.retains Schedule.releases
  rw [h.countP_eq, h.countP_eq]

theorem Schedule.Live.after_eq {s : State} {calls : Schedule} (h : calls.Live s.heap.countOf) :
    calls.after s.heap.countOf = s.remaining calls := by
  funext o
  have := h.tally o
  unfold State.remaining
  omega

/-- What has come of threads that made their calls in some order. Only `noted` depends on it. -/
structure State.Accords (s : State) (threads : List Thread) (calls : Schedule)
    (out : List Record × Exit × State) : Prop where
  finished : out.2.1 = .finished
  /-- No call reports a fault. -/
  faults : out.2.2.faults = s.faults
  answered : out.1.length = calls.length
  /-- Each call finds what the calls before it have left, and the last release of an object that
  none are left to is the only call that tears it down. -/
  noted (before : Schedule) (c : Call) (rest : Schedule) (split : calls = before ++ c :: rest) :
    ∃ record, out.1[before.length]? = some record ∧
      c.Noted s.heap (s.remaining before c.object)
        (c.kind = .change .release ∧ s.remaining (callsOf threads) c.object = 0 ∧
          rest.releases c.object = 0) record
  /-- No update is lost. -/
  counts (o : ObjectId) : out.2.2.heap.countOf o = s.remaining (callsOf threads) o ∧
    (callsOf threads).releases o ≤ s.heap.countOf o + (callsOf threads).retains o
  slots (o : ObjectId) (counted : 0 < s.heap.countOf o) :
    out.2.2.heap.link? o = none ↔ s.remaining (callsOf threads) o = 0
  heap : s.heap.Recounts (s.remaining (callsOf threads)) out.2.2.heap
  statistics : out.2.2.statistics = s.statistics.plus ((callsOf threads).made (.change .retain))
    ((callsOf threads).made (.change .release)) (s.heap.spent (s.remaining (callsOf threads)))

namespace Session

variable {session start : Session} {s₀ s : State} {k : Nat} {outside : ObjectId → Nat}
  {threads : List Thread} {calls : Schedule}

/-- Between steps a heap is at rest. -/
theorem resting_between (hfresh : s₀.Fresh) (h : (start.stage s₀ k).position = .between s) :
    s.heap.Resting := by
  have hsound := start.sound_stage hfresh k
  have hstate : (start.stage s₀ k).state = s := by simp [Stage.state, h]
  have hstack : (start.stage s₀ k).stack = [] := by simp [Stage.stack, h]
  rw [hstack] at hsound
  subst hstate
  refine ⟨fun c cell hc => ?_, hsound.single⟩
  cases hlocked : cell.locked with
  | false => rfl
  | true =>
    obtain ⟨t, ht, _⟩ := (hsound.locked c cell hc).1 hlocked
    cases ht

/-- Threads that share a state find it as they have left it, whatever turns they take. -/
theorem accords (hrest : s.heap.Resting) (hshared : s.Shared outside threads)
    (hturns : Interleaves (threads.map (·.calls)) calls)
    (hmade : List.Forall₂ (Call.MadeBy s.names) calls session.steps) :
    s.Accords threads calls (session.runFrom s session.steps) := by
  have hperm : calls.Perm (callsOf threads) := hturns.perm
  have hretains (o : ObjectId) : calls.retains o = (callsOf threads).retains o := hperm.countP_eq _
  have hreleases (o : ObjectId) : calls.releases o = (callsOf threads).releases o :=
    hperm.countP_eq _
  have hkind (kind : CallKind) : calls.made kind = (callsOf threads).made kind := hperm.countP_eq _
  have hlive : calls.Live s.heap.countOf := hturns.live hshared.divided hshared.follows
  have hout : s.Serves s.heap.countOf 0 0 calls (session.runFrom s session.steps) :=
    runFrom_calls hmade hrest (.refl s) hlive (fun o ho => Nat.ne_of_gt ho)
      (fun o => hretains o ▸ hshared.room o) fun c hc => hshared.recording c (hperm.mem_iff.1 hc)
  have hafter : calls.after s.heap.countOf = s.remaining (callsOf threads) :=
    hlive.after_eq.trans (State.remaining_congr hperm)
  obtain ⟨hheap, hstatistics, hfaults, _⟩ := hout.progress
  rw [hafter] at hheap hstatistics
  refine ⟨hout.finished, hfaults, hout.length, fun before c rest hsplit => ?_, fun o => ⟨?_, ?_⟩,
    fun o ho => hheap.link?_eq_none_iff (Nat.ne_of_gt ho), hheap, ?_⟩
  · obtain ⟨record, hrecord, hnoted⟩ := hout.noted before c rest hsplit
    refine ⟨record, hrecord, ?_⟩
    rw [hsplit] at hlive hafter
    have hfound : before.after s.heap.countOf c.object = s.remaining before c.object :=
      congrFun hlive.earlier.after_eq c.object
    have hlast : c.Last (before.after s.heap.countOf c.object) ↔ c.kind = .change .release ∧
        s.remaining (callsOf threads) c.object = 0 ∧ rest.releases c.object = 0 := by
      rw [← hafter]
      exact and_congr_right hlive.last_iff
    rw [← hfound]
    exact ⟨hnoted.result, fun h => hnoted.told (hlast.2 h), fun h => hnoted.silent (mt hlast.1 h)⟩
  · refine hheap.countOf_eq (fun hpos hzero => ?_) ?_
    · obtain ⟨hnone, _⟩ := hlive.of_zero hzero
      unfold State.remaining at hpos
      rw [hzero, ← hretains, hnone] at hpos
      omega
    · have := hshared.room o
      unfold State.remaining
      omega
  · have := hlive.tally o
    rw [hretains, hreleases] at this
    omega
  · rw [hstatistics, Nat.zero_add, Nat.zero_add, hkind, hkind]

/-- **The order in which threads take turns does not matter.** -/
theorem orderIndependent (hfresh : s₀.Fresh) (hbetween : (start.stage s₀ k).position = .between s)
    (hshared : s.Shared outside threads) (hturns : Interleaves (threads.map (·.calls)) calls)
    (hmade : List.Forall₂ (Call.MadeBy s.names) calls session.steps) :
    s.Accords threads calls (session.runFrom s session.steps) ∧
      ∀ (other : Session) (order : Schedule), Interleaves (threads.map (·.calls)) order →
        List.Forall₂ (Call.MadeBy s.names) order other.steps →
        (other.runFrom s other.steps).2.2.heap = (session.runFrom s session.steps).2.2.heap ∧
          (other.runFrom s other.steps).2.2.statistics =
            (session.runFrom s session.steps).2.2.statistics := by
  have hrest := resting_between hfresh hbetween
  have haccords := accords hrest hshared hturns hmade
  refine ⟨haccords, fun other order hturns' hmade' => ?_⟩
  have haccords' := accords hrest hshared hturns' hmade'
  exact ⟨haccords'.heap.unique haccords.heap,
    haccords'.statistics.trans haccords.statistics.symm⟩

/-- An object with two references and a finalizer that looks at the logger. -/
def shelf : Session where
  steps :=
    [.allocate "x" 8 (some ⟨.native, "gone", [.act (.log .state)]⟩) none .native,
      .call .retain (some "x") 2 .native]

/-- Two threads that own a reference each. The first one takes another for a while. -/
def readers : List Thread :=
  [⟨fun o => if o = 0 then 1 else 0, [⟨.change .retain, 0, .native⟩, ⟨.count, 0, .foreign⟩,
      ⟨.change .release, 0, .native⟩, ⟨.change .release, 0, .foreign⟩]⟩,
    ⟨fun o => if o = 0 then 1 else 0, [⟨.isUnique, 0, .native⟩, ⟨.change .release, 0, .native⟩]⟩]

/-- The second thread has its turns while the first one is at work. -/
def readersMixed : Schedule :=
  [⟨.change .retain, 0, .native⟩, ⟨.isUnique, 0, .native⟩, ⟨.count, 0, .foreign⟩,
    ⟨.change .release, 0, .native⟩, ⟨.change .release, 0, .native⟩, ⟨.change .release, 0, .foreign⟩]

/-- A session that makes calls on what "x" stands for. -/
def asking (calls : Schedule) : Session where
  steps := calls.map (·.step "x")

theorem finalizerOf_shelf : (shelf.stage .embedded 8).state.heap.finalizerOf 0 =
    some (.routine ⟨.native, "gone", [.act (.log .state)]⟩) := rfl

theorem shared_readers : (shelf.stage .embedded 8).state.Shared (fun _ => 0) readers := by
  have hcounted (o : ObjectId) (ho : o ≠ 0) :
      (shelf.stage .embedded 8).state.heap.countOf o = 0 := by
    refine Heap.countOf_of_length_le (Nat.le_trans ?_ (Nat.one_le_iff_ne_zero.2 ho))
    decide
  refine ⟨fun o => ?_, by decide, fun o => ?_, fun c hc => ?_⟩
  · by_cases ho : o = 0
    · subst ho
      decide
    · rw [hcounted o ho]
      simp [readers, ho]
  · by_cases ho : o = 0
    · subst ho
      decide
    · rw [hcounted o ho, Nat.zero_add]
      exact Nat.le_trans List.countP_le_length (by decide)
  · have hobject : c.object = 0 := by
      revert c
      decide
    rw [hobject, finalizerOf_shelf]
    exact .routine _ (by simp [Step.records_log])

theorem interleaves_readers : Interleaves (readers.map (·.calls)) readersMixed :=
  @Interleaves.turn _ [] _ _ _ _ <| @Interleaves.turn _ [_] _ _ _ _ <|
    @Interleaves.turn _ [] _ _ _ _ <| @Interleaves.turn _ [] _ _ _ _ <|
    @Interleaves.turn _ [_] _ _ _ _ <| @Interleaves.turn _ [] _ _ _ _ <|
    .done (by decide)

theorem madeBy_asking (calls : Schedule) (h : ∀ c ∈ calls, c.object = 0) :
    List.Forall₂ (Call.MadeBy (shelf.stage .embedded 8).state.names) calls (asking calls).steps :=
  Call.forall₂_madeBy fun c hc => by
    rw [h c hc]
    rfl

/-- The first thread makes the last call and tears the object down, in a heap that would have come
out the same if it had finished before the second one started. -/
theorem orderIndependent_readers :
    ((asking readersMixed).runFrom (shelf.stage .embedded 8).state
        (asking readersMixed).steps).2.2.heap.link? 0 = none ∧
      (∃ record, ((asking readersMixed).runFrom (shelf.stage .embedded 8).state
          (asking readersMixed).steps).1[5]? = some record ∧
        (shelf.stage .embedded 8).state.heap.Told 0
          (some (.routine ⟨.native, "gone", [.act (.log .state)]⟩)) record.events) ∧
      ((asking (callsOf readers)).runFrom (shelf.stage .embedded 8).state
          (asking (callsOf readers)).steps).2.2.heap =
        ((asking readersMixed).runFrom (shelf.stage .embedded 8).state
          (asking readersMixed).steps).2.2.heap := by
  have h := orderIndependent State.fresh_embedded
    (rfl : (shelf.stage .embedded 8).position = .between (shelf.stage .embedded 8).state)
    shared_readers interleaves_readers (madeBy_asking readersMixed (by decide))
  obtain ⟨record, hrecord, hnoted⟩ :=
    h.1.noted (readersMixed.take 5) ⟨.change .release, 0, .foreign⟩ [] rfl
  refine ⟨(h.1.slots 0 (by decide)).2 (by decide), ⟨record, hrecord, ?_⟩, ?_⟩
  · rw [← finalizerOf_shelf]
    exact hnoted.told (by decide)
  · exact (h.2 (asking (callsOf readers)) _ (.flatten _) (madeBy_asking _ (by decide))).1

end Session

/-! ### Races -/

/-- A retain or a release by a thread of a race. -/
def CountCall.of (call : CountCall) (o : ObjectId) : Call :=
  ⟨.change call, o, .native⟩

/-- The calls of all threads of a race, thread after thread. -/
def raceCalls (o : ObjectId) (waiting : List (List CountCall)) : Schedule :=
  waiting.flatten.map (·.of o)

/-- Threads of a race that follow the rules all come to their ends. -/
theorem Machine.run_runThreads {s t : State} {held : ObjectId → Nat} {retained released : Nat}
    {o : ObjectId} {waiting : List (List CountCall)} (stack : List Frame) (ended : List Bool)
    (hrest : s.heap.Resting)
    (h : s.Progress held retained released t) (hlive : (raceCalls o waiting).Live held)
    (hcounted : 0 < held o → s.heap.countOf o ≠ 0)
    (hroom : held o + (raceCalls o waiting).retains o ≤ maxCount.toNat)
    (hrecording : ∀ c ∈ raceCalls o waiting,
      s.heap.Recording c.object (s.heap.finalizerOf c.object)) :
    ∃ u, (runThreads o t stack waiting ended).run =
        run ⟨u, .answer (.flags (ended ++ List.replicate waiting.length true)), stack⟩ ∧
      s.Progress ((raceCalls o waiting).after held)
        (retained + (raceCalls o waiting).made (.change .retain))
        (released + (raceCalls o waiting).made (.change .release)) u := by
  induction waiting generalizing held retained released t ended with
  | nil => exact ⟨t, by simp [runThreads], h⟩
  | cons calls waiting ih =>
    induction calls generalizing held retained released t with
    | nil =>
      obtain ⟨u, hrun, hu⟩ := ih (ended ++ [true]) h hlive hcounted hroom hrecording
      refine ⟨u, ?_, hu⟩
      simp only [runThreads]
      rw [hrun]
      simp [List.replicate_succ]
    | cons call rest ihrest =>
      have hcalls : raceCalls o ((call :: rest) :: waiting) =
          call.of o :: raceCalls o (rest :: waiting) := rfl
      rw [hcalls] at hlive hroom hrecording ⊢
      obtain ⟨hpos, hlater⟩ := hlive
      obtain ⟨hrecordingc, hrecordings⟩ := List.forall_mem_cons.1 hrecording
      have hroomc : held o + (if (call.of o).kind = .change .retain then 1 else 0) ≤
          maxCount.toNat :=
        Nat.le_trans (Nat.add_le_add_left (Schedule.if_retain_le (call.of o) _) _) hroom
      obtain ⟨v, hcall, hmoved⟩ := h.run_change (c := call.of o) hrest hpos (hcounted hpos)
        (.thread rest o waiting ended :: stack) rfl hroomc hrecordingc
      obtain ⟨u, hrun, hu⟩ :=
        ihrest hmoved.progress hlater (fun _ => hcounted hpos)
          (Nat.le_trans (Schedule.on_add_retains_le hpos o) hroom) hrecordings
      rw [Schedule.made_cons, Schedule.made_cons, ← Nat.add_assoc, ← Nat.add_assoc]
      refine ⟨u, ?_, hu⟩
      calc (runThreads o t stack ((call :: rest) :: waiting) ended).run
          = (Machine.call call o t (.thread rest o waiting ended :: stack)).run := rfl
        _ = run ⟨v, .answer .done, .thread rest o waiting ended :: stack⟩ := hcall
        _ = (runThreads o v stack (rest :: waiting) ended).run := run_of_next? rfl
        _ = _ := hrun

/-- **A race is as good as any other order.** It lets every thread finish before the next one
starts, and leaves what any session leaves in which the threads take turns. -/
theorem Session.race_orderIndependent {start session : Session} {s₀ s : State} {k : Nat}
    {outside : ObjectId → Nat} {threads : List Thread} {calls : Schedule} {o : ObjectId}
    {name : String} {retains releases rounds : Nat} (hfresh : s₀.Fresh)
    (hbetween : (start.stage s₀ k).position = .between s) (hshared : s.Shared outside threads)
    (hname : s.names.objects.find? name = some o)
    (hcalls : threads.map (·.calls) = (List.replicate threads.length
      (Machine.threadCalls retains releases rounds)).map (·.map (·.of o)))
    (hturns : Interleaves (threads.map (·.calls)) calls)
    (hmade : List.Forall₂ (Call.MadeBy s.names) calls session.steps) :
    ∃ u, runStep (.race name threads.length retains releases rounds) s =
        ⟨u, .answer (.flags (List.replicate threads.length true)), []⟩ ∧
      u.heap = (session.runFrom s session.steps).2.2.heap ∧
      u.statistics = (session.runFrom s session.steps).2.2.statistics := by
  have hrest := resting_between hfresh hbetween
  have haccords := accords hrest hshared hturns hmade
  generalize hwaiting : List.replicate threads.length
    (Machine.threadCalls retains releases rounds) = waiting at hcalls
  have hall : raceCalls o waiting = callsOf threads := by
    unfold callsOf raceCalls
    rw [hcalls, List.map_flatten]
  have hlive : (callsOf threads).Live s.heap.countOf :=
    (Interleaves.flatten _).live hshared.divided hshared.follows
  have hbegun : s.Progress s.heap.countOf 0 0 {s with events := []} :=
    (State.Progress.refl s).unmoved ⟨rfl, rfl, rfl, rfl⟩
  obtain ⟨u, hrun, hu⟩ := Machine.run_runThreads [] [] hrest hbegun (hall ▸ hlive)
    (fun ho => Nat.ne_of_gt ho) (hall ▸ hshared.room o) (hall ▸ hshared.recording)
  have hlength : waiting.length = threads.length := by rw [← hwaiting, List.length_replicate]
  rw [hall, hlive.after_eq, Nat.zero_add, Nat.zero_add] at hu
  refine ⟨u, ?_, hu.heap.unique haccords.heap, hu.statistics.trans haccords.statistics.symm⟩
  calc runStep (.race name threads.length retains releases rounds) s
      = (Machine.runThreads o {s with events := []} [] waiting []).run := by
        refine (Machine.run_of_next? rfl).trans (congrArg Machine.run ?_)
        simp only [Machine.start, Machine.perform, hname, hwaiting]
    _ = Machine.run ⟨u, .answer (.flags (List.replicate threads.length true)), []⟩ := by
        rw [hrun, hlength, List.nil_append]
    _ = ⟨u, .answer (.flags (List.replicate threads.length true)), []⟩ :=
        Machine.run_of_rest rfl

end Custody
