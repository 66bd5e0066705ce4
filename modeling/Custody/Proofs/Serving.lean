import Mathlib.Data.List.Forall2
import Custody.Proofs.Recounting

/-! Calls as steps of a session.

A call is one step: it takes the lock of the object's cell, does its work and returns the lock,
and a finalizer that runs for the last release does so before the lock is gone. So a call is
served in one go (`State.Progress.serve`): it answers with the number of references it found, it
moves that number, and what it tells is what the finalizer told, if it was the last release. -/
namespace Custody

/-! ### Finalizers that only record -/

/-- What is counted, held and named is the same; the log and the events may differ. -/
structure State.Unmoved (s t : State) : Prop where
  heap : t.heap = s.heap
  statistics : t.statistics = s.statistics
  faults : t.faults = s.faults
  names : t.names = s.names

/-- A step that writes something down at most. -/
def Step.Records (step : Step) : Prop :=
  ∀ (s : State) (stack : List Frame), ∃ answer t,
    Machine.perform s stack step = ⟨t, .answer answer, stack⟩ ∧ s.Unmoved t ∧ t.events = s.events

theorem Step.records_log (a : LogAction) : (Step.act (.log a)).Records := by
  intro s stack
  refine ⟨(s.performLog a).1, (s.performLog a).2, rfl, ?_⟩
  cases a <;> exact ⟨⟨rfl, rfl, rfl, rfl⟩, rfl⟩

namespace Heap

/-- There is no finalizer, or one that records, or one that drops a value without children. -/
inductive Recording (h : Heap) (o : ObjectId) : Option Finalizer → Prop where
  | absent : Recording h o none
  | routine (r : Routine Step) (body : ∀ step ∈ r.body, step.Records) :
    Recording h o (some (.routine r))
  | dropValue (childless : ∀ label children, h.value? o = some (.node label children) →
      children = []) : Recording h o (some .dropValue)

/-- What a finalizer tells when it has run to its end, under the lock of the object's cell. -/
inductive Told (h : Heap) (o : ObjectId) : Option Finalizer → List Event → Prop where
  | absent : Told h o none []
  | routine (r : Routine Step) (answers : List Answer) (all : answers.length = r.body.length) :
    Told h o (some (.routine r))
      (.entered r.label o (some true) :: answers.map .stepped ++ [.left r.label])
  | node {label : String} (value : h.value? o = some (.node label [])) :
    Told h o (some .dropValue) [.dropped label]
  | plain (value : ∀ label children, h.value? o ≠ some (.node label children)) :
    Told h o (some .dropValue) []

variable {h h' : Heap} {o : ObjectId} {f : Option Finalizer} {told : List Event}

theorem Recording.congr (hv : h'.value? o = h.value? o) (hr : h.Recording o f) :
    h'.Recording o f := by
  cases hr with
  | absent => exact .absent
  | routine r body => exact .routine r body
  | dropValue childless =>
    refine .dropValue ?_
    rwa [hv]

theorem Told.congr (hv : h'.value? o = h.value? o) (ht : h'.Told o f told) : h.Told o f told := by
  cases ht with
  | absent => exact .absent
  | routine r answers all => exact .routine r answers all
  | node value => exact .node (hv ▸ value)
  | plain value => exact .plain (hv ▸ value)

end Heap

/-- What is left of a state once a finalizer that records has run. -/
structure State.Finalized (s : State) (o : ObjectId) (f : Option Finalizer) (t : State) :
    Prop where
  heap : t.heap = s.heap.emptied o f
  statistics : t.statistics = s.statistics
  faults : t.faults = s.faults
  names : t.names = s.names
  events : ∃ told, s.heap.Told o f told ∧ t.events = told.reverse ++ s.events

namespace Machine

variable {s t : State} {stack : List Frame} {o : ObjectId} {c : CellId} {cell : Cell}

/-- A routine whose steps record runs through them all. -/
theorem run_continueRoutine (label : String) {body : List Step} (h : ∀ step ∈ body, step.Records)
    (s : State) (stack : List Frame) :
    ∃ (t : State) (answers : List Answer),
      (continueRoutine label s stack body).run = run ⟨t, .answer .done, stack⟩ ∧
      s.Unmoved t ∧ answers.length = body.length ∧
      t.events = .left label :: ((answers.map Event.stepped).reverse ++ s.events) := by
  induction body generalizing s with
  | nil => exact ⟨s.observe (.left label), [], rfl, ⟨rfl, rfl, rfl, rfl⟩, rfl, rfl⟩
  | cons step rest ih =>
    obtain ⟨hstep, hrest⟩ := List.forall_mem_cons.1 h
    obtain ⟨answer, u, hperform, hu, hevents⟩ := hstep s (.routine label rest :: stack)
    obtain ⟨t, answers, hrun, ht, hlength, htold⟩ := ih hrest (u.observe (.stepped answer))
    refine ⟨t, answer :: answers, ?_, ?_, congrArg (· + 1) hlength, ?_⟩
    · calc (continueRoutine label s stack (step :: rest)).run
          = (perform s (.routine label rest :: stack) step).run := run_of_next? rfl
        _ = run ⟨u, .answer answer, .routine label rest :: stack⟩ := by rw [hperform]
        _ = (continueRoutine label (u.observe (.stepped answer)) stack rest).run :=
          run_of_next? rfl
        _ = run ⟨t, .answer .done, stack⟩ := hrun
    · exact ⟨ht.heap.trans hu.heap, ht.statistics.trans hu.statistics, ht.faults.trans hu.faults,
        ht.names.trans hu.names⟩
    · rw [htold]
      simp [State.observe, hevents]

/-- An answer passes what stands below a call by convention. -/
theorem run_guarded (via : Convention) (s : State) (stack : List Frame) :
    run ⟨s, .answer .done, guarded via stack⟩ = run ⟨s, .answer .done, stack⟩ := by
  cases via with
  | native => rfl
  | foreign => exact run_of_next? rfl

/-- A finalizer that records runs to its end, and its teardown is finished. -/
theorem run_finalize {f : Option Finalizer} {d : Teardown} (stack : List Frame)
    (hlocked : (s.heap.governing? d.object).map (·.locked) = some true)
    (h : s.heap.Recording d.object f) :
    ∃ t, s.Finalized d.object f t ∧
      (finalize d f s stack).run = run ⟨t.finish d, .answer .done, stack⟩ := by
  cases h with
  | absent => exact ⟨s, ⟨rfl, rfl, rfl, rfl, [], .absent, rfl⟩, run_of_next? rfl⟩
  | routine r body =>
    obtain ⟨t, answers, hrun, ht, hlength, htold⟩ := run_continueRoutine r.label body
      (s.observe (.entered r.label d.object (some true)))
      (guarded r.convention (.teardown d :: stack))
    refine ⟨t, ⟨ht.heap, ht.statistics, ht.faults, ht.names, _, .routine r answers hlength, ?_⟩, ?_⟩
    · rw [htold]
      simp [State.observe]
    · unfold finalize
      simp only [hlocked]
      rw [hrun, run_guarded]
      exact run_of_next? rfl
  | dropValue childless =>
    -- The value goes first; then the answer passes the barrier and finishes the teardown.
    have hrun (u : State) : run ⟨u, .answer .done, .barrier :: .teardown d :: stack⟩ =
        run ⟨u.finish d, .answer .done, stack⟩ :=
      (run_of_next? rfl).trans (run_of_next? rfl)
    by_cases hnode : ∃ label children, s.heap.value? d.object = some (.node label children)
    · obtain ⟨label, children, hv⟩ := hnode
      obtain rfl := childless label children hv
      have hdrop : dropValue d.object s (.barrier :: .teardown d :: stack) =
          ⟨(s.onHeap (·.setContents d.object .remains)).observe (.dropped label), .answer .done,
            .barrier :: .teardown d :: stack⟩ := by
        simp [dropValue, hv, continueDropping]
      exact ⟨(s.onHeap (·.setContents d.object .remains)).observe (.dropped label),
        ⟨rfl, rfl, rfl, rfl, [.dropped label], .node hv, rfl⟩,
        (congrArg run hdrop).trans (hrun _)⟩
    · have hv (label : String) (children : List ObjectId)
          (hv : s.heap.value? d.object = some (.node label children)) : False :=
        hnode ⟨label, children, hv⟩
      have hdrop : dropValue d.object s (.barrier :: .teardown d :: stack) =
          ⟨s.onHeap (·.setContents d.object .remains), .answer .done,
            .barrier :: .teardown d :: stack⟩ := by
        unfold dropValue
        split
        · next label children hv' => exact absurd hv' (hv label children)
        · rfl
      exact ⟨s.onHeap (·.setContents d.object .remains), ⟨rfl, rfl, rfl, rfl, [], .plain hv, rfl⟩,
        (congrArg run hdrop).trans (hrun _)⟩

/-- A retain for which a count has room. -/
theorem call_retain_of_room (hopens : s.heap.Opens o c cell) (hroom : cell.count ≠ maxCount) :
    call .retain o s stack =
      ⟨((s.onHeap (·.setCount c (cell.count + 1))).onStatistics (·.addRetain)).trace
        .retained o (cell.count + 1), .answer .done, stack⟩ := by
  rw [call, State.retain_of_opens hopens, if_neg hroom]
  rfl

/-- A release that leaves references to the object. -/
theorem run_release_of_more (hopens : s.heap.Opens o c cell) (hzero : cell.count ≠ 0)
    (hone : cell.count ≠ 1) :
    run ⟨s, .release o, stack⟩ =
      run ⟨((s.onHeap (·.setCount c (cell.count - 1))).onStatistics (·.addRelease)).trace
        .released o (cell.count - 1), .answer .done, stack⟩ := by
  refine (run_of_next? rfl).trans (congrArg run ?_)
  show release o s stack = _
  rw [release, State.release_of_opens hopens, if_neg hzero, if_neg hone]

/-- The release of the last reference, from the lock to the end of the teardown. -/
theorem run_release_of_last (stack : List Frame) (hopens : s.heap.Opens o c cell)
    (hlast : cell.count = 1) (h : s.heap.Recording o cell.finalizer) :
    ∃ t, run ⟨s, .release o, stack⟩ = run ⟨t, .answer .done, stack⟩ ∧
      t.heap = (s.heap.emptied o cell.finalizer).bury ⟨o, c⟩ ∧
      t.statistics = s.statistics.addRelease.addDeallocation ∧ t.faults = s.faults ∧
      t.names = s.names ∧
      ∃ told, s.heap.Told o cell.finalizer told ∧ t.events = told.reverse ++ s.events := by
  have hvalue : (s.begin ⟨o, c⟩).heap.value? o = s.heap.value? o := rfl
  have hlocked : ((s.begin ⟨o, c⟩).heap.governing? o).map (·.locked) = some true := by
    rw [governing?_begin hopens]
    rfl
  obtain ⟨t, ht, hrun⟩ := run_finalize (d := ⟨o, c⟩) stack hlocked (h.congr hvalue)
  have hbegin : (s.begin ⟨o, c⟩).heap = s.heap.updateCell c fun _ => {locked := true} := rfl
  have hcell : t.heap.cell? c = some {locked := true} := by
    rw [ht.heap, Heap.cell?_emptied, hbegin, Heap.cell?_updateCell_self, hopens.found]
    rfl
  have hfinish : t.finish ⟨o, c⟩ = (t.onHeap (·.bury ⟨o, c⟩)).onStatistics (·.addDeallocation) :=
    State.finish_of_taken hcell rfl
  refine ⟨t.finish ⟨o, c⟩, ?_, ?_, ?_, ?_, ?_, ?_⟩
  · calc run ⟨s, .release o, stack⟩
        = (release o s stack).run := run_of_next? rfl
      _ = (finalize ⟨o, c⟩ cell.finalizer (s.begin ⟨o, c⟩) stack).run := by
        rw [release_of_last hopens hlast]
      _ = run ⟨t.finish ⟨o, c⟩, .answer .done, stack⟩ := hrun
  · rw [hfinish]
    show t.heap.bury ⟨o, c⟩ = _
    rw [ht.heap, hbegin, Heap.emptied_updateCell]
    exact congrArg (·.setLink o none) (Heap.freeCell_updateCell _)
  · rw [hfinish]
    exact congrArg Statistics.addDeallocation ht.statistics
  · rw [hfinish]
    exact ht.faults
  · rw [hfinish]
    exact ht.names
  · obtain ⟨told, htold, hevents⟩ := ht.events
    refine ⟨told, htold.congr hvalue, ?_⟩
    rw [hfinish]
    exact hevents

/-- A call by convention that runs through to its answer. -/
theorem runStep_call (call : CountCall) {name : String} (via : Convention) {t : State}
    (hname : s.names.objects.find? name = some o)
    (hstack : stack = guarded via [.repeating call (some name) 0 via])
    (h : (Machine.call call o {s with events := []} stack).run = run ⟨t, .answer .done, stack⟩) :
    Session.runStep (.call call (some name) 1 via) s = ⟨t, .answer .done, []⟩ := by
  have hperform : perform {s with events := []} [] (.call call (some name) 1 via) =
      Machine.call call o {s with events := []} stack := by
    simp only [perform, repeatCall, callNamed, hname, hstack]
  calc Session.runStep (.call call (some name) 1 via) s
      = (perform {s with events := []} [] (.call call (some name) 1 via)).run := run_of_next? rfl
    _ = run ⟨t, .answer .done, guarded via [.repeating call (some name) 0 via]⟩ := by
      rw [hperform, h, hstack]
    _ = run ⟨t, .answer .done, [.repeating call (some name) 0 via]⟩ := run_guarded via t _
    _ = run ⟨t, .answer .done, []⟩ := run_of_next? rfl
    _ = ⟨t, .answer .done, []⟩ := run_of_rest rfl

theorem runStep_act (a : ObjectAction) {answer : Answer} {t : State}
    (h : {s with events := []}.performObject a = .returned answer t) :
    Session.runStep (.act (.object a)) s = ⟨t, .answer answer, []⟩ := by
  have hact : act {s with events := []} (.object a) = .returned answer t := h
  calc Session.runStep (.act (.object a)) s
      = (perform {s with events := []} [] (.act (.object a))).run := run_of_next? rfl
    _ = run ⟨t, .answer answer, []⟩ := by
      unfold perform
      simp only [hact, settle]
    _ = ⟨t, .answer answer, []⟩ := run_of_rest rfl

end Machine

namespace State

variable {s : State} {name : String} {o : ObjectId} {c : CellId} {cell : Cell}

theorem performObject_count (via : Convention) (hname : s.names.objects.find? name = some o)
    (hopens : s.heap.Opens o c cell) :
    s.performObject (.count (some name) via) =
      .returned (.number cell.count.toNat) (s.trace .counted o cell.count) := by
  simp only [performObject, withInstance, withObject, given, hname, count_of_opens hopens,
    Outcome.map, Outcome.andThen_returned]
  cases via <;> rfl

theorem performObject_isUnique (via : Convention) (hname : s.names.objects.find? name = some o)
    (hopens : s.heap.Opens o c cell) :
    s.performObject (.isUnique (some name) via) =
      .returned (uniqueAnswer via (cell.count == 1)) s := by
  simp only [performObject, withInstance, withObject, given, hname, isUnique_of_opens hopens,
    Outcome.map, Outcome.andThen_returned]
  cases via <;> rfl

end State

/-! ### What a call makes of a state -/

namespace Call

/-- The step of a script that makes a call on what a name stands for. -/
def step (c : Call) (name : String) : Step :=
  match c.kind with
  | .change call => .call call (some name) 1 c.via
  | .count => .act (.object (.count (some name) c.via))
  | .isUnique => .act (.object (.isUnique (some name) c.via))

def MadeBy (names : Names) (c : Call) (step : Step) : Prop :=
  ∃ name, names.objects.find? name = some c.object ∧ step = c.step name

theorem forall₂_madeBy {names : Names} {name : String} {calls : List Call}
    (h : ∀ c ∈ calls, names.objects.find? name = some c.object) :
    List.Forall₂ (MadeBy names) calls (calls.map (·.step name)) := by
  rw [List.forall₂_map_right_iff, List.forall₂_same]
  exact fun c hc => ⟨name, h c hc, rfl⟩

/-- The answer to a call that finds so many references. Whether one of them is the only one is
answered by a number in foreign code. -/
def answer (c : Call) (held : Nat) : Answer :=
  match c.kind, c.via with
  | .change _, _ => .done
  | .count, _ => .number held
  | .isUnique, .native => .flag (decide (held = 1))
  | .isUnique, .foreign => .number (if held = 1 then 1 else 0)

/-- Whether a call takes the last of so many references. -/
def Last (c : Call) (held : Nat) : Prop :=
  c.kind = .change .release ∧ held = 1

end Call

/-- Statistics once some retains, releases and deallocations more have been counted. -/
def Statistics.plus (s : Statistics) (retains releases deallocations : Nat) : Statistics where
  allocations := s.allocations
  deallocations := s.deallocations + .ofNat deallocations
  payloadBytes := s.payloadBytes
  retains := s.retains + .ofNat retains
  releases := s.releases + .ofNat releases

/-- What calls have made of a state: so many references to each object, after so many retains and
releases. -/
structure State.Progress (s : State) (held : ObjectId → Nat) (retained released : Nat) (t : State) :
    Prop where
  heap : s.heap.Recounts held t.heap
  statistics : t.statistics = s.statistics.plus retained released (s.heap.spent held)
  faults : t.faults = s.faults
  names : t.names = s.names

/-- What one more call has made of a state, and what a finalizer has told if the call ran one. -/
structure Call.Moved (c : Call) (s : State) (held : ObjectId → Nat) (retained released : Nat)
    (events : List Event) (t : State) : Prop where
  progress : s.Progress (c.on held) (retained + if c.kind = .change .retain then 1 else 0)
    (released + if c.kind = .change .release then 1 else 0) t
  told (last : c.Last (held c.object)) :
    ∃ told, s.heap.Told c.object (s.heap.finalizerOf c.object) told ∧
      t.events = told.reverse ++ events
  silent (other : ¬ c.Last (held c.object)) : t.events = events

namespace State.Progress

variable {s t : State} {held : ObjectId → Nat} {retained released : Nat} {c : Call}

protected theorem refl (s : State) : s.Progress s.heap.countOf 0 0 s where
  heap := .refl _
  statistics := by
    rw [Heap.spent_countOf]
    simp [Statistics.plus]
  faults := rfl
  names := rfl

/-- What is written down does not matter. -/
theorem unmoved {u : State} (h : s.Progress held retained released t) (hu : t.Unmoved u) :
    s.Progress held retained released u where
  heap := hu.heap ▸ h.heap
  statistics := hu.statistics.trans h.statistics
  faults := hu.faults.trans h.faults
  names := hu.names.trans h.names

section Calls

variable (h : s.Progress held retained released t) (hrest : s.heap.Resting)
  (hpos : 0 < held c.object) (hlive : s.heap.countOf c.object ≠ 0) (stack : List Frame)

include h hrest hpos hlive

theorem run_retain (hkind : c.kind = .change .retain) (hroom : held c.object < maxCount.toNat) :
    ∃ u, (Machine.call .retain c.object t stack).run = Machine.run ⟨u, .answer .done, stack⟩ ∧
      c.Moved s held retained released t.events u := by
  obtain ⟨d, cell, hl, hc, hopens⟩ := h.heap.opens hrest hpos hlive
  have hcount : UInt32.ofNat (held c.object) ≠ maxCount := fun heq =>
    Nat.ne_of_lt hroom ((ofNat_eq_iff (Nat.le_of_lt hroom)).1 heq)
  have hother (p : ObjectId) (hp : p ≠ c.object) : c.on held p = held p := Call.on_of_ne hp
  have hmore : c.on held c.object = held c.object + 1 := Call.on_retain hkind
  refine ⟨_, congrArg Machine.run (Machine.call_retain_of_room hopens hcount),
    ⟨?_, ?_, h.faults, h.names⟩, fun hlast => by simp [hlast.1] at hkind, fun _ => rfl⟩
  · exact h.heap.setCount hrest hl hc hother hpos (by omega)
      (by rw [hmore, UInt32.ofNat_add]; rfl)
  · show t.statistics.addRetain = _
    rw [h.statistics, Heap.spent_of_pos hother hpos (by omega), hkind]
    simp [Statistics.addRetain, Statistics.plus, UInt64.ofNat_add, UInt64.add_assoc]

theorem run_release_more (hkind : c.kind = .change .release)
    (hroom : held c.object ≤ maxCount.toNat) (hone : held c.object ≠ 1) :
    ∃ u, (Machine.call .release c.object t stack).run = Machine.run ⟨u, .answer .done, stack⟩ ∧
      c.Moved s held retained released t.events u := by
  obtain ⟨d, cell, hl, hc, hopens⟩ := h.heap.opens hrest hpos hlive
  have hzero : UInt32.ofNat (held c.object) ≠ 0 := fun heq =>
    Nat.ne_of_gt hpos ((ofNat_eq_iff hroom).1 heq)
  have hmany : UInt32.ofNat (held c.object) ≠ 1 := fun heq => hone ((ofNat_eq_iff hroom).1 heq)
  have hother (p : ObjectId) (hp : p ≠ c.object) : c.on held p = held p := Call.on_of_ne hp
  have hless : c.on held c.object = held c.object - 1 := Call.on_release hkind
  refine ⟨_, Machine.run_release_of_more hopens hzero hmany, ⟨?_, ?_, h.faults, h.names⟩,
    fun hlast => absurd hlast.2 hone, fun _ => rfl⟩
  · exact h.heap.setCount hrest hl hc hother hpos (by omega)
      (by rw [hless, UInt32.ofNat_sub hpos]; rfl)
  · show t.statistics.addRelease = _
    rw [h.statistics, Heap.spent_of_pos hother hpos (by omega), hkind]
    simp [Statistics.addRelease, Statistics.plus, UInt64.ofNat_add, UInt64.add_assoc]

theorem run_release_last (hkind : c.kind = .change .release) (hone : held c.object = 1)
    (hrecording : s.heap.Recording c.object (s.heap.finalizerOf c.object)) :
    ∃ u, (Machine.call .release c.object t stack).run = Machine.run ⟨u, .answer .done, stack⟩ ∧
      c.Moved s held retained released t.events u := by
  obtain ⟨d, cell, hl, hc, hopens⟩ := h.heap.opens hrest hpos hlive
  have hlast : UInt32.ofNat (held c.object) = 1 := by rw [hone]; rfl
  have hfinalizer : s.heap.finalizerOf c.object = cell.finalizer := by
    simp [Heap.finalizerOf, Heap.governing?, hl, hc]
  have hunspent : ¬ s.heap.Spent held c.object := fun hs => Nat.ne_of_gt hpos hs.2
  have hvalue : t.heap.value? c.object = s.heap.value? c.object := by
    unfold Heap.value?
    rw [h.heap.object_eq hunspent]
  have hother (p : ObjectId) (hp : p ≠ c.object) : c.on held p = held p := Call.on_of_ne hp
  have hnone : c.on held c.object = 0 := by rw [Call.on_release hkind, hone]
  have hrecordingt : t.heap.Recording c.object cell.finalizer :=
    hfinalizer ▸ hrecording.congr hvalue
  obtain ⟨u, hrun, hheap, hstatistics, hfaults, hnames, told, htold, hevents⟩ :=
    Machine.run_release_of_last stack hopens hlast hrecordingt
  refine ⟨u, hrun, ⟨?_, ?_, hfaults.trans h.faults, hnames.trans h.names⟩,
    fun _ => ⟨told, hfinalizer ▸ htold.congr hvalue, hevents⟩,
    fun hother => absurd ⟨hkind, hone⟩ hother⟩
  · rw [hheap, show Cell.finalizer _ = s.heap.finalizerOf c.object from hfinalizer.symm]
    exact h.heap.bury hrest hl hlive hother hpos hnone
  · rw [hstatistics, h.statistics, Heap.spent_succ hother hlive hpos hnone, hkind]
    simp [Statistics.addRelease, Statistics.addDeallocation, Statistics.plus, UInt64.ofNat_add,
      UInt64.add_assoc]

/-- **A retain or a release of an object to which there are references goes through**, wherever
it is called from. -/
theorem run_change {call : CountCall} (hkind : c.kind = .change call)
    (hroom : held c.object + (if c.kind = .change .retain then 1 else 0) ≤ maxCount.toNat)
    (hrecording : s.heap.Recording c.object (s.heap.finalizerOf c.object)) :
    ∃ u, (Machine.call call c.object t stack).run = Machine.run ⟨u, .answer .done, stack⟩ ∧
      c.Moved s held retained released t.events u := by
  cases call with
  | retain =>
    rw [if_pos hkind] at hroom
    exact h.run_retain hrest hpos hlive stack hkind hroom
  | release =>
    by_cases hone : held c.object = 1
    · exact h.run_release_last hrest hpos hlive stack hkind hone hrecording
    · exact h.run_release_more hrest hpos hlive stack hkind
        (Nat.le_trans (Nat.le_add_right _ _) hroom) hone

end Calls

/-! ### Calls as steps -/

/-- **A call on an object to which there are references is served.** -/
theorem serve {name : String} (h : s.Progress held retained released t) (hrest : s.heap.Resting)
    (hpos : 0 < held c.object) (hlive : s.heap.countOf c.object ≠ 0)
    (hname : s.names.objects.find? name = some c.object)
    (hroom : held c.object + (if c.kind = .change .retain then 1 else 0) ≤ maxCount.toNat)
    (hrecording : s.heap.Recording c.object (s.heap.finalizerOf c.object)) :
    ∃ u, Session.runStep (c.step name) t = ⟨u, .answer (c.answer (held c.object)), []⟩ ∧
      c.Moved s held retained released [] u := by
  have hname' : t.names.objects.find? name = some c.object := h.names ▸ hname
  have hbegun : s.Progress held retained released {t with events := []} :=
    h.unmoved ⟨rfl, rfl, rfl, rfl⟩
  have hle : held c.object ≤ maxCount.toNat := Nat.le_trans (Nat.le_add_right _ _) hroom
  obtain ⟨d, cell, _, _, hopens⟩ := hbegun.heap.opens hrest hpos hlive
  -- A call that only looks at the count moves nothing.
  have hlooks {u : State} (hlooks : ∀ call, c.kind ≠ .change call)
      (hu : {t with events := []}.Unmoved u) (hevents : u.events = []) :
      c.Moved s held retained released [] u := by
    refine ⟨?_, fun hlast => absurd hlast.1 (hlooks _), fun _ => hevents⟩
    rw [Call.on_of_looks hlooks, if_neg (hlooks _), if_neg (hlooks _)]
    exact hbegun.unmoved hu
  cases hkind : c.kind with
  | change call =>
    obtain ⟨u, hrun, hmoved⟩ := hbegun.run_change hrest hpos hlive
      (Machine.guarded c.via [.repeating call (some name) 0 c.via]) hkind hroom hrecording
    refine ⟨u, ?_, hmoved⟩
    simp only [Call.step, Call.answer, hkind]
    exact Machine.runStep_call call c.via hname' rfl hrun
  | count =>
    refine ⟨{t with events := []}.trace .counted c.object (.ofNat (held c.object)), ?_,
      hlooks (by simp [hkind]) ⟨rfl, rfl, rfl, rfl⟩ rfl⟩
    simp only [Call.step, Call.answer, hkind]
    rw [Machine.runStep_act _ (State.performObject_count c.via hname' hopens),
      ← (ofNat_eq_iff hle).1 rfl]
  | isUnique =>
    have hone : (UInt32.ofNat (held c.object) == 1) = (held c.object == 1) := by
      rw [Bool.eq_iff_iff, beq_iff_eq, beq_iff_eq]
      exact ofNat_eq_iff hle
    have hanswer : uniqueAnswer c.via (held c.object == 1) = c.answer (held c.object) := by
      simp only [Call.answer, hkind]
      cases c.via with
      | native => rfl
      | foreign =>
        rw [beq_eq_decide]
        exact uniqueAnswer_foreign _
    refine ⟨{t with events := []}, ?_, hlooks (by simp [hkind]) ⟨rfl, rfl, rfl, rfl⟩ rfl⟩
    rw [← hanswer]
    simp only [Call.step, hkind]
    rw [Machine.runStep_act _ (State.performObject_isUnique c.via hname' hopens), hone]

end State.Progress

end Custody
