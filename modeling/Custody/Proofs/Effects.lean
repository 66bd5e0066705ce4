import Custody.Proofs.Detachment

/-! What an operation on an object does, as a function of what belongs to that object.

A step on an object asks the rest of the state for nothing: what it answers or unwinds with, what
it leaves of the object and what it adds to the counters and to the events follow from the object
and its cell alone (`Step.exists_of`). An object that has another number is treated the same, and
the number is seen only where faults and finalizers tell of it (`Effect.Uniform`). -/
namespace Custody

/-! ### Effects -/

/-- The object is gone, or its cell is there, unlocked, with a finalizer that touches no object. -/
inductive Own.Settled (o : ObjectId) (w : Own) : Prop where
  | gone (link : w.object.link = none)
  | live (cell : Cell) (link : w.object.link = some o) (found : w.cell = some cell)
    (unlocked : cell.locked = false) (detached : Finalizer.detached cell.finalizer = true)

namespace Own

variable {o : ObjectId} {w : Own}

theorem Settled.numbered (h : w.Settled o) (p : ObjectId) : (w.numbered p).Settled p := by
  cases h with
  | gone link => exact .gone (by rw [link_numbered, link, Option.map_none])
  | live cell link found unlocked detached =>
    exact .live cell (by rw [link_numbered, link, Option.map_some]) found unlocked detached

theorem Settled.numbered_self (h : w.Settled o) : w.numbered o = w := by
  obtain ⟨⟨size, slot, contents⟩, found⟩ := w
  cases h with
  | gone link | live _ link =>
    cases link
    rfl

end Own

/-- What belongs to an object after an operation, what the operation adds, and how it ends. -/
structure Effect where
  own : Own
  gain : Gain := {}
  ending : Ending

namespace Effect

def on (e : Effect) (o : ObjectId) (s : State) : State :=
  e.gain.on (s.onHeap (·.put o e.own))

/-- One operation on an object after the other. -/
def followed (e e' : Effect) : Effect :=
  ⟨e'.own, e.gain.followed e'.gain, e'.ending⟩

theorem on_on (e e' : Effect) (o : ObjectId) (s : State) :
    e'.on o (e.on o s) = (e.followed e').on o s := by
  have hheap : (e.gain.on (s.onHeap (·.put o e.own))).onHeap (·.put o e'.own) =
      e.gain.on (s.onHeap (·.put o e'.own)) :=
    congrArg (fun heap => e.gain.on {s with heap}) Heap.put_put
  unfold on
  rw [hheap, Gain.on_on]
  rfl

end Effect

/-! ### The same effect under another number -/

def Ending.unnumbered : Ending → Ending
  | answered answer => answered answer.unnumbered
  | failed cause => failed cause.unnumbered
  | stopped halt => stopped halt

namespace Effect

def unnumbered (e : Effect) : Effect :=
  ⟨e.own.numbered 0, e.gain.unnumbered, e.ending.unnumbered⟩

theorem unnumbered_followed (e e' : Effect) :
    (e.followed e').unnumbered = e.unnumbered.followed e'.unnumbered := by
  simp [unnumbered, followed, Gain.unnumbered_followed]

/-- Effects on objects of all numbers, of which the number is all that they differ in. -/
structure Uniform (e : ObjectId → Effect) : Prop where
  settled (o : ObjectId) : (e o).own.Settled o
  same (o : ObjectId) : (e o).unnumbered = (e 0).unnumbered

namespace Uniform

variable {e e' : ObjectId → Effect}

theorem own_eq (h : Uniform e) (o : ObjectId) : (e o).own = (e 0).own.numbered o := by
  have hsame : (e o).own.numbered 0 = (e 0).own.numbered 0 := congrArg own (h.same o)
  rw [← (h.settled o).numbered_self, ← Own.numbered_numbered (o := 0), hsame,
    Own.numbered_numbered]

theorem followed (h : Uniform e) (h' : Uniform e') :
    Uniform fun o => (e o).followed (e' o) where
  settled := h'.settled
  same o := by rw [unnumbered_followed, unnumbered_followed, h.same, h'.same]

/-- Other endings, as long as they depend on nothing but the endings. -/
theorem ended (h : Uniform e) (f : Ending → Ending)
    (hf : ∀ ending, (f ending).unnumbered = f ending.unnumbered) :
    Uniform fun o => {e o with ending := f (e o).ending} where
  settled := h.settled
  same o := by
    have hending : (e o).ending.unnumbered = (e 0).ending.unnumbered :=
      congrArg ending (h.same o)
    have hown := congrArg own (h.same o)
    have hgain := congrArg gain (h.same o)
    unfold unnumbered
    rw [hf, hf, hending]
    exact congrArg₂ (fun own gain => (⟨own, gain, _⟩ : Effect)) hown hgain

end Uniform
end Effect

theorem Ending.unnumbered_through (via : Convention) (e : Ending) :
    (e.through via).unnumbered = e.unnumbered.through via := by
  cases via <;> cases e <;> rfl

theorem Ending.unnumbered_caught (e : Ending) : e.caught.unnumbered = e.unnumbered.caught := by
  cases e <;> rfl

/-! ### What is shown and what is done -/

/-- The state has the object under its name, and faults unwind. -/
structure State.Shows (raise : Fault → Cause) (name : String) (o : ObjectId) (w : Own) (s : State) :
    Prop where
  raises : s.faults.raises = some raise
  named : s.names.objects.find? name = some o
  own : s.heap.own? o = some w

/-- The operation ends this way and has this effect, up to what is only written down. -/
abbrev Effect.Fits (e : Effect) (o : ObjectId) (s : State) (out : Outcome Answer) : Prop :=
  out.ComesTo e.ending (e.on o s.hushed)

/-- Wherever the object is found like this, the work has this effect. -/
def Effect.Of (e : Effect) (raise : Fault → Cause) (name : String) (o : ObjectId) (w : Own)
    (start : State → List Frame → Machine) : Prop :=
  ∀ s stack, s.Shows raise name o w → ∃ t, (start s stack).Ends t e.ending stack ∧
    t.hushed = e.on o s.hushed

section Effects

variable {raise : Fault → Cause} {name : String} {o : ObjectId} {w : Own} {cell : Cell}
  {s t : State} {e : Effect}

theorem Effect.names_eq (ht : t.hushed = e.on o s.hushed) : t.names = s.names := by
  have hnames := congrArg State.names ht
  exact hnames

theorem Effect.heap_eq (ht : t.hushed = e.on o s.hushed) : t.heap = s.heap.put o e.own := by
  have hheap := congrArg State.heap ht
  exact hheap

theorem State.Shows.after (h : s.Shows raise name o w) (ht : t.hushed = e.on o s.hushed) :
    t.Shows raise name o e.own where
  raises := State.raises_of_hushed (g := e.gain) (congrArg State.faults ht) h.raises
  named := by
    rw [Effect.names_eq ht]
    exact h.named
  own := by
    rw [Effect.heap_eq ht]
    exact Heap.own?_put_self h.own

namespace Effect

/-- An operation that leaves everything as it was. -/
theorem fits_of_kept (out : Outcome Answer) (h : s.heap.own? o = some w)
    (hout : out.state.hushed = s.hushed) : (⟨w, {}, out.ending⟩ : Effect).Fits o s out where
  ending := rfl
  state := by
    have hkept : s.hushed.onHeap (·.put o w) = s.hushed := State.onHeap_of_eq (Heap.put_self h)
    rw [hout, on, hkept, Gain.on_zero]

theorem hushed_noted (h : s.heap.own? o = some w) (f : Fault) (ending : Ending) :
    (s.noted f).hushed = (⟨w, {faults := 1}, ending⟩ : Effect).on o s.hushed := by
  have hkept : s.hushed.onHeap (·.put o w) = s.hushed := State.onHeap_of_eq (Heap.put_self h)
  rw [State.hushed_noted, on, hkept]

/-- An operation that reports a fault and does nothing else. -/
theorem fits_of_fault (h : s.Shows raise name o w) (f : Fault) :
    (⟨w, {faults := 1}, .failed (raise f)⟩ : Effect).Fits o s (s.report f) where
  ending := by
    rw [State.report_of_raises h.raises]
    rfl
  state := by
    rw [State.report_of_raises h.raises]
    exact hushed_noted h.own f _

/-- Operations that change what belongs to the object, and nothing else. -/
theorem fits_of_put {w' : Own} {f : Heap → Heap} {answer : Answer}
    (h : f s.heap = s.heap.put o w') :
    (⟨w', {}, .answered answer⟩ : Effect).Fits o s (.returned answer (s.onHeap f)) where
  ending := rfl
  state := by
    rw [on, Gain.on_zero]
    exact congrArg (fun heap => ({s.hushed with heap} : State)) h

end Effect

theorem State.Shows.link?_eq_none {p : ObjectId} (h : s.Shows raise name p (w.numbered p))
    (hlink : w.object.link = none) : s.heap.link? p = none := by
  rw [Heap.link?_of_own? h.own, Own.link_numbered, hlink, Option.map_none]

theorem State.Shows.opens {p : ObjectId} (h : s.Shows raise name p (w.numbered p))
    (hlink : w.object.link = some o) (hfound : w.cell = some cell)
    (hunlocked : cell.locked = false) : s.heap.Opens p p cell where
  link := by rw [Heap.link?_of_own? h.own, Own.link_numbered, hlink, Option.map_some]
  found := (Heap.cell?_of_own? h.own).trans hfound
  unlocked := hunlocked

/-! ### Retains and releases -/

theorem Statistics.addRetain_eq (st : Statistics) : st.addRetain = st + {retains := 1} := by
  simp [addRetain, add_def]

theorem Statistics.addRelease_eq (st : Statistics) : st.addRelease = st + {releases := 1} := by
  simp [addRelease, add_def]

theorem Statistics.addDeallocation_eq (st : Statistics) :
    st.addDeallocation = st + {deallocations := 1} := by
  simp [addDeallocation, add_def]

theorem Gain.onHeap_on (g : Gain) (f : Heap → Heap) (s : State) :
    (g.on s).onHeap f = g.on (s.onHeap f) := rfl

theorem State.hushed_begin (d : Teardown) (s : State) :
    (s.begin d).hushed = Gain.on {statistics := {releases := 1}}
      (s.hushed.onHeap (·.updateCell d.cell fun _ => {locked := true})) := by
  simp [begin, hushed, trace, log, onStatistics, onHeap, Gain.on, Statistics.addRelease_eq]

theorem State.hushed_finish {d : Teardown} (hc : s.heap.cell? d.cell = some cell)
    (hnone : cell.finalizer = none) :
    (s.finish d).hushed =
      Gain.on {statistics := {deallocations := 1}} (s.hushed.onHeap (·.bury d)) := by
  rw [finish_of_taken hc hnone]
  simp [hushed, onStatistics, onHeap, Gain.on, Statistics.addDeallocation_eq]

/-- Another count in the object's cell. -/
def Own.recounted (w : Own) (cell : Cell) (count : UInt32) : Own :=
  {w with cell := some {cell with count}}

theorem Own.numbered_recounted (w : Own) (cell : Cell) (count : UInt32) (o : ObjectId) :
    (w.recounted cell count).numbered o = (w.numbered o).recounted cell count := rfl

theorem Effect.hushed_setCount (hown : s.heap.own? o = some w) (hfound : w.cell = some cell)
    (count : UInt32) (st : Statistics) (ending : Ending) :
    ((s.onHeap (·.setCount o count)).onStatistics (· + st)).hushed =
      (⟨w.recounted cell count, {statistics := st}, ending⟩ : Effect).on o s.hushed := by
  have hheap : s.heap.setCount o count = s.heap.put o (w.recounted cell count) := by
    unfold Heap.setCount
    rw [Heap.updateCell_eq_put hown, hfound]
    rfl
  simp [State.hushed, State.onHeap, State.onStatistics, Effect.on, Gain.on, hheap]

theorem Own.Settled.recounted (hlink : w.object.link = some o) (hunlocked : cell.locked = false)
    (hdetached : Finalizer.detached cell.finalizer = true) (count : UInt32) :
    (w.recounted cell count).Settled o :=
  .live {cell with count} hlink rfl hunlocked hdetached

namespace Machine

/-- The end of an operation that started nothing. -/
theorem exists_ends_settle {out : Outcome Answer} (h : e.Fits o s out) (stack : List Frame) :
    ∃ t, (settle out stack).Ends t e.ending stack ∧ t.hushed = e.on o s.hushed :=
  ⟨out.state, h.ending ▸ .settle out stack, h.state⟩

/-- Work that comes back says that it is done, and the rest unwinds. -/
def Returns (e : ObjectId → Effect) : Prop :=
  (∀ o, (e o).ending = .answered .done) ∨ ∀ o, ∃ cause, (e o).ending = .failed cause

variable {faults : FaultHandling} (hraise : faults.raises = some raise) (name)
include hraise

/-- Work that reports a fault and does nothing else. -/
theorem exists_of_fault {start : ObjectId → State → List Frame → Machine} (hw : w.Settled o)
    (f : ObjectId → Fault) (hf : ∀ p, (f p).unnumbered = (f 0).unnumbered)
    (hstart : ∀ p s stack, s.Shows raise name p (w.numbered p) →
      run (start p s stack) = run ⟨s.noted (f p), .unwind (raise (f p)), stack⟩) :
    ∃ e : ObjectId → Effect, (∀ p, (e p).Of raise name p (w.numbered p) (start p)) ∧
      Effect.Uniform e ∧ Returns e := by
  refine ⟨fun p => ⟨w.numbered p, {faults := 1}, .failed (raise (f p))⟩, fun p s stack h => ?_,
    ⟨hw.numbered, fun p => ?_⟩, .inr fun p => ⟨_, rfl⟩⟩
  · exact ⟨s.noted (f p), .failed (hstart p s stack h), Effect.hushed_noted h.own _ _⟩
  · simp only [Effect.unnumbered, Own.numbered_numbered, Ending.unnumbered,
      FaultHandling.raises_unnumbered hraise (hf p)]

omit hraise in
/-- Work that gives the object's cell another count. -/
theorem exists_of_setCount {start : ObjectId → State → List Frame → Machine}
    (hlink : w.object.link = some o) (hfound : w.cell = some cell)
    (hunlocked : cell.locked = false) (hdetached : Finalizer.detached cell.finalizer = true)
    (count : UInt32) (st : Statistics)
    (hstart : ∀ p s stack, s.Shows raise name p (w.numbered p) → ∃ t,
      run (start p s stack) = run ⟨t, .answer .done, stack⟩ ∧
        t.hushed = ((s.onHeap (·.setCount p count)).onStatistics (· + st)).hushed) :
    ∃ e : ObjectId → Effect, (∀ p, (e p).Of raise name p (w.numbered p) (start p)) ∧
      Effect.Uniform e ∧ Returns e := by
  refine ⟨fun p => ⟨(w.numbered p).recounted cell count, {statistics := st}, .answered .done⟩,
    fun p s stack h => ?_, ⟨fun p => .recounted ?_ hunlocked hdetached count, fun p => ?_⟩,
    .inl fun _ => rfl⟩
  · obtain ⟨t, ht, hstate⟩ := hstart p s stack h
    exact ⟨t, .answered ht, hstate.trans (Effect.hushed_setCount h.own hfound count st _)⟩
  · rw [Own.link_numbered, hlink, Option.map_some]
  · simp only [Effect.unnumbered, Own.numbered_recounted, Own.numbered_numbered]

theorem exists_of_retain (hw : w.Settled o) :
    ∃ e : ObjectId → Effect, (∀ p, (e p).Of raise name p (w.numbered p) (call .retain p)) ∧
      Effect.Uniform e ∧ Returns e := by
  have hreport {p : ObjectId} {s : State} {stack : List Frame} {f : Fault}
      (h : s.Shows raise name p (w.numbered p)) (hout : s.retain p = s.report f) :
      call .retain p s stack = ⟨s.noted f, .unwind (raise f), stack⟩ := by
    rw [call, hout, State.report_of_raises h.raises]
    rfl
  cases hw with
  | gone link =>
    refine exists_of_fault name hraise (.gone (o := o) link) (fun p => .useAfterFree (.object p))
      (fun _ => rfl) fun p s stack h => congrArg run (hreport h ?_)
    rw [State.retain, State.access_of_gone (h.link?_eq_none link)]
  | live cell link found unlocked detached =>
    by_cases hfull : cell.count = maxCount
    · refine exists_of_fault name hraise (.live cell link found unlocked detached)
        (fun p => .retainOverflow (.object p) cell.count) (fun _ => rfl)
        fun p s stack h => congrArg run (hreport h ?_)
      rw [State.retain_of_opens (h.opens link found unlocked), if_pos hfull]
    · have hcall {p : ObjectId} {s : State} {stack : List Frame}
          (h : s.Shows raise name p (w.numbered p)) : call .retain p s stack =
            ⟨((s.onHeap (·.setCount p (cell.count + 1))).onStatistics (·.addRetain)).trace
              .retained p (cell.count + 1), .answer .done, stack⟩ := by
        rw [call, State.retain_of_opens (h.opens link found unlocked), if_neg hfull]
        rfl
      refine exists_of_setCount name link found unlocked detached (cell.count + 1)
        {retains := 1} fun p s stack h => ⟨_, congrArg run (hcall h), ?_⟩
      exact congrArg (fun st => (State.onStatistics (fun _ => st) _).hushed)
        (Statistics.addRetain_eq s.statistics)

omit hraise in
/-- The release of the last reference runs the finalizer and finishes the teardown. -/
theorem exists_of_release_last (hlink : w.object.link = some o) (hfound : w.cell = some cell)
    (hunlocked : cell.locked = false) (hdetached : Finalizer.detached cell.finalizer = true)
    (hlast : cell.count = 1) :
    ∃ e : ObjectId → Effect, (∀ p, (e p).Of raise name p (w.numbered p) (call .release p)) ∧
      Effect.Uniform e ∧ Returns e := by
  obtain ⟨g, cause?, hsame, hfinalize⟩ := exists_does_finalize raise hdetached
  refine ⟨fun p => ⟨⟨{w.object with link := none}, none⟩,
    Gain.followed {statistics := {releases := 1}}
      ((g p).followed {statistics := {deallocations := 1}}), .ofCause? cause?⟩,
    fun p s stack h => ?_, ⟨fun _ => .gone rfl, fun p => ?_⟩, ?_⟩
  · have hopens := h.opens hlink hfound hunlocked
    have hlocked : ((s.begin ⟨p, p⟩).heap.governing? p).map (·.locked) = some true := by
      rw [governing?_begin hopens]
      rfl
    obtain ⟨t, ht, hstate⟩ := hfinalize ⟨p, p⟩ (s.begin ⟨p, p⟩) stack h.raises hlocked
    have hheap : t.heap = s.heap.updateCell p fun _ => {locked := true} := by
      have := congrArg State.heap hstate
      exact this
    have hcell : t.heap.cell? p = some {locked := true} := by
      rw [hheap, Heap.cell?_updateCell_self, hopens.found]
      rfl
    have hburied : t.heap.bury ⟨p, p⟩ = s.heap.put p ⟨{w.object with link := none}, none⟩ := by
      rw [hheap]
      exact (congrArg (·.setLink p none) (Heap.freeCell_updateCell _)).trans
        (Heap.bury_eq_put h.own)
    refine ⟨t.finish ⟨p, p⟩, ?_, ?_⟩
    · rw [← release_of_last hopens hlast] at ht
      exact ht.of_next? rfl
    · have hheaps : (s.hushed.onHeap (·.updateCell p fun _ => {locked := true})).onHeap
          (·.bury ⟨p, p⟩) = s.hushed.onHeap (·.put p ⟨{w.object with link := none}, none⟩) := by
        have := congrArg (fun heap => ({s.hushed with heap} : State)) (hheap ▸ hburied)
        exact this
      rw [State.hushed_finish hcell rfl, hstate, State.hushed_begin, Gain.onHeap_on,
        Gain.onHeap_on, hheaps, Gain.on_on, Gain.on_on]
      rfl
  · simp only [Effect.unnumbered, Gain.unnumbered_followed, hsame p]
  · cases cause? with
    | none => exact .inl fun _ => rfl
    | some cause => exact .inr fun _ => ⟨cause, rfl⟩

theorem exists_of_release (hw : w.Settled o) :
    ∃ e : ObjectId → Effect, (∀ p, (e p).Of raise name p (w.numbered p) (call .release p)) ∧
      Effect.Uniform e ∧ Returns e := by
  have hreport {p : ObjectId} {s : State} {stack : List Frame} {f : Fault}
      (h : s.Shows raise name p (w.numbered p)) (hout : s.release p = s.report f) :
      run (call .release p s stack) = run ⟨s.noted f, .unwind (raise f), stack⟩ := by
    have hrelease : release p s stack = ⟨s.noted f, .unwind (raise f), stack⟩ := by
      simp only [release, hout, State.report_of_raises h.raises]
    exact run_of_next? (congrArg some hrelease)
  cases hw with
  | gone link =>
    refine exists_of_fault name hraise (.gone (o := o) link) (fun p => .useAfterFree (.object p))
      (fun _ => rfl) fun p s stack h => hreport h ?_
    rw [State.release, State.access_of_gone (h.link?_eq_none link)]
  | live cell link found unlocked detached =>
    by_cases hzero : cell.count = 0
    · refine exists_of_fault name hraise (.live cell link found unlocked detached)
        (fun p => .releaseUnderflow (.object p)) (fun _ => rfl) fun p s stack h => hreport h ?_
      rw [State.release_of_opens (h.opens link found unlocked), if_pos hzero]
    by_cases hlast : cell.count = 1
    · exact exists_of_release_last name link found unlocked detached hlast
    · refine exists_of_setCount name link found unlocked detached (cell.count - 1)
        {releases := 1} fun p s stack h => ⟨_, run_release_of_more
          (h.opens link found unlocked) hzero hlast, ?_⟩
      exact congrArg (fun st => (State.onStatistics (fun _ => st) _).hushed)
        (Statistics.addRelease_eq s.statistics)

theorem exists_of_call (hw : w.Settled o) (c : CountCall) :
    ∃ e : ObjectId → Effect, (∀ p, (e p).Of raise name p (w.numbered p) (call c p)) ∧
      Effect.Uniform e ∧ Returns e := by
  cases c with
  | retain => exact exists_of_retain name hraise hw
  | release => exact exists_of_release name hraise hw

/-- Repeated calls stop at the first that unwinds. -/
theorem exists_of_repeatCall (c : CountCall) (via : Convention) (times : Nat) (hw : w.Settled o) :
    ∃ e : ObjectId → Effect, (∀ p, (e p).Of raise name p (w.numbered p)
        fun s stack => repeatCall c (some name) via s stack times) ∧
      Effect.Uniform e ∧ (via = .native → ∀ p, (e p).ending.result?.isSome) := by
  induction times generalizing o w with
  | zero =>
    refine ⟨fun p => ⟨w.numbered p, {}, .answered .done⟩, fun p s stack h => ?_,
      ⟨hw.numbered, fun p => ?_⟩, fun _ _ => rfl⟩
    · have hkept := Effect.fits_of_kept (.returned .done s) h.own rfl
      exact ⟨s, .answered rfl, hkept.state⟩
    · simp only [Effect.unnumbered, Own.numbered_numbered]
  | succ times ih =>
    obtain ⟨e, he, huniform, hends⟩ := exists_of_call name hraise hw c
    have hcall {p : ObjectId} {s : State} (stack : List Frame)
        (h : s.Shows raise name p (w.numbered p)) :
        repeatCall c (some name) via s stack (times + 1) =
          call c p s (guarded via (.repeating c name times via :: stack)) := by
      simp only [repeatCall, callNamed, h.named]
    rcases hends with hdone | hfailed
    · obtain ⟨e', he', huniform', hreturns⟩ := ih (huniform.settled 0)
      refine ⟨fun p => (e p).followed (e' p), fun p s stack h => ?_,
        huniform.followed huniform', hreturns⟩
      obtain ⟨t, ht, hstate⟩ := he p s (guarded via (.repeating c name times via :: stack)) h
      have hshows := h.after hstate
      rw [huniform.own_eq] at hshows
      obtain ⟨u, hu, hstate'⟩ := he' p t stack hshows
      refine ⟨u, ?_, by rw [hstate', hstate, Effect.on_on]⟩
      have hthrough : (e p).ending.through via = .answered .done := by
        rw [hdone]
        cases via <;> rfl
      have hended := ht.guarded.of_run (congrArg run (hcall stack h))
      rw [hthrough] at hended
      cases hended with
      | answered ht => exact hu.of_run (ht.trans (run_of_next? rfl))
    · refine ⟨fun p => {e p with ending := (e p).ending.through via}, fun p s stack h => ?_,
        huniform.ended _ (Ending.unnumbered_through via), ?_⟩
      · obtain ⟨t, ht, hstate⟩ := he p s (guarded via (.repeating c name times via :: stack)) h
        refine ⟨t, ?_, hstate⟩
        have hended := ht.guarded.of_run (congrArg run (hcall stack h))
        obtain ⟨cause, hcause⟩ := hfailed p
        simp only [hcause] at hended ⊢
        cases via with
        | native =>
          cases hended with
          | failed ht => exact .failed (ht.trans (run_of_next? rfl))
        | foreign =>
          cases hended with
          | stopped ht => exact .stopped ht
      · rintro rfl p
        obtain ⟨cause, hcause⟩ := hfailed p
        simp only [hcause]
        rfl

end Machine

end Effects

/-! ### Steps on an object -/

/-- The object that a step on an object goes by. -/
def ObjectAction.name? : ObjectAction → Option String
  | .count name _ | .isUnique name _ => name
  | .isDeallocated name | .hasCell name | .resolve name | .slotIsNull name => some name
  | .clearSlot name | .offsets name | .guard name | .forceCount name _ => some name
  | .write name _ _ | .read name _ _ => some name
  | .guardCell _ | .freeCell _ | .statistics | .faultCount => none

/-- The name of the one object that a step is on. -/
def Step.name? : Step → Option String
  | .call _ name _ _ => name
  | .attempt step => step.name?
  | .act (.object action) => action.name?
  | _ => none

/-- Steps that find something wherever their object is, and do not pass through a foreign call. -/
def ObjectAction.lasting : ObjectAction → Bool
  | .count _ via | .isUnique _ via => via == .native
  | .guard _ | .forceCount _ _ => false
  | _ => true

/-- Steps on an object that the process outlasts as long as faults unwind. -/
def Step.lasting : Step → Bool
  | .call _ _ _ via => via == .native
  | .attempt step => step.lasting
  | .act (.object action) => action.lasting
  | _ => true

/-- What is asked of the object has an effect that follows from what belongs to the object, the same
one under every number. Where it is lasting, the process goes on after it. -/
def Own.Determines (w : Own) (raise : Fault → Cause) (name : String) (lasting : Bool)
    (ask : ObjectId → State → Outcome Answer) : Prop :=
  ∃ e : ObjectId → Effect,
    (∀ p (s : State), s.Shows raise name p (w.numbered p) → (e p).Fits p s (ask p s)) ∧
    Effect.Uniform e ∧ (lasting = true → ∀ p, (e p).ending.result?.isSome)

namespace Own.Determines

variable {raise : Fault → Cause} {name : String} {o : ObjectId} {w : Own} {lasting : Bool}
  {ask : ObjectId → State → Outcome Answer}

/-- The object is asked in no other way. -/
theorem congr {ask' : ObjectId → State → Outcome Answer} (hask : w.Determines raise name lasting ask)
    (h : ∀ p (s : State), s.Shows raise name p (w.numbered p) → ask' p s = ask p s) :
    w.Determines raise name lasting ask' := by
  obtain ⟨e, hfits, hrest⟩ := hask
  refine ⟨e, fun p s hshows => ?_, hrest⟩
  rw [h p s hshows]
  exact hfits p s hshows

/-- What is asked by a convention ends as the convention has it. -/
theorem through (hask : w.Determines raise name true ask) (via : Convention) :
    w.Determines raise name (via == .native) fun p s => (ask p s).through via := by
  obtain ⟨e, hfits, huniform, hreturns⟩ := hask
  refine ⟨fun p => {e p with ending := (e p).ending.through via},
    fun p s h => (hfits p s h).through via, huniform.ended _ (Ending.unnumbered_through via),
    fun hnative p => ?_⟩
  rw [beq_iff_eq.1 hnative]
  exact hreturns rfl p

/-- A look at the object finds the same wherever the object is the same. -/
theorem look (hw : w.Settled o) (answer : Answer)
    (hask : ∀ p (s : State), s.Shows raise name p (w.numbered p) →
      ∃ t, ask p s = .returned answer t ∧ t.hushed = s.hushed) :
    w.Determines raise name lasting ask := by
  refine ⟨fun p => ⟨w.numbered p, {}, .answered answer⟩, fun p s h => ?_,
    ⟨hw.numbered, fun p => ?_⟩, fun _ _ => rfl⟩
  · obtain ⟨t, hreturned, hsame⟩ := hask p s h
    rw [hreturned]
    exact Effect.fits_of_kept (.returned answer t) h.own hsame
  · simp only [Effect.unnumbered, Own.numbered_numbered]

/-- What belongs to the object changes, and nothing else. -/
theorem change (f : Own → Own) (hnumbered : ∀ p, f (w.numbered p) = (f w).numbered p)
    (hsettled : (f w).Settled o)
    (hask : ∀ p (s : State), s.Shows raise name p (w.numbered p) →
      ∃ g : Heap → Heap, ask p s = .returned .done (s.onHeap g) ∧
        g s.heap = s.heap.put p (f (w.numbered p))) :
    w.Determines raise name lasting ask := by
  refine ⟨fun p => ⟨(f w).numbered p, {}, .answered .done⟩, fun p s h => ?_,
    ⟨hsettled.numbered, fun p => ?_⟩, fun _ _ => rfl⟩
  · obtain ⟨g, hreturned, hg⟩ := hask p s h
    rw [hreturned]
    exact Effect.fits_of_put (hnumbered p ▸ hg)
  · simp only [Effect.unnumbered, Own.numbered_numbered]

/-- What makes no sense for an object that is gone ends the session. -/
theorem malformed (hlink : w.object.link = none)
    (hask : ∀ p (s : State), s.Shows raise name p (w.numbered p) → s.heap.link? p = none →
      ask p s = .halted .malformed s) : w.Determines raise name false ask := by
  have hw : w.Settled 0 := .gone hlink
  refine ⟨fun p => ⟨w.numbered p, {}, .stopped .malformed⟩, fun p s h => ?_,
    ⟨hw.numbered, fun p => ?_⟩, nofun⟩
  · rw [hask p s h (h.link?_eq_none hlink)]
    exact Effect.fits_of_kept (.halted .malformed s) h.own rfl
  · simp only [Effect.unnumbered, Own.numbered_numbered]

end Own.Determines

section Steps

variable {raise : Fault → Cause} {name : String} {o : ObjectId} {w : Own}
  {faults : FaultHandling} (hraise : faults.raises = some raise)
include hraise

/-- A query that needs the object's cell finds it, or reports that the object is gone. -/
theorem determines_query {ask : ObjectId → State → Outcome Answer} (answer : Cell → Answer)
    (hgone : ∀ (p : ObjectId) (s : State), s.heap.link? p = none →
      ask p s = s.report (.useAfterFree (.object p)))
    (hopens : ∀ (p : ObjectId) (s : State) (cell : Cell), s.heap.Opens p p cell →
      ∃ t, ask p s = .returned (answer cell) t ∧ t.hushed = s.hushed)
    (hw : w.Settled o) : w.Determines raise name true ask := by
  cases hw with
  | gone link =>
    refine ⟨fun p => ⟨w.numbered p, {faults := 1}, .failed (raise (.useAfterFree (.object p)))⟩,
      fun p s h => ?_, ⟨(Own.Settled.gone (o := o) link).numbered, fun p => ?_⟩, fun _ _ => rfl⟩
    · rw [hgone p s (h.link?_eq_none link)]
      exact Effect.fits_of_fault h _
    · have hcause : (raise (.useAfterFree (.object p))).unnumbered =
          (raise (.useAfterFree (.object 0))).unnumbered :=
        FaultHandling.raises_unnumbered hraise rfl
      simp only [Effect.unnumbered, Own.numbered_numbered, Ending.unnumbered, hcause]
  | live cell link found unlocked detached =>
    exact .look (.live cell link found unlocked detached) (answer cell) fun p s h =>
      hopens p s cell (h.opens link found unlocked)

theorem determines_count (hw : w.Settled o) (via : Convention) :
    w.Determines raise name (via == .native) fun _ s =>
      s.performObject (.count (some name) via) := by
  have hquery : w.Determines raise name true fun p s =>
      (s.count p).map fun n => .number n.toNat :=
    determines_query hraise (fun cell => .number cell.count.toNat)
      (fun p s hgone => by
        rw [State.count, State.access_of_gone hgone, Outcome.map, State.report_andThen])
      (fun p s cell hopens => ⟨s.trace .counted p cell.count, by
        rw [State.count_of_opens hopens]
        rfl, rfl⟩) hw
  refine (hquery.through via).congr fun p s h => ?_
  simp only [State.performObject, State.withInstance, State.withObject, State.given, h.named]

theorem determines_isUnique (hw : w.Settled o) (via : Convention) :
    w.Determines raise name (via == .native) fun _ s =>
      s.performObject (.isUnique (some name) via) := by
  have hquery : w.Determines raise name true fun p s =>
      (s.isUnique p).map (State.uniqueAnswer via) :=
    determines_query hraise (fun cell => State.uniqueAnswer via (cell.count == 1))
      (fun p s hgone => by
        rw [State.isUnique, State.access_of_gone hgone, Outcome.map, State.report_andThen])
      (fun p s cell hopens => ⟨s, by
        rw [State.isUnique_of_opens hopens]
        rfl, rfl⟩) hw
  refine (hquery.through via).congr fun p s h => ?_
  simp only [State.performObject, State.withInstance, State.withObject, State.given, h.named]

theorem determines_resolve (hw : w.Settled o) :
    w.Determines raise name true fun _ s => s.performObject (.resolve name) := by
  have hquery : w.Determines raise name true fun p s => (s.resolve p).map fun _ => .resolved :=
    determines_query hraise (fun _ => .resolved)
      (fun p s hgone => by
        rw [State.resolve_of_gone hgone, Outcome.map, State.report_andThen])
      (fun p s cell hopens => ⟨s, by
        rw [State.resolve_of_link hopens.link]
        rfl, rfl⟩) hw
  refine hquery.congr fun p s h => ?_
  simp only [State.performObject, State.withObject, State.given, h.named]

omit hraise in
theorem determines_write (hw : w.Settled o) (start : Nat) (bytes : List UInt8) :
    w.Determines raise name true fun _ s => s.performObject (.write name start bytes) := by
  refine .change (fun w => {w with object := {w.object with
    contents := w.object.contents.write start bytes}}) (fun _ => rfl) (o := o) ?_ fun p s h => ?_
  · cases hw with
    | gone link => exact .gone link
    | live cell link found unlocked detached => exact .live cell link found unlocked detached
  · simp only [State.performObject, State.withObject, State.given, h.named,
      Heap.object?_of_own? h.own]
    exact ⟨_, rfl, Heap.updateObject_eq_put h.own _⟩

omit hraise in
/-- A guard is taken and given back: the object is left as it was. -/
theorem determines_guard (hw : w.Settled o) :
    w.Determines raise name false fun _ s => s.performObject (.guard name) := by
  cases hw with
  | gone link =>
    exact .malformed link fun p s h hgone => by
      simp only [State.performObject, State.withObject, State.guard, State.given, h.named, hgone]
  | live cell link found unlocked detached =>
    refine .look (.live cell link found unlocked detached)
      (.guarded (State.guardView {cell with locked := true} Text.Shape.inline)
        (some (cell.locked, cell.shape.inline))) fun p s h => ⟨s, ?_, rfl⟩
    have hopens := h.opens link found unlocked
    simp only [State.performObject, State.withObject, State.guard, State.given, h.named,
      hopens.link, State.lock_of_unlocked hopens.found unlocked, Outcome.andThen_returned,
      State.unlock_lock hopens.found unlocked, hopens.found]

omit hraise in
theorem determines_forceCount (hw : w.Settled o) (count : UInt32) :
    w.Determines raise name false fun _ s => s.performObject (.forceCount name count) := by
  cases hw with
  | gone link =>
    exact .malformed link fun p s h hgone => by
      simp only [State.performObject, State.withObject, State.given, h.named, hgone]
  | live cell link found unlocked detached =>
    refine .change (·.recounted cell count) (fun _ => rfl)
      (.recounted link unlocked detached count) fun p s h => ?_
    simp only [State.performObject, State.withObject, State.given, h.named,
      (h.opens link found unlocked).link]
    refine ⟨_, rfl, (Heap.updateCell_eq_put h.own _).trans ?_⟩
    rw [Own.cell_numbered, found]
    rfl

/-- An operation on an object has an effect that follows from the object. -/
theorem ObjectAction.determined {action : ObjectAction} (hname : action.name? = some name)
    (hw : w.Settled o) :
    w.Determines raise name action.lasting fun _ s => s.performObject action := by
  cases action with
  | guardCell _ | freeCell _ | statistics | faultCount => cases hname
  | count name' via =>
    obtain rfl : name' = some name := hname
    exact determines_count hraise hw via
  | isUnique name' via =>
    obtain rfl : name' = some name := hname
    exact determines_isUnique hraise hw via
  | resolve name' =>
    cases hname
    exact determines_resolve hraise hw
  | write name' start bytes =>
    cases hname
    exact determines_write hw start bytes
  | guard name' =>
    cases hname
    exact determines_guard hw
  | forceCount name' count =>
    cases hname
    exact determines_forceCount hw count
  | clearSlot name' =>
    cases hname
    refine .change (fun w => {w with object := {w.object with link := none}}) (fun _ => rfl)
      (.gone (o := o) rfl) fun p s h => ?_
    simp only [State.performObject, State.withObject, State.given, h.named]
    exact ⟨_, rfl, Heap.updateObject_eq_put h.own _⟩
  | isDeallocated name' | slotIsNull name' =>
    cases hname
    refine .look hw (.flag w.object.link.isNone) fun p s h => ⟨s, ?_, rfl⟩
    simp only [State.performObject, State.withObject, State.given, h.named,
      Heap.link?_of_own? h.own, Own.link_numbered, Option.isNone_map]
  | hasCell name' =>
    cases hname
    refine .look hw (.flag w.object.link.isSome) fun p s h => ⟨s, ?_, rfl⟩
    simp only [State.performObject, State.withObject, State.given, h.named,
      Heap.link?_of_own? h.own, Own.link_numbered, Option.isSome_map]
  | offsets name' =>
    cases hname
    refine .look hw (.offsets (Layout.payloadOf 0 - Layout.baseOf (Layout.payloadOf 0))
      (Layout.payloadOf (Layout.baseOf (Layout.payloadOf 0)) == Layout.payloadOf 0))
      fun p s h => ⟨s, ?_, rfl⟩
    simp only [State.performObject, State.withObject, State.given, h.named]
  | read name' start length =>
    cases hname
    refine .look hw (.integers ((w.object.contents.read start length).map fun b => b.toNat))
      fun p s h => ⟨s, ?_, rfl⟩
    simp only [State.performObject, State.withObject, State.given, h.named,
      Heap.object?_of_own? h.own, Own.contents_numbered]

/-- **A step on an object does what follows from that object alone.** -/
theorem Step.exists_of : ∀ {step : Step}, step.name? = some name → w.Settled o →
    ∃ e : ObjectId → Effect, (∀ p, (e p).Of raise name p (w.numbered p)
        fun s stack => ⟨s, .perform step, stack⟩) ∧
      Effect.Uniform e ∧ (step.lasting = true → ∀ p, (e p).ending.result?.isSome)
  | .call c name' times via, hname, hw => by
    obtain rfl : name' = some name := hname
    obtain ⟨e, he, huniform, hreturns⟩ := Machine.exists_of_repeatCall name hraise c via times hw
    refine ⟨e, fun p s stack h => ?_, huniform, fun hlasting => hreturns (beq_iff_eq.1 hlasting)⟩
    obtain ⟨t, ht, hstate⟩ := he p s stack h
    exact ⟨t, ht.of_next? rfl, hstate⟩
  | .attempt step, hname, hw => by
    obtain ⟨e, he, huniform, hreturns⟩ :=
      Step.exists_of (show step.name? = some name from hname) hw
    refine ⟨fun p => {e p with ending := (e p).ending.caught}, fun p s stack h => ?_,
      huniform.ended _ Ending.unnumbered_caught, fun hlasting p => ?_⟩
    · obtain ⟨t, ht, hstate⟩ := he p s (.attempt :: stack) h
      exact ⟨t, ht.attempt.of_next? rfl, hstate⟩
    · have := hreturns hlasting p
      revert this
      dsimp only
      cases (e p).ending <;> exact id
  | .act (.object action), hname, hw => by
    obtain ⟨e, he, huniform, hreturns⟩ := action.determined hraise hname hw
    refine ⟨e, fun p s stack h => ?_, huniform, hreturns⟩
    obtain ⟨t, ht, hstate⟩ := Machine.exists_ends_settle (he p s h) stack
    exact ⟨t, ht.of_next? rfl, hstate⟩

end Steps
end Custody
