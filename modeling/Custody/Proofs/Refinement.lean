import Custody.Proofs.Ideal
import Custody.Proofs.LockDiscipline
import Mathlib.Data.List.Forall2

/-! The runtime refines the ideal of counting.

A session whose steps count goes through its stages as the ideal does, transition by
transition: the same results and the same control, and every object where the ideal has
it (`Session.refines`). Of a cell the ideal knows the count while the cell is unlocked;
that an object has a cell to itself, and that a locked one is being torn down, is what
the lock discipline says. -/
namespace Custody

/-! ### What the ideal sees of a state -/

/-- Where an object stands, by the cell that governs it. -/
def standingOf : Option Cell → Ideal.Standing
  | none => .gone
  | some cell => if cell.locked then .going else .counted cell.count.toNat

namespace State

/-- Where an object stands, if there is one. -/
def standing? (o : ObjectId) (s : State) : Option Ideal.Standing :=
  if o < s.heap.objects.length then some (standingOf (s.heap.governing? o)) else none

/-- Whether an allocation ends the process: its allocator is not known, or refuses. -/
def allocationEnds (name : Option String) (size : UInt64) (s : State) : Option Halt :=
  match s.provider? name, Layout.ofPayload? size with
  | none, _ => some .malformed
  | some _, none => none
  | some provider, some layout =>
    match s.requestRegion provider layout with
    | .returned true _ => none
    | .returned false _ => some .aborted
    | .unwound _ _ => none
    | .halted halt _ => some halt

end State

/-- What a fault unwinds with, if it unwinds. -/
def FaultHandling.raises (faults : FaultHandling) : Option (Fault → Cause) :=
  match faults.reporter, faults.policy with
  | some .unwinding, _ => some .reported
  | some .exiting, _ => none
  | none, .panic => some .fault
  | none, .abort => none

def Machine.allocationEnds (m : Machine) : Option Halt :=
  match m.control with
  | .perform (.allocate _ size _ provider _) => m.state.allocationEnds provider size
  | _ => none

def Stage.allocationEnds (st : Stage) : Option Halt :=
  match st.position with
  | .between _ => none
  | .during m => m.allocationEnds

/-- A world has the objects of a state where they stand. -/
structure Agrees (raise : Fault → Cause) (s : State) (w : Ideal.World) : Prop where
  raises : s.faults.raises = some raise
  names : w.names = s.names.objects
  size : w.standings.length = s.heap.objects.length
  routines : w.routines.length = s.heap.objects.length
  standing (o : ObjectId) : w.standings[o]? = s.standing? o
  /-- A finalizer waits in its cell until the teardown begins. -/
  routine (o : ObjectId) (cell : Cell) (found : s.heap.governing? o = some cell)
    (unlocked : cell.locked = false) : cell.finalizer = (w.routine? o).map .routine
  counting (o : ObjectId) : routineCounting (w.routine? o) = true

namespace Agrees

variable {raise : Fault → Cause} {s t : State} {w : Ideal.World} {o : ObjectId} {c : CellId}
  {cell : Cell}

theorem congr (h : Agrees raise s w) (hheap : t.heap = s.heap)
    (hnames : t.names.objects = s.names.objects) (hfaults : t.faults.raises = s.faults.raises) :
    Agrees raise t w where
  raises := hfaults.trans h.raises
  names := h.names.trans hnames.symm
  size := by
    rw [hheap]
    exact h.size
  routines := by
    rw [hheap]
    exact h.routines
  standing o := by
    rw [h.standing]
    simp only [State.standing?, hheap]
  routine := by
    rw [hheap]
    exact h.routine
  counting := h.counting

theorem observe (h : Agrees raise s w) (event : Event) : Agrees raise (s.observe event) w :=
  h.congr rfl rfl rfl

theorem discard (h : Agrees raise s w) (finalizer : Option Finalizer) :
    Agrees raise (s.discard finalizer) w := by
  unfold State.discard
  split
  · exact h.observe _
  · exact h

/-- Every fault unwinds. -/
theorem report (h : Agrees raise s w) (f : Fault) :
    ∃ t, (∀ α, (s.report f : Outcome α) = .unwound (raise f) t) ∧ Agrees raise t w := by
  have hraises := h.raises
  unfold FaultHandling.raises at hraises
  unfold State.report
  split at hraises
  · next hreporter =>
    cases hraises
    simp only [hreporter]
    exact ⟨_, fun α => rfl, h.congr rfl rfl (by simp [FaultHandling.raises, hreporter])⟩
  · cases hraises
  · next hreporter hpolicy =>
    cases hraises
    simp only [hreporter, hpolicy]
    exact ⟨_, fun α => rfl,
      h.congr rfl rfl (by simp [FaultHandling.raises, State.log, hreporter, hpolicy])⟩
  · cases hraises

/-! ### Where objects stand -/

theorem standing_of_gone (h : Agrees raise s w) (hlink : s.heap.link? o = none) :
    w.standings[o]? = none ∨ w.standings[o]? = some .gone := by
  rw [h.standing, State.standing?, Heap.governing?, hlink]
  split
  · exact .inr rfl
  · exact .inl rfl

theorem standing_of_found (h : Agrees raise s w) (hlink : s.heap.link? o = some c)
    (hc : s.heap.cell? c = some cell) : w.standings[o]? = some (standingOf (some cell)) := by
  have hlt : o < s.heap.objects.length := by
    obtain ⟨object, hobject, _⟩ := Option.bind_eq_some_iff.1 hlink
    exact (List.getElem?_eq_some_iff.1 hobject).1
  rw [h.standing, State.standing?, if_pos hlt, Heap.governing?, hlink, Option.bind_some, hc]

/-! ### Changes -/

/-- What governs one of the objects changes. -/
theorem change (h : Agrees raise s w) (found : Option Cell)
    (hsize : t.heap.objects.length = s.heap.objects.length)
    (hgoverning : ∀ p, t.heap.governing? p = if o = p then found else s.heap.governing? p)
    (hfound : ∀ cell, found = some cell → cell.locked = false →
      cell.finalizer = (w.routine? o).map .routine)
    (hnames : t.names.objects = s.names.objects) (hfaults : t.faults.raises = s.faults.raises) :
    Agrees raise t (w.put o (standingOf found)) where
  raises := hfaults.trans h.raises
  names := h.names.trans hnames.symm
  size := by
    rw [hsize, ← h.size]
    exact List.length_set
  routines := h.routines.trans hsize.symm
  standing p := by
    rw [Ideal.World.getElem?_put, h.standing, State.standing?, State.standing?, hsize, hgoverning]
    by_cases hp : o = p
    · rw [if_pos hp, if_pos hp]
      split <;> rfl
    · rw [if_neg hp, if_neg hp]
  routine p cell hp hunlocked := by
    rw [hgoverning] at hp
    split at hp
    · next hop =>
      subst hop
      exact hfound cell hp hunlocked
    · exact h.routine p cell hp hunlocked
  counting := h.counting

/-- The cell of an object changes, and it governs no other object. -/
theorem updateCell (h : Agrees raise s w) (hopens : s.heap.Opens o c cell)
    (hsingle : ∀ p, s.heap.link? p = some c → p = o) {f : Cell → Cell}
    (hf : (f cell).locked = false → (f cell).finalizer = cell.finalizer) :
    Agrees raise (s.onHeap (·.updateCell c f)) (w.put o (standingOf (some (f cell)))) := by
  refine h.change (some (f cell)) rfl (fun p => ?_) (fun other hother hunlocked => ?_) rfl rfl
  · show (s.heap.link? p).bind (s.heap.updateCell c f).cell? = _
    split
    · next hop => simp [← hop, hopens.link, hopens.found]
    · next hop =>
      cases hl : s.heap.link? p with
      | none => simp [Heap.governing?, hl]
      | some d =>
        have hcd : c ≠ d := fun hcd => hop (hsingle p (hl.trans (congrArg some hcd.symm))).symm
        simp [Heap.governing?, hl, Heap.cell?_updateCell_of_ne f hcd]
  · cases hother
    rw [hf hunlocked]
    exact h.routine o cell (by simp [Heap.governing?, hopens.link, hopens.found]) hopens.unlocked

/-- The object is deallocated at the end of its teardown. -/
theorem finish {t : Teardown} (h : Agrees raise s w) (hc : s.heap.cell? t.cell = some cell)
    (hnone : cell.finalizer = none) (hown : ∀ p, s.heap.link? p = some t.cell → p = t.object) :
    Agrees raise (s.finish t) (w.put t.object .gone) := by
  rw [State.finish_of_taken hc hnone]
  refine h.change none ?_ (fun p => ?_) nofun rfl rfl
  · exact List.length_modify _ _ _
  · show (s.heap.bury t).governing? p = _
    unfold Heap.governing?
    rw [Heap.link?_bury]
    split
    · rfl
    · next hp =>
      cases hl : s.heap.link? p with
      | none => rfl
      | some d =>
        have htd : t.cell ≠ d := fun htd => hp (hown p (hl.trans (congrArg some htd.symm))).symm
        rw [Option.bind_some, Option.bind_some, Heap.cell?_bury, if_neg htd]

/-- A new object has a cell of its own, with the routine that it was created with. -/
theorem create (h : Agrees raise s w)
    (hlive : ∀ p d, s.heap.link? p = some d → d < s.heap.cells.length) (name : String)
    (size : UInt64) (contents : Contents) {routine : Option (Routine Step)}
    (hroutine : routineCounting routine = true)
    (hheap : t.heap = (s.heap.addObject size contents (routine.map .routine)).2)
    (hnames : t.names.objects = s.names.objects.bind name s.heap.objects.length)
    (hfaults : t.faults.raises = s.faults.raises) : Agrees raise t (w.create name routine) := by
  have hsize : t.heap.objects.length = s.heap.objects.length + 1 := by
    rw [hheap]
    exact List.length_append
  have hgoverning (p : ObjectId) : t.heap.governing? p =
      if p = s.heap.objects.length then some {finalizer := routine.map .routine}
      else s.heap.governing? p := by
    rw [hheap]
    exact Heap.governing?_addObject hlive size contents _ p
  have hroutine? (p : ObjectId) : (w.create name routine).routine? p =
      if p = s.heap.objects.length then routine else w.routine? p := by
    rw [Ideal.World.routine?_create, h.routines]
  refine {
    raises := hfaults.trans h.raises
    names := ?names
    size := ?size
    routines := ?routines
    standing := ?standing
    routine := ?waiting
    counting := ?counting }
  case names =>
    rw [hnames, ← h.names, ← h.size]
    rfl
  case size =>
    rw [hsize, ← h.size]
    exact List.length_append
  case routines =>
    rw [hsize, ← h.routines]
    exact List.length_append
  case standing =>
    intro p
    rw [Ideal.World.getElem?_create, h.size, h.standing, State.standing?, State.standing?, hsize,
      hgoverning]
    split
    · next hnew =>
      rw [if_pos (hnew ▸ Nat.lt_succ_self _)]
      rfl
    · next hold =>
      have hlt : p < s.heap.objects.length + 1 ↔ p < s.heap.objects.length :=
        ⟨fun h => Nat.lt_of_le_of_ne (Nat.le_of_lt_succ h) hold, Nat.lt_succ_of_lt⟩
      simp only [hlt]
  case waiting =>
    intro p cell hp hunlocked
    rw [hgoverning] at hp
    rw [hroutine?]
    split at hp
    · next hnew =>
      cases hp
      rw [if_pos hnew]
    · next hold =>
      rw [if_neg hold]
      exact h.routine p cell hp hunlocked
  case counting =>
    intro p
    rw [hroutine?]
    split
    · exact hroutine
    · exact h.counting p

end Agrees
/-! ### Machines -/

/-- A frame and what the ideal has in its place. -/
inductive Frame.Matches : Frame → Ideal.Frame → Prop where
  | repeating (c : CountCall) (name : Option String) (times : Nat) (via : Convention) :
    Matches (.repeating c name times via) (.repeating c name times via)
  | routine (label : String) {rest : List Step} (h : bodyCounting rest = true) :
    Matches (.routine label rest) (.routine label rest)
  | teardown (t : Teardown) : Matches (.teardown t) (.closing t.object)
  | barrier : Matches .barrier .barrier
  | attempt : Matches .attempt .attempt

def Control.counting : Control → Bool
  | .perform step => step.counting
  | _ => true

structure Machine.Matches (raise : Fault → Cause) (m : Machine) (im : Ideal.Machine) : Prop where
  agrees : Agrees raise m.state im.world
  control : im.control = m.control
  counting : m.control.counting = true
  stack : List.Forall₂ Frame.Matches m.stack im.stack

namespace Machine

variable {raise : Fault → Cause} {s t : State} {w : Ideal.World} {stack : List Frame}
  {istack : List Ideal.Frame} {m : Machine} {o : ObjectId}

theorem matches_guarded (hstack : List.Forall₂ Frame.Matches stack istack) (via : Convention) :
    List.Forall₂ Frame.Matches (guarded via stack) (Ideal.Machine.guarded via istack) := by
  cases via with
  | native => exact hstack
  | foreign => exact .cons .barrier hstack

theorem matches_report (h : Agrees raise s w) (hstack : List.Forall₂ Frame.Matches stack istack)
    (f : Fault) : (settle (s.report f) stack).Matches raise ⟨w, .unwind (raise f), istack⟩ := by
  obtain ⟨t, ht, hagrees⟩ := h.report f
  rw [ht]
  exact ⟨hagrees, rfl, rfl, hstack⟩

/-! ### Counting -/

theorem matches_continueRoutine (h : Agrees raise s w)
    (hstack : List.Forall₂ Frame.Matches stack istack) (label : String) {steps : List Step}
    (hsteps : bodyCounting steps = true) :
    (continueRoutine label s stack steps).Matches raise
      (Ideal.Machine.continueRoutine label w istack steps) := by
  cases steps with
  | nil => exact ⟨h.congr rfl rfl rfl, rfl, rfl, hstack⟩
  | cons step rest =>
    simp only [bodyCounting, Bool.and_eq_true] at hsteps
    exact ⟨h, rfl, hsteps.1, .cons (.routine label hsteps.2) hstack⟩

section Counting

variable {earlier : List Event} {ts : List Teardown} (hsound : Sound (s.view.since earlier) ts)
  (h : Agrees raise s w) (hstack : List.Forall₂ Frame.Matches stack istack)

include hsound h

theorem agrees_recount {c : CellId} {cell : Cell} (hopens : s.heap.Opens o c cell) (count : UInt32) :
    Agrees raise (s.onHeap (·.setCount c count)) (w.put o (.counted count.toNat)) := by
  have hupdated := h.updateCell hopens (fun p hp => hsound.single p o c hp hopens.link)
    (f := fun cell => {cell with count}) fun _ => rfl
  rwa [standingOf, hopens.unlocked] at hupdated

include hstack

/-- What operations on an object's count share. -/
theorem matches_counted {next : Nat → Ideal.Machine}
    (hgone : s.heap.link? o = none → m = settle (s.report (.useAfterFree (.object o))) stack)
    (hbarred : ∀ c, s.heap.link? o = some c →
      (∀ cell, s.heap.cell? c = some cell → cell.locked = true) → m = ⟨s, .halt .blocked, stack⟩)
    (hopens : ∀ c cell, s.heap.Opens o c cell → m.Matches raise (next cell.count.toNat)) :
    m.Matches raise (Ideal.Machine.counted raise o w istack next) := by
  unfold Ideal.Machine.counted
  rcases s.heap.access o with hlink | ⟨c, hlink, hclosed⟩ | ⟨c, cell, hcell⟩
  · rw [hgone hlink]
    rcases h.standing_of_gone hlink with hstanding | hstanding
    · rw [hstanding]
      exact matches_report h hstack _
    · rw [hstanding]
      exact matches_report h hstack _
  · obtain ⟨cell, hc⟩ := hsound.alive o c hlink
    rw [h.standing_of_found hlink hc, hbarred c hlink hclosed]
    simp only [standingOf, hclosed cell hc, if_true]
    exact ⟨h, rfl, rfl, hstack⟩
  · rw [h.standing_of_found hcell.link hcell.found]
    simp only [standingOf, hcell.unlocked]
    exact hopens c cell hcell

theorem matches_retain :
    (settle ((s.retain o).map fun _ => .done) stack).Matches raise
      (Ideal.Machine.retain raise o w istack) := by
  refine matches_counted hsound h hstack (fun hlink => ?_) (fun c hlink hclosed => ?_)
    fun c cell hopens => ?_
  · rw [State.retain, State.access_of_gone hlink, Outcome.map, State.report_andThen]
  · rw [State.retain, State.access_of_barred hlink hclosed]
    rfl
  · rw [State.retain_of_opens hopens]
    by_cases hmax : cell.count = maxCount
    · rw [if_pos hmax, if_neg (by rw [hmax]; exact Nat.lt_irrefl _), hmax, Outcome.map,
        State.report_andThen]
      exact matches_report h hstack _
    · obtain ⟨hlt, hcount⟩ := toNat_add_one hmax
      rw [if_neg hmax, if_pos hlt, ← hcount]
      exact ⟨(agrees_recount hsound h hopens _).congr rfl rfl rfl, rfl, rfl, hstack⟩

/-- The release of the last reference. -/
theorem matches_close {c : CellId} {cell : Cell} (hopens : s.heap.Opens o c cell) :
    (finalize ⟨o, c⟩ cell.finalizer (s.begin ⟨o, c⟩) stack).Matches raise
      (Ideal.Machine.close o w istack) := by
  have hbegun : Agrees raise (s.begin ⟨o, c⟩) (w.put o .going) :=
    (h.updateCell hopens (fun p hp => hsound.single p o c hp hopens.link)
      (f := fun _ => {locked := true}) nofun).congr rfl rfl rfl
  have hframes : List.Forall₂ Frame.Matches (.teardown ⟨o, c⟩ :: stack) (.closing o :: istack) :=
    .cons (.teardown ⟨o, c⟩) hstack
  have hroutine : cell.finalizer = (w.routine? o).map .routine :=
    h.routine o cell (by simp [Heap.governing?, hopens.link, hopens.found]) hopens.unlocked
  have hcounting := h.counting o
  unfold finalize Ideal.Machine.close
  cases hr : w.routine? o with
  | none =>
    rw [hr] at hroutine
    simp only [hroutine, Option.map_none]
    exact ⟨hbegun, rfl, rfl, hframes⟩
  | some r =>
    rw [hr] at hroutine hcounting
    rw [routineCounting_some] at hcounting
    simp only [hroutine, Option.map_some]
    exact matches_continueRoutine (hbegun.observe _) (matches_guarded hframes _) _ hcounting

theorem matches_release :
    (release o s stack).Matches raise (Ideal.Machine.release raise o w istack) := by
  refine matches_counted hsound h hstack (fun hlink => ?_) (fun c hlink hclosed => ?_)
    fun c cell hopens => ?_
  · obtain ⟨t, ht, _⟩ := h.report (.useAfterFree (.object o))
    rw [release, State.release, State.access_of_gone hlink, ht, ht]
    rfl
  · rw [release, State.release, State.access_of_barred hlink hclosed]
  · by_cases hzero : cell.count = 0
    · obtain ⟨t, ht, hagrees⟩ := h.report (.releaseUnderflow (.object o))
      rw [release, State.release_of_opens hopens, if_pos hzero, ht, hzero]
      exact ⟨hagrees, rfl, rfl, hstack⟩
    · by_cases hone : cell.count = 1
      · rw [release_of_last hopens hone, hone]
        exact matches_close hsound h hstack hopens
      · have hpred := toNat_sub_one hzero
        have hrest : ∃ n, (cell.count - 1).toNat = n + 1 := by
          refine Nat.exists_eq_succ_of_ne_zero fun heq => hone ?_
          rw [← State.sub_one_eq_zero_iff hzero]
          exact UInt32.toNat_inj.1 heq
        obtain ⟨n, hn⟩ := hrest
        rw [release, State.release_of_opens hopens, if_neg hzero, if_neg hone, hpred, hn]
        have hagrees := agrees_recount hsound h hopens (cell.count - 1)
        rw [hn] at hagrees
        exact ⟨hagrees.congr rfl rfl rfl, rfl, rfl, hstack⟩

theorem matches_count :
    (settle ((s.count o).map fun n => .number n.toNat) stack).Matches raise
      (Ideal.Machine.counted raise o w istack fun n => ⟨w, .answer (.number n), istack⟩) := by
  refine matches_counted hsound h hstack (fun hlink => ?_) (fun c hlink hclosed => ?_)
    fun c cell hopens => ?_
  · rw [State.count, State.access_of_gone hlink, Outcome.map, State.report_andThen]
  · rw [State.count, State.access_of_barred hlink hclosed]
    rfl
  · rw [State.count_of_opens hopens]
    exact ⟨h.congr rfl rfl rfl, rfl, rfl, hstack⟩

theorem matches_isUnique (via : Convention) :
    (settle ((s.isUnique o).map (State.uniqueAnswer via)) stack).Matches raise
      (Ideal.Machine.counted raise o w istack fun n =>
        ⟨w, .answer (Ideal.Machine.onlyOne via n), istack⟩) := by
  refine matches_counted hsound h hstack (fun hlink => ?_) (fun c hlink hclosed => ?_)
    fun c cell hopens => ?_
  · rw [State.isUnique, State.access_of_gone hlink, Outcome.map, State.report_andThen]
  · rw [State.isUnique, State.access_of_barred hlink hclosed]
    rfl
  · have hone : (cell.count == 1) = decide (cell.count.toNat = 1) := by
      rw [beq_eq_decide]
      exact decide_eq_decide.2 UInt32.toNat_inj.symm
    have hanswer : Ideal.Machine.onlyOne via cell.count.toNat =
        State.uniqueAnswer via (cell.count == 1) := by
      rw [hone]
      cases via with
      | native => rfl
      | foreign => exact (State.uniqueAnswer_foreign _).symm
    rw [State.isUnique_of_opens hopens, hanswer]
    exact ⟨h, rfl, rfl, hstack⟩

/-! ### Calls -/

theorem matches_call (c : CountCall) :
    (call c o s stack).Matches raise (Ideal.Machine.call raise c o w istack) := by
  cases c with
  | retain => exact matches_retain hsound h hstack
  | release => exact ⟨h, rfl, rfl, hstack⟩

end Counting

theorem matches_repeatCall {earlier : List Event} {ts : List Teardown}
    (hsound : Sound (s.view.since earlier) ts) (h : Agrees raise s w)
    (hstack : List.Forall₂ Frame.Matches stack istack) (c : CountCall) (name : Option String)
    (via : Convention) (times : Nat) :
    (repeatCall c name via s stack times).Matches raise
      (Ideal.Machine.repeatCall raise c name via w istack times) := by
  cases times with
  | zero => exact ⟨h, rfl, rfl, hstack⟩
  | succ times =>
    have hframes := matches_guarded (.cons (.repeating c name times via) hstack) via
    simp only [repeatCall, Ideal.Machine.repeatCall, callNamed, Ideal.Machine.named]
    cases name with
    | none => exact matches_report h hframes _
    | some name =>
      rw [h.names]
      simp only
      cases s.names.objects.find? name with
      | none => exact ⟨h, rfl, rfl, hframes⟩
      | some o => exact matches_call hsound h hframes c

/-- A question about a named object, once the object is found. -/
theorem matches_named (h : Agrees raise s w) (hstack : List.Forall₂ Frame.Matches stack istack)
    (exportName : String) (name : Option String) {next : ObjectId → Outcome Answer}
    {inext : ObjectId → Ideal.Machine}
    (hnext : ∀ o, (settle (next o) stack).Matches raise (inext o)) :
    (settle (s.withInstance exportName name next) stack).Matches raise
      (Ideal.Machine.named raise exportName name w istack inext) := by
  unfold State.withInstance Ideal.Machine.named
  cases name with
  | none => exact matches_report h hstack _
  | some name =>
    rw [h.names]
    simp only [State.withObject, State.given]
    cases s.names.objects.find? name with
    | none => exact ⟨h, rfl, rfl, hstack⟩
    | some o => exact hnext o

theorem matches_through (via : Convention) {out : Outcome Answer} {im : Ideal.Machine}
    (h : (settle out stack).Matches raise im) :
    (settle (out.through via) stack).Matches raise (Ideal.Machine.through via im) := by
  obtain ⟨w, control, istack⟩ := im
  have hcontrol := h.control
  cases via with
  | native =>
    rw [Outcome.through_native]
    exact h
  | foreign =>
    cases out with
    | returned answer t =>
      cases hcontrol
      exact h
    | unwound cause t =>
      cases hcontrol
      exact ⟨h.agrees, rfl, rfl, h.stack⟩
    | halted halt t =>
      cases hcontrol
      exact h

/-! ### Creation -/

theorem counting_passedRoutine (via : Convention) {routine : Option (Routine Step)}
    (h : routineCounting routine = true) : routineCounting (passedRoutine via routine) = true := by
  obtain hall | hlost := passedRoutine_eq_or via routine
  · rwa [hall]
  · rw [hlost]
    rfl

/-- An allocator answers or is not there, and objects are left as they were. -/
theorem agrees_requestRegion (h : Agrees raise s w) (provider : Option AllocatorId)
    (layout : Layout) :
    s.requestRegion provider layout = .halted .malformed s ∨
      ∃ granted t, s.requestRegion provider layout = .returned granted t ∧ t.heap = s.heap ∧
        Agrees raise t w := by
  unfold State.requestRegion State.given
  cases s.allocators.quota? provider with
  | none => exact .inl rfl
  | some q =>
    refine .inr ⟨_, _, rfl, ?_⟩
    split
    · exact ⟨rfl, h.congr rfl rfl rfl⟩
    · exact ⟨rfl, h.congr rfl rfl rfl⟩

theorem matches_allocate {earlier : List Event} {ts : List Teardown}
    (hsound : Sound (s.view.since earlier) ts) (h : Agrees raise s w)
    (hstack : List.Forall₂ Frame.Matches stack istack) (name : String) (size : UInt64)
    {routine : Option (Routine Step)} (hroutine : routineCounting routine = true)
    (provider : Option String) (via : Convention) :
    (perform s stack (.allocate name size routine provider via)).Matches raise
      (Ideal.Machine.allocate raise (s.allocationEnds provider size) name size routine via w
        istack) := by
  refine matches_through via ?_
  unfold State.allocationEnds State.given State.allocate
  cases s.provider? provider with
  | none => exact ⟨h, rfl, rfl, hstack⟩
  | some provider =>
    cases Layout.ofPayload? size with
    | none =>
      obtain ⟨t, ht, hagrees⟩ := h.report (.layoutOverflow size)
      simp only [ht]
      exact ⟨hagrees.discard _, rfl, rfl, hstack⟩
    | some layout =>
      simp only
      rcases agrees_requestRegion h provider layout with hends | ⟨granted, t, ht, hheap, hagrees⟩
      · rw [hends]
        exact ⟨h, rfl, rfl, hstack⟩
      · rw [ht]
        cases granted with
        | false => exact ⟨hagrees, rfl, rfl, hstack⟩
        | true =>
          have hlive (p : ObjectId) (d : CellId) (hlink : t.heap.link? p = some d) :
              d < t.heap.cells.length := by
            rw [hheap] at hlink ⊢
            exact hsound.lt_of_link hlink
          exact ⟨hagrees.create hlive name size (.bytes []) (counting_passedRoutine via hroutine)
            rfl rfl rfl, rfl, rfl, hstack⟩

/-! ### Transitions -/

section Transitions

variable {earlier : List Event}

theorem matches_perform {ts : List Teardown} (hsound : Sound (s.view.since earlier) ts)
    (h : Agrees raise s w) (hstack : List.Forall₂ Frame.Matches stack istack) {step : Step}
    (hstep : step.counting = true) :
    (perform s stack step).Matches raise
      (Ideal.Machine.perform raise (Machine.mk s (.perform step) stack).allocationEnds w istack
        step) := by
  cases step with
  | allocate name size routine provider via =>
    exact matches_allocate hsound h hstack name size hstep provider via
  | call c name times via => exact matches_repeatCall hsound h hstack c name via times
  | attempt step => exact ⟨h, rfl, hstep, .cons .attempt hstack⟩
  | act action =>
    cases action with
    | object action =>
      cases action with
      | count name via =>
        exact matches_through via (matches_named h hstack _ name fun o =>
          matches_count hsound h hstack)
      | isUnique name via =>
        exact matches_through via (matches_named h hstack _ name fun o =>
          matches_isUnique hsound h hstack via)
      | _ => cases hstep
    | panic message => exact ⟨h, rfl, rfl, hstack⟩
    | _ => cases hstep
  | _ => cases hstep

theorem matches_resume {frame : Frame} {iframe : Ideal.Frame}
    (hsound : Sound (s.view.since earlier) (teardowns (frame :: stack))) (h : Agrees raise s w)
    (hstack : List.Forall₂ Frame.Matches stack istack) (hframe : frame.Matches iframe)
    (answer : Answer) :
    (resume answer s stack frame).Matches raise
      (Ideal.Machine.resume raise answer w istack iframe) := by
  cases hframe with
  | repeating c name times via => exact matches_repeatCall hsound h hstack c name via times
  | routine label hrest => exact matches_continueRoutine (h.observe _) hstack label hrest
  | teardown t =>
    obtain ⟨cell, hc, hnone⟩ := hsound.taken t List.mem_cons_self
    exact ⟨h.finish hc hnone (hsound.own t List.mem_cons_self), rfl, rfl, hstack⟩
  | barrier => exact ⟨h, rfl, rfl, hstack⟩
  | attempt => exact ⟨h, rfl, rfl, hstack⟩

theorem matches_unwind {frame : Frame} {iframe : Ideal.Frame}
    (hsound : Sound (s.view.since earlier) (teardowns (frame :: stack))) (h : Agrees raise s w)
    (hstack : List.Forall₂ Frame.Matches stack istack) (hframe : frame.Matches iframe)
    (cause : Cause) :
    (unwind cause s stack frame).Matches raise
      (Ideal.Machine.unwind cause w istack iframe) := by
  cases hframe with
  | teardown t =>
    obtain ⟨cell, hc, hnone⟩ := hsound.taken t List.mem_cons_self
    exact ⟨h.finish hc hnone (hsound.own t List.mem_cons_self), rfl, rfl, hstack⟩
  | _ => exact ⟨h, rfl, rfl, hstack⟩

theorem matches_next? {im : Ideal.Machine}
    (hsound : Sound (m.state.view.since earlier) (teardowns m.stack)) (h : m.Matches raise im) :
    Option.Rel (Matches raise) m.next? (im.next? raise m.allocationEnds) := by
  obtain ⟨s, control, stack⟩ := m
  obtain ⟨w, icontrol, istack⟩ := im
  obtain ⟨hagrees, hcontrol, hcounting, hstack⟩ := h
  simp only at hcontrol
  subst hcontrol
  cases icontrol with
  | perform step => exact .some (matches_perform hsound hagrees hstack hcounting)
  | release o => exact .some (matches_release hsound hagrees hstack)
  | answer answer =>
    cases hstack with
    | nil => exact .none
    | cons hframe hrest => exact .some (matches_resume hsound hagrees hrest hframe answer)
  | unwind cause =>
    cases hstack with
    | nil => exact .none
    | cons hframe hrest => exact .some (matches_unwind hsound hagrees hrest hframe cause)
  | halt halt => exact .none

end Transitions

end Machine

/-! ### Sessions -/

theorem rel_getD {R : α → β → Prop} {x : Option α} {y : Option β} {a : α} {b : β}
    (h : Option.Rel R x y) (hab : R a b) : R (x.getD a) (y.getD b) := by
  cases h with
  | some h => exact h
  | none => exact hab

theorem eq_none_iff_of_rel {R : α → β → Prop} {x : Option α} {y : Option β} (h : Option.Rel R x y) :
    x = none ↔ y = none := by
  cases h with
  | some _ => exact ⟨nofun, nofun⟩
  | none => exact ⟨fun _ => rfl, fun _ => rfl⟩

inductive Position.Matches (raise : Fault → Cause) : Position → Ideal.Position → Prop where
  | between {s : State} {w : Ideal.World} (h : Agrees raise s w) :
    Matches raise (.between s) (.between w)
  | during {m : Machine} {im : Ideal.Machine} (h : m.Matches raise im) :
    Matches raise (.during m) (.during im)

/-- The same results so far, the same steps to come, and the same in between. -/
structure Stage.Matches (raise : Fault → Cause) (st : Stage) (ist : Ideal.Stage) : Prop where
  results : ist.results = st.records.map (·.result)
  rest : ist.rest = st.rest
  counting : bodyCounting st.rest = true
  position : st.position.Matches raise ist.position

theorem State.Fresh.agrees {raise : Fault → Cause} {s : State} (h : s.Fresh)
    (hraises : s.faults.raises = some raise) : Agrees raise s {} where
  raises := hraises
  names := h.objects.symm
  size := by simp [h.heap]
  routines := by simp [h.heap]
  standing o := by simp [State.standing?, h.heap]
  routine o cell found := by simp [h.heap, Heap.governing?, Heap.link?, Heap.object?] at found
  counting o := rfl

namespace Session

variable {session : Session} {s : State} {raise : Fault → Cause} {st : Stage} {ist : Ideal.Stage}

theorem matches_conclude {records : List Record} {rest : List Step} (result : Result)
    {w : Ideal.World} (hrest : bodyCounting rest = true) (h : Agrees raise s w) :
    (session.conclude records rest result s).Matches raise
      ⟨records.map (·.result) ++ [result], rest, .between w⟩ where
  results := by
    rw [conclude, List.map_append]
    rfl
  rest := rfl
  counting := hrest
  position := by
    refine .between ?_
    unfold record
    split
    · exact h.congr rfl rfl rfl
    · exact h

theorem matches_next? (session : Session) (hsound : Sound st.view (teardowns st.stack))
    (h : st.Matches raise ist) :
    Option.Rel (Stage.Matches raise) (session.next? st) (ist.next? raise st.allocationEnds) := by
  obtain ⟨records, rest, position⟩ := st
  obtain ⟨results, irest, iposition⟩ := ist
  obtain ⟨hresults, hrest, hcounting, hposition⟩ := h
  simp only at hresults hrest hcounting hposition
  subst hresults hrest
  cases hposition with
  | between hagrees =>
    cases irest with
    | nil => exact .none
    | cons step rest =>
      simp only [bodyCounting, Bool.and_eq_true] at hcounting
      exact .some ⟨rfl, rfl, hcounting.2, .during ⟨hagrees.congr rfl rfl rfl, rfl, hcounting.1, .nil⟩⟩
  | @during m im hm =>
    rw [Stage.view_during] at hsound
    have hnext := Machine.matches_next? hsound hm
    have hends : (Stage.mk records irest (.during m)).allocationEnds = m.allocationEnds := rfl
    simp only [next?, Ideal.Stage.next?, hends]
    generalize m.next? = moved at hnext
    generalize im.next? raise m.allocationEnds = imoved at hnext
    cases hnext with
    | some hm' => exact .some ⟨rfl, rfl, hcounting, .during hm'⟩
    | none =>
      rw [hm.control]
      cases m.control with
      | answer answer => exact .some (matches_conclude (.answered answer) hcounting hm.agrees)
      | unwind cause => exact .some (matches_conclude (.failed cause) hcounting hm.agrees)
      | _ => exact .none

/-- The ideal of a session, which is told of the allocations that the process ends over. -/
def ideal (session : Session) (raise : Fault → Cause) (s : State) (n : Nat) : Ideal.Stage :=
  Ideal.stage raise (fun k => (session.stage s k).allocationEnds) session.steps n

theorem matches_stage (hsteps : bodyCounting session.steps = true) (h : s.Fresh)
    (hraises : s.faults.raises = some raise) (n : Nat) :
    (session.stage s n).Matches raise (session.ideal raise s n) := by
  induction n with
  | zero => exact ⟨rfl, rfl, hsteps, .between (h.agrees hraises)⟩
  | succ n ih =>
    have hnext := session.matches_next? (session.sound_stage h n) ih
    have hideal : session.ideal raise s (n + 1) =
        ((session.ideal raise s n).next? raise (session.stage s n).allocationEnds).getD
          (session.ideal raise s n) := rfl
    rw [stage_succ, hideal]
    exact rel_getD hnext ih

/-- What a session of steps that count has in common with its ideal. -/
structure Refines (session : Session) (raise : Fault → Cause) (s : State) : Prop where
  /-- After every transition, the results, the control and what is to be done are the same, and
  objects stand where the ideal has them. -/
  matched (n : Nat) : (session.stage s n).Matches raise (session.ideal raise s n)
  standing (n : Nat) (o : ObjectId) :
    (session.stage s n).state.standing? o = (session.ideal raise s n).world.standings[o]?
  /-- The session comes to its end where the ideal does. -/
  stops (n : Nat) : session.next? (session.stage s n) = none ↔
    (session.ideal raise s n).next? raise (session.stage s n).allocationEnds = none
  /-- An object begins at zero, counts in steps of one without ever wrapping around, and goes from
  one into its teardown and from there for good. -/
  follows (n : Nat) (o : ObjectId) :
    Ideal.Standing.Follows ((session.stage s n).state.standing? o)
      ((session.stage s (n + 1)).state.standing? o)
  /-- No count passes the largest one. -/
  bounded (n : Nat) (o : ObjectId) (k : Nat)
    (counted : (session.stage s n).state.standing? o = some (.counted k)) : k ≤ maxCount.toNat
  /-- What has been deallocated stays so. -/
  gone (i j : Nat) (hij : i ≤ j) (o : ObjectId)
    (dead : (session.stage s i).state.standing? o = some .gone) :
    (session.stage s j).state.standing? o = some .gone

/-- **Sessions of steps that count go as their ideal does.** -/
theorem refines (session : Session) (hsteps : bodyCounting session.steps = true) {s : State}
    (h : s.Fresh) {raise : Fault → Cause} (hraises : s.faults.raises = some raise) :
    session.Refines raise s := by
  have hmatched (n : Nat) : (session.stage s n).Matches raise (session.ideal raise s n) :=
    matches_stage hsteps h hraises n
  have hstanding (n : Nat) (o : ObjectId) : (session.stage s n).state.standing? o =
      (session.ideal raise s n).world.standings[o]? := by
    have hposition := (hmatched n).position
    unfold Stage.state Ideal.Stage.world
    generalize (session.stage s n).position = position at hposition
    generalize (session.ideal raise s n).position = iposition at hposition
    cases hposition with
    | between hagrees => exact (hagrees.standing o).symm
    | during hm => exact (hm.agrees.standing o).symm
  refine {
    matched := hmatched
    standing := hstanding
    stops := ?stops
    follows := ?follows
    bounded := ?bounded
    gone := ?gone }
  case stops =>
    intro n
    exact eq_none_iff_of_rel (session.matches_next? (session.sound_stage h n) (hmatched n))
  case follows =>
    intro n o
    rw [hstanding, hstanding]
    exact Ideal.follows_stage raise _ session.steps n o
  case bounded =>
    intro n o k hcounted
    rw [hstanding] at hcounted
    exact Ideal.count_le n hcounted
  case gone =>
    intro i j hij o hdead
    rw [hstanding] at hdead ⊢
    exact Ideal.gone_of_le hij hdead

/-- The finalizer of one object makes another and lets go of a third, whose finalizer panics. The
new object is then let go of once too often, and so is one that nobody ever took a reference to.
That one is asked whether it has a single reference, and so is one that has. -/
def cascade : Session where
  steps :=
    keeping "leaf" [.act (.panic "stop")] ++
      keeping "root"
        (keeping "fresh" [] ++
          [.attempt (lettingGo "leaf"), .act (.object (.isUnique (some "fresh") .native))]) ++
      [lettingGo "root", .call .release (some "fresh") 2 .native,
        .allocate "idle" 8 none none .native, lettingGo "idle"] ++
      keeping "kept" [] ++
      [.act (.object (.isUnique (some "idle") .native)),
        .act (.object (.isUnique (some "kept") .foreign))]

/-- Two objects are torn down one inside the other while a third is made; in the end all three are
gone, and using one of them is a fault. -/
theorem refines_cascade :
    ((cascade.stage .embedded 25).state.standing? 0 = some .going ∧
        (cascade.stage .embedded 25).state.standing? 1 = some .going ∧
        (cascade.stage .embedded 25).state.standing? 2 = some (.counted 1)) ∧
      (cascade.stage .embedded 44).state.standing? 2 = some .gone ∧
      ((cascade.stage .embedded 44).records.map (·.result)).getLast? =
        some (.failed (.fault (.useAfterFree (.object 2)))) ∧
      ((cascade.stage .embedded 52).records.map (·.result)).getLast? =
        some (.failed (.fault (.releaseUnderflow (.object 3)))) ∧
      ((cascade.stage .embedded 65).records.map (·.result)).drop 10 =
        [.answered (.flag false), .answered (.number 1)] := by
  have h : cascade.Refines .fault .embedded :=
    cascade.refines (by decide) State.fresh_embedded rfl
  rw [h.standing, h.standing, h.standing, h.standing, ← (h.matched 44).results,
    ← (h.matched 52).results, ← (h.matched 65).results]
  exact ⟨by decide, by decide, rfl, rfl, rfl⟩

end Session
end Custody
