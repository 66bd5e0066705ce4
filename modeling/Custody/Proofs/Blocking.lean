import Custody.Proofs.Errands

/-! Locks that are waited for.

The process is blocked by one thing only: an operation takes the lock of a cell that is locked
(`Machine.waits_next?`). Which cell that is can be read off the machine before the transition. It
has not been freed, since slots and names stand for cells that are there
(`Session.locked_of_blocked`). -/
namespace Custody

/-- Steps on objects, cells and settings, not on handles. -/
def Step.onObjects : Step → Bool
  | .dropHandle _ | .makeUnique _ _ | .act (.handle _) => false
  | _ => true

/-- The cell whose lock an action takes. -/
def ObjectAction.locks? (s : State) : ObjectAction → Option CellId
  | .count (some name) _ => (s.names.objects.find? name).bind s.heap.link?
  | .isUnique (some name) _ => (s.names.objects.find? name).bind s.heap.link?
  | .guard name => (s.names.objects.find? name).bind s.heap.link?
  | .guardCell name => s.names.cells.find? name
  | _ => none

/-- The cell whose lock a call takes. Releases are transitions of their own. -/
def callLocks? (s : State) : Option (CountCall × Option ObjectId) → Option CellId
  | some (.retain, some o) => s.heap.link? o
  | _ => none

/-- The cell whose lock the next transition takes. -/
def Machine.locks? (m : Machine) : Option CellId :=
  match m.control with
  | .release o => m.state.heap.link? o
  | .perform (.act (.object action)) => action.locks? m.state
  | _ => callLocks? m.state m.call?

/-- No lock can be taken of the cell. -/
def Heap.Barred (h : Heap) (c : CellId) : Prop :=
  ∀ cell, h.cell? c = some cell → cell.locked = true

variable {s : State} {stack : List Frame} {o : ObjectId} {c? : Option CellId} {m m' : Machine}

/-! ### Operations -/

/-- An operation on the state blocks at the given cell, or does not block. -/
def Outcome.Waits (out : Outcome α) (s : State) (c? : Option CellId) : Prop :=
  ∀ t, out = .halted .blocked t → ∃ c, c? = some c ∧ s.heap.Barred c

namespace Outcome.Waits

variable {out : Outcome α}

/-- An operation that is not blocked waits for no cell. -/
theorem of_ne (h : ∀ t, out ≠ .halted .blocked t) : out.Waits s c? :=
  fun t heq => absurd heq (h t)

theorem returned (a : α) (t : State) : (Outcome.returned a t).Waits s c? :=
  of_ne fun _ h => nomatch h

theorem report (f : Fault) (t : State) : (t.report f : Outcome α).Waits s c? := by
  intro u heq
  unfold State.report at heq
  split at heq
  · cases heq
  · cases heq
  · split at heq <;> cases heq

theorem given {found : Option β} {next : β → Outcome α} {t : State}
    (h : ∀ b, found = some b → (next b).Waits s c?) : (t.given found next).Waits s c? := by
  cases found with
  | none => exact of_ne fun _ h => nomatch h
  | some b => exact h b rfl

/-- One operation after the other waits for the cell that each of them asks for. -/
theorem andThen {next : α → State → Outcome β} (h : out.Waits s c?)
    (hnext : ∀ a t, out = .returned a t → (next a t).Waits s c?) :
    (out.andThen next).Waits s c? := by
  cases out with
  | returned a t => exact hnext a t rfl
  | unwound cause t => exact of_ne fun _ h => nomatch h
  | halted halt t =>
    intro u heq
    cases heq
    exact h t rfl

theorem map (f : α → β) (h : out.Waits s c?) : (out.map f).Waits s c? :=
  h.andThen fun _ _ _ => .returned _ _

theorem through (via : Convention) (h : out.Waits s c?) : (out.through via).Waits s c? := by
  cases via with
  | native => rwa [through_native]
  | foreign =>
    cases out with
    | returned a t => exact of_ne fun _ h => nomatch h
    | unwound cause t => exact of_ne fun _ h => nomatch h
    | halted halt t => exact h

end Outcome.Waits

namespace State

open Outcome (Waits)

theorem waits_retain : (s.retain o).Waits s (s.heap.link? o) := by
  rcases s.heap.access o with hgone | ⟨c, hlink, hclosed⟩ | ⟨c, cell, hopens⟩
  · rw [retain, access_of_gone hgone]
    exact .report _ _
  · exact fun _ _ => ⟨c, hlink, hclosed⟩
  · rw [retain_of_opens hopens]
    split
    · exact .report _ _
    · exact .returned _ _

theorem waits_release : (s.release o).Waits s (s.heap.link? o) := by
  rcases s.heap.access o with hgone | ⟨c, hlink, hclosed⟩ | ⟨c, cell, hopens⟩
  · rw [release, access_of_gone hgone]
    exact .report _ _
  · exact fun _ _ => ⟨c, hlink, hclosed⟩
  · rw [release_of_opens hopens]
    split
    · exact .report _ _
    · split <;> exact .returned _ _

theorem waits_isUnique : (s.isUnique o).Waits s (s.heap.link? o) := by
  rcases s.heap.access o with hgone | ⟨c, hlink, hclosed⟩ | ⟨c, cell, hopens⟩
  · rw [isUnique, access_of_gone hgone]
    exact .report _ _
  · exact fun _ _ => ⟨c, hlink, hclosed⟩
  · rw [isUnique_of_opens hopens]
    exact .returned _ _

theorem waits_count : (s.count o).Waits s (s.heap.link? o) := by
  rcases s.heap.access o with hgone | ⟨c, hlink, hclosed⟩ | ⟨c, cell, hopens⟩
  · rw [count, access_of_gone hgone]
    exact .report _ _
  · exact fun _ _ => ⟨c, hlink, hclosed⟩
  · rw [count_of_opens hopens]
    exact .returned _ _

theorem waits_lock (c : CellId) : (s.lock c).Waits s (some c) := by
  by_cases hopen : ∃ cell, s.heap.cell? c = some cell ∧ cell.locked = false
  · obtain ⟨cell, hc, hunlocked⟩ := hopen
    rw [lock_of_unlocked hc hunlocked]
    exact .returned _ _
  · refine fun _ _ => ⟨c, rfl, fun cell hc => ?_⟩
    cases hlocked : cell.locked with
    | true => rfl
    | false => exact absurd ⟨cell, hc, hlocked⟩ hopen

theorem waits_guard : (s.guard o).Waits s (s.heap.link? o) := by
  unfold guard
  cases s.heap.link? o with
  | none => exact .of_ne fun _ h => nomatch h
  | some c =>
    refine (waits_lock c).andThen fun cell t _ => ?_
    exact .given fun _ _ => .returned _ _

theorem waits_guardCell (c : CellId) : (s.guardCell c).Waits s (some c) :=
  (waits_lock c).andThen fun _ _ _ => .returned _ _

/-- An export asks for the cell of the instance it is called on. -/
theorem waits_withInstance (exportName : String) (name : Option String)
    {next : ObjectId → Outcome β}
    (h : ∀ o, (next o).Waits s (s.heap.link? o)) :
    (s.withInstance exportName name next).Waits s
      (name.bind fun name => (s.names.objects.find? name).bind s.heap.link?) := by
  cases name with
  | none => exact .report _ _
  | some name => exact .given fun o ho => by rw [Option.bind_some, ho]; exact h o

/-- **An action on an object waits for the cell that it locks**, which is one at most. -/
theorem waits_performObject (a : ObjectAction) : (s.performObject a).Waits s (a.locks? s) := by
  cases a with
  | count name via =>
    have hcount := waits_withInstance "rcbox_retain_count" name
      fun o => (waits_count (s := s) (o := o)).map fun n => Answer.number n.toNat
    cases name <;> exact hcount.through via
  | isUnique name via =>
    have hunique := waits_withInstance "rcbox_is_uniquely_referenced" name
      fun o => (waits_isUnique (s := s) (o := o)).map (uniqueAnswer via)
    cases name <;> exact hunique.through via
  | guard name => exact .given fun o ho => by rw [ObjectAction.locks?, ho]; exact waits_guard
  | guardCell name =>
    exact .given fun c hc => by rw [ObjectAction.locks?, hc]; exact waits_guardCell c
  | resolve name =>
    refine .given fun o _ => Waits.map _ ?_
    unfold resolve
    split
    · exact .returned _ _
    · exact .report _ _
  | forceCount name count => exact .given fun o _ => .given fun c _ => .returned _ _
  | write name start bytes => exact .given fun o _ => .given fun object _ => .returned _ _
  | read name start length => exact .given fun o _ => .given fun object _ => .returned _ _
  | freeCell name => exact .given fun c _ => .returned _ _
  | isDeallocated _ | hasCell _ | slotIsNull _ | clearSlot _ | offsets _ =>
    exact .given fun o _ => .returned _ _
  | statistics | faultCount => exact .returned _ _

theorem waits_performSetting (a : SettingAction) : (s.performSetting a).Waits s c? := by
  cases a with
  | report fault => exact .report _ _
  | raiseForeign message => exact Waits.through _ (.report _ _)
  | setAllocatorLimit name limit => exact .given fun i _ => .given fun q _ => .returned _ _
  | allocatorQuota name => exact .given fun i _ => .given fun q _ => .returned _ _
  | installAllocator name =>
    refine .given fun i _ => .given fun q _ => ?_
    dsimp only
    split <;> exact .returned _ _
  | _ => exact .returned _ _

/-- An allocation locks nothing. -/
theorem waits_allocate (provider : Option AllocatorId) (size : UInt64) (contents : Contents)
    (finalizer : Option Finalizer) : (s.allocate provider size contents finalizer).Waits s c? := by
  unfold allocate
  split
  · have hreport : (s.report (.layoutOverflow size) : Outcome ObjectId).Waits s c? := .report _ _
    revert hreport
    cases (s.report (.layoutOverflow size) : Outcome ObjectId) with
    | returned _ _ => exact id
    | unwound _ _ => exact fun _ => .of_ne fun _ h => nomatch h
    | halted _ _ => exact id
  · refine Waits.andThen (.given fun q _ => .returned _ _) fun granted t _ => ?_
    cases granted with
    | true => exact .returned _ _
    | false => exact .of_ne fun _ h => nomatch h

end State

/-! ### Transitions -/

namespace Machine

/-- A machine that came from the state blocks at the given cell, or does not block. -/
def Waits (m : Machine) (s : State) (c? : Option CellId) : Prop :=
  m.control = .halt .blocked → ∃ c, c? = some c ∧ s.heap.Barred c

theorem Waits.of_ne (h : m.control ≠ .halt .blocked) : m.Waits s c? :=
  fun heq => absurd heq h

theorem waits_settle {out : Outcome Answer} (h : out.Waits s c?) (stack : List Frame) :
    (settle out stack).Waits s c? := by
  intro heq
  cases out with
  | returned _ _ => cases heq
  | unwound _ _ => cases heq
  | halted halt t =>
    cases heq
    exact h t rfl

theorem waits_call (c : CountCall) (o : ObjectId) (s : State) (stack : List Frame) :
    (call c o s stack).Waits s (callLocks? s (some (c, some o))) := by
  cases c with
  | retain => exact waits_settle (State.waits_retain.map _) stack
  | release => exact .of_ne nofun

theorem waits_callNamed (c : CountCall) (name : Option String) (s : State) (stack : List Frame) :
    (callNamed c name s stack).Waits s
      (callLocks? s (some (c, name.bind s.names.objects.find?))) := by
  cases name with
  | none => exact waits_settle (.report _ _) stack
  | some name =>
    unfold callNamed
    dsimp only
    split
    · next o ho =>
      rw [Option.bind_some, ho]
      exact waits_call c o s stack
    · exact .of_ne nofun

/-- The first thread with a call left makes it, and asks for the cell of their object. -/
theorem waits_runThreads (o : ObjectId) (s : State) (stack : List Frame)
    (waiting : List (List CountCall)) (ended : List Bool) :
    (runThreads o s stack waiting ended).Waits s
      (callLocks? s (waiting.flatten.head?.map (·, some o))) := by
  rcases runThreads_cases o s stack waiting ended with
    ⟨_, flags, hrun⟩ | ⟨c, rest, waiting', ended', hsome, hrun⟩
  · rw [hrun]
    exact .of_ne nofun
  · rw [hrun, hsome]
    exact waits_call c o s _

theorem waits_continueRoutine (label : String) (s t : State) (stack : List Frame)
    (steps : List Step) : (continueRoutine label t stack steps).Waits s c? := by
  cases steps <;> exact .of_ne nofun

theorem waits_continueDropping (cause : Option Cause) (s t : State) (stack : List Frame)
    (os : List ObjectId) : (continueDropping cause t stack os).Waits s c? := by
  cases os with
  | nil => cases cause <;> exact .of_ne nofun
  | cons o rest => exact .of_ne nofun

theorem waits_finalize (t : Teardown) (finalizer : Option Finalizer) (s u : State)
    (stack : List Frame) : (finalize t finalizer u stack).Waits s c? := by
  unfold finalize
  dsimp only
  split
  · exact .of_ne nofun
  · exact waits_continueRoutine _ _ _ _ _
  · unfold dropValue
    dsimp only
    split
    · exact waits_continueDropping _ _ _ _ _
    · exact .of_ne nofun

theorem waits_release (o : ObjectId) (s : State) (stack : List Frame) :
    (release o s stack).Waits s (s.heap.link? o) := by
  have hrelease := State.waits_release (s := s) (o := o)
  unfold release
  split
  · exact .of_ne nofun
  · exact waits_finalize _ _ _ _ _
  · exact .of_ne nofun
  · next halt t ht =>
    intro heq
    cases heq
    exact hrelease t ht

/-- **A step waits for the cell that it asks for.** -/
theorem waits_perform {step : Step} (hstep : step.onObjects = true) :
    (perform s stack step).Waits s (locks? ⟨s, .perform step, stack⟩) := by
  cases step with
  | allocate name size routine provider via =>
    refine waits_settle (Outcome.Waits.through via (.given fun p _ => ?_)) stack
    exact (State.waits_allocate _ _ _ _).andThen fun _ _ _ => .returned _ _
  | assemble name size routine => exact .of_ne nofun
  | reinstall name routine => exact waits_settle (.given fun o _ => .returned _ _) stack
  | newCell name routine => exact .of_ne nofun
  | describe routine => exact .of_ne nofun
  | call c name times via =>
    cases times with
    | zero => exact .of_ne nofun
    | succ times => exact waits_callNamed c name s _
  | race name threads retains releases rounds =>
    unfold perform locks? call? Step.call?
    dsimp only
    cases s.names.objects.find? name with
    | none => exact .of_ne nofun
    | some o => exact waits_runThreads o s stack _ []
  | dropHandle handle => cases hstep
  | makeUnique handle literal => cases hstep
  | attempt step => exact .of_ne nofun
  | act action =>
    cases action with
    | object action => exact waits_settle (State.waits_performObject action) stack
    | log action => exact .of_ne nofun
    | setting action => exact waits_settle (State.waits_performSetting action) stack
    | handle action => cases hstep
    | panic message => exact .of_ne nofun

theorem waits_assigned (literal : Literal) (fresh : Bool) (s t : State) :
    (assigned o literal fresh t).Waits s c? :=
  .given fun _ _ => .returned _ _

/-- A frame that is answered makes its next call, if it has one. -/
theorem waits_resume (answer : Answer) (frame : Frame) :
    (resume answer s stack frame).Waits s
      (callLocks? s (frame.call? s.names.objects false)) := by
  cases frame with
  | repeating c name times via =>
    cases times with
    | zero => exact .of_ne nofun
    | succ times => exact waits_callNamed c name s _
  | routine label rest => exact waits_continueRoutine _ _ _ _ _
  | thread rest o waiting ended => exact waits_runThreads o s stack (rest :: waiting) ended
  | dropping rest cause => exact waits_continueDropping _ _ _ _ _
  | assigning fresh literal => exact waits_settle (waits_assigned literal true s s) stack
  | teardown _ | barrier | attempt | cleaning _ => exact .of_ne nofun

/-- An unwinding that comes to a thread makes the call of the next one. -/
theorem waits_unwind (cause : Cause) (frame : Frame) :
    (unwind cause s stack frame).Waits s (callLocks? s (frame.call? s.names.objects true)) := by
  cases frame with
  | thread rest o waiting ended => exact waits_runThreads o s stack waiting (ended ++ [false])
  | dropping rest earlier =>
    cases earlier with
    | none => exact waits_continueDropping _ _ _ _ _
    | some earlier => exact .of_ne nofun
  | repeating _ _ _ _ | routine _ _ | teardown _ | barrier | attempt | cleaning _ | assigning _ _ =>
    exact .of_ne nofun

/-- **A transition blocks at the cell whose lock it takes**, and only if it cannot be taken. -/
theorem waits_next? (h : m.next? = some m')
    (hstep : ∀ step, m.control = .perform step → step.onObjects = true) :
    m'.Waits m.state m.locks? := by
  obtain ⟨s, control, stack⟩ := m
  cases control with
  | perform step =>
    cases h
    exact waits_perform (hstep step rfl)
  | release o =>
    cases h
    exact waits_release o s stack
  | halt halt => cases h
  | answer answer =>
    cases stack with
    | nil => cases h
    | cons frame stack =>
      cases h
      exact waits_resume answer frame
  | unwind cause =>
    cases stack with
    | nil => cases h
    | cons frame stack =>
      cases h
      exact waits_unwind cause frame

end Machine

/-- Locks are found through slots and names. -/
theorem Machine.linked_or_named {c : CellId} (h : m.locks? = some c) :
    (∃ o, m.state.heap.link? o = some c) ∨ ∃ name, m.state.names.cells.find? name = some c := by
  have hname {name : String}
      (h : (m.state.names.objects.find? name).bind m.state.heap.link? = some c) :
      ∃ o, m.state.heap.link? o = some c := by
    obtain ⟨o, _, hlink⟩ := Option.bind_eq_some_iff.1 h
    exact ⟨o, hlink⟩
  unfold locks? at h
  split at h
  · exact .inl ⟨_, h⟩
  · unfold ObjectAction.locks? at h
    split at h
    · exact .inl (hname h)
    · exact .inl (hname h)
    · exact .inl (hname h)
    · exact .inr ⟨_, h⟩
    · cases h
  · unfold callLocks? at h
    split at h
    · exact .inl ⟨_, h⟩
    · cases h

/-! ### Cells that are there -/

/-- Names stand for cells that have not been freed, each for one of its own. -/
structure View.Stands (v : View) : Prop where
  alive (name : String) (c : CellId) (named : v.named name = some c) :
    ∃ cell, v.cell? c = some cell
  own (name other : String) (c : CellId) (named : v.named name = some c)
    (same : v.named other = some c) : name = other

namespace View.Stands

variable {v w : View} {edits : ObjectId → Prop} {ts : List Teardown}

theorem congr (h : v.Stands) (hcells : w.cells = v.cells) (hnamed : w.named = v.named) :
    w.Stands := by
  refine ⟨fun name c named => ?_, fun name other c named same => ?_⟩
  · rw [hnamed] at named
    rw [View.cell?, hcells]
    exact h.alive name c named
  · rw [hnamed] at named same
    exact h.own name other c named same

theorem updateCell (h : v.Stands) (c : CellId) (f : Cell → Cell) : (v.updateCell c f).Stands := by
  refine ⟨fun name d named => ?_, h.own⟩
  obtain ⟨cell, hd⟩ := h.alive name d named
  rw [View.cell?_updateCell]
  split
  · exact ⟨f cell, by rw [hd]; rfl⟩
  · exact ⟨cell, hd⟩

theorem addCell (h : v.Stands) (finalizer : Option Finalizer) : (v.addCell finalizer).Stands := by
  refine ⟨fun name c named => ?_, h.own⟩
  obtain ⟨cell, hc⟩ := h.alive name c named
  rw [View.cell?_addCell, if_neg (Nat.ne_of_lt (View.lt_of_cell? hc))]
  exact ⟨cell, hc⟩

theorem stand (h : v.Stands) (name : String) (finalizer : Option Finalizer) :
    (v.stand name finalizer).Stands := by
  have hold (other : String) (c : CellId) (named : v.named other = some c) :
      c ≠ v.cells.length := by
    obtain ⟨cell, hc⟩ := h.alive other c named
    exact Nat.ne_of_lt (View.lt_of_cell? hc)
  refine ⟨fun other c named => ?_, fun first second c named same => ?_⟩
  · simp only [View.stand] at named
    show ∃ cell, (v.addCell finalizer).cell? c = some cell
    rw [View.cell?_addCell]
    split at named
    · cases named
      exact ⟨_, if_pos rfl⟩
    · rw [if_neg (hold other c named)]
      exact h.alive other c named
  · simp only [View.stand] at named same
    split at named
    · next hfirst =>
      cases named
      split at same
      · next hsecond => rw [hfirst, hsecond]
      · exact absurd rfl (hold second _ same)
    · split at same
      · cases same
        exact absurd rfl (hold first _ named)
      · exact h.own first second c named same

theorem free (h : v.Stands) {name : String} {c : CellId} (hc : v.named name = some c) :
    (v.free name c).Stands := by
  have hnamed (other : String) (d : CellId) (named : (v.free name c).named other = some d) :
      other ≠ name ∧ v.named other = some d := by
    simp only [View.free] at named
    split at named
    · cases named
    · next hne => exact ⟨hne, named⟩
  refine ⟨fun other d named => ?_, fun first second d named same => ?_⟩
  · obtain ⟨hne, named⟩ := hnamed other d named
    show ∃ cell, (v.freeCell c).cell? d = some cell
    rw [View.cell?_freeCell, if_neg ?_]
    · exact h.alive other d named
    · rintro rfl
      exact hne (h.own other name c named hc)
  · exact h.own first second d (hnamed first d named).2 (hnamed second d same).2

/-- Cells that are named stay, unless they are freed and lose their name with that. -/
theorem shift {r : Option (Routine Step)} (hs : Shift edits r v w) (h : v.Stands) : w.Stands := by
  cases hs with
  | recount _ c count => exact h.updateCell c _
  | create _ finalizer => exact (h.addCell finalizer).congr rfl rfl
  | stand _ name finalizer => exact h.stand name finalizer
  | relink _ o finalizer _ => exact (h.addCell finalizer).congr rfl rfl
  | unlink _ o _ => exact h.congr rfl rfl
  | free _ hc => exact h.free hc
  | discard _ r => exact h.congr rfl rfl
  | waste _ r => exact h

/-- The cell of a teardown has no name. -/
theorem finish {t : Teardown} (hsound : Sound v (t :: ts)) (h : v.Stands) :
    (v.finish t).Stands := by
  rw [View.finish_eq]
  refine ⟨fun name c named => ?_, h.own⟩
  show ∃ cell, ((v.unlink t.object).freeCell t.cell).cell? c = some cell
  rw [View.cell?_freeCell, if_neg ((hsound.apart name c named).2.2 t List.mem_cons_self)]
  exact h.alive name c named

theorem moves {st st' : Stage} (hm : st.Moves st') (hsound : Sound st.view (teardowns st.stack))
    (h : st.view.Stands) : st'.view.Stands := by
  cases hm with
  | shifts rs hshifts _ _ _ => exact hshifts.kept (fun _ _ _ => shift) h
  | begins o c cell _ hview _ _ =>
    rw [hview]
    exact (h.updateCell c _).congr rfl rfl
  | finishes t hview hunder _ _ =>
    rw [hunder] at hsound
    rw [hview]
    exact h.finish hsound

end View.Stands

/-! ### Sessions -/

namespace Session

variable {session : Session}

/-- Throughout a session names of cells stand for cells. -/
theorem stands_stage (session : Session) (h : s.Fresh) (n : Nat) :
    (session.stage s n).view.Stands := by
  induction n with
  | zero =>
    have hnone (name : String) : s.names.cells.find? name = none := by
      simp [h.cells, Bindings.find?]
    refine ⟨fun name c named => ?_, fun name other c named _ => ?_⟩
    · rw [show (session.stage s 0).view.named name = _ from hnone name] at named
      cases named
    · rw [show (session.stage s 0).view.named name = _ from hnone name] at named
      cases named
  | succ n ih => exact ih.moves (session.moves_stage s n) (session.sound_stage h n)

end Session

/-- The cell whose lock the next transition takes. -/
def Stage.locks? (st : Stage) : Option CellId :=
  match st.position with
  | .between _ => none
  | .during m => m.locks?

namespace Session

variable {session : Session}

/-- An operation that takes a lock finds one. -/
theorem exists_cell_of_locks (h : s.Fresh) {n : Nat} {c : CellId}
    (hlocks : (session.stage s n).locks? = some c) :
    ∃ cell, (session.stage s n).state.heap.cell? c = some cell := by
  have hsound := session.sound_stage h n
  have hstands := session.stands_stage h n
  generalize session.stage s n = st at *
  obtain ⟨records, rest, position⟩ := st
  cases position with
  | between t => cases hlocks
  | during m =>
    rcases Machine.linked_or_named hlocks with ⟨o, hlink⟩ | ⟨name, hname⟩
    · exact hsound.alive o c hlink
    · exact hstands.alive name c hname

/-- A session that is at rest in the middle of a step has stopped. -/
theorem halted_of_rest {st : Stage} (h : session.next? st = none) (hm : st.position = .during m) :
    ∃ halt, m.control = .halt halt := by
  obtain ⟨records, rest, position⟩ := st
  cases hm
  obtain ⟨s, control, stack⟩ := m
  cases control with
  | halt halt => exact ⟨halt, rfl⟩
  | perform _ | release _ => simp [next?, Machine.next?] at h
  | answer _ | unwind _ => cases stack <;> simp [next?, Machine.next?] at h

/-- **The process is blocked only by an operation at a cell that is locked.** -/
theorem locked_of_blocked (h : s.Fresh)
    (hsteps : ∀ step ∈ session.steps, step.every Step.onObjects = true)
    (hblocked : (session.runFrom s session.steps).2.1 = .blocked) :
    ∃ n c, (session.stage s n).locks? = some c ∧ (session.stage s n).state.Locked c := by
  -- The last stage is halted, and the stage before it is the one to look for.
  have hsearch (n : Nat) (m : Machine) (hd : (session.stage s n).position = .during m)
      (hm : m.control = .halt .blocked) :
      ∃ n c, (session.stage s n).locks? = some c ∧ (session.stage s n).state.Locked c := by
    induction n with
    | zero => cases hd
    | succ n ih =>
      cases hn : session.next? (session.stage s n) with
      | none =>
        rw [stage_succ_of_rest hn] at hd
        exact ih hd
      | some st =>
        rw [stage_succ_of_next? hn] at hd
        have hexists (c : CellId) (hc : (session.stage s n).locks? = some c) :
            ∃ cell, (session.stage s n).state.heap.cell? c = some cell :=
          exists_cell_of_locks h hc
        have hperforms (m : Machine) (step : Step) (hm : (session.stage s n).position = .during m)
            (hstep : m.control = .perform step) : step.onObjects = true :=
          performs_every h hsteps hm hstep
        have hadvances := advances_of_next? hn
        generalize hst : session.stage s n = before at *
        cases hadvances with
        | begins records rest s step =>
          cases hd
          cases hm
        | answers records rest s answer => cases hd
        | fails records rest s cause => cases hd
        | @moves records rest first second hnext =>
          cases hd
          obtain ⟨c, hc, hbarred⟩ := Machine.waits_next? hnext
            (fun step hstep => hperforms first step rfl hstep) hm
          obtain ⟨cell, hcell⟩ := hexists c hc
          refine ⟨n, c, ?_, cell, ?_, hbarred cell hcell⟩
          · rw [hst]
            exact hc
          · rw [hst]
            exact hcell
  obtain ⟨n, hrest, hrun⟩ := session.exists_ending s
  rw [hrun] at hblocked
  cases hposition : (session.stage s n).position with
  | between t =>
    rw [ending, hposition] at hblocked
    cases hblocked
  | during m =>
    obtain ⟨halt, hm⟩ := halted_of_rest hrest hposition
    rw [ending, hposition] at hblocked
    simp only [hm] at hblocked
    cases halt with
    | blocked => exact hsearch n m hposition hm
    | _ => cases hblocked

end Session
end Custody
