import Custody.Machine.Load

/-! A machine comes to rest within its budget.

Every transition uses up work, except that a copy on write may double the work
while it uses up a copy (`next?_spends`). So the budget shrinks at every
transition (`budget_next?`), and a run ends where no transition is left
(`run_rests`), whatever the finalizers in the heap do to each other. -/
namespace Custody

namespace Machine

variable {s : State} {stack : List Frame} {o : ObjectId} {w k : Nat}

def stackWork (stack : List Frame) : Nat :=
  total Frame.work stack

def stackCopies (stack : List Frame) : Nat :=
  total Frame.copies stack

/-- A machine with no more than so much work and so many copies. -/
structure Within (m : Machine) (work copies : Nat) : Prop where
  work_le : m.work ≤ work
  copies_le : m.copies ≤ copies

theorem work_mk (s : State) (control : Control) (stack : List Frame) :
    work ⟨s, control, stack⟩ = control.work + stackWork stack + s.heap.work := rfl

theorem copies_mk (s : State) (control : Control) (stack : List Frame) :
    copies ⟨s, control, stack⟩ = control.copies + stackCopies stack + s.heap.copies := rfl

@[simp] theorem stackWork_cons (f : Frame) (stack : List Frame) :
    stackWork (f :: stack) = f.work + stackWork stack := rfl

@[simp] theorem stackCopies_cons (f : Frame) (stack : List Frame) :
    stackCopies (f :: stack) = f.copies + stackCopies stack := rfl

theorem act_within (a : Action) (h : s.heap.Within w k) :
    (act s a).Within (w + (a.work - 1)) k := by
  cases a with
  | object a => exact State.performObject_within a h
  | log a =>
    show (s.performLog a).2.heap.Within w k
    rw [State.performLog_heap]
    exact h
  | setting a => exact State.performSetting_within a h
  | handle a => exact State.performHandle_within a h
  | panic message => exact h

theorem Within.mono {m : Machine} {w' k' : Nat} (h : m.Within w k) (hw : w ≤ w') (hk : k ≤ k') :
    m.Within w' k' :=
  ⟨Nat.le_trans h.work_le hw, Nat.le_trans h.copies_le hk⟩

/-- A machine whose control holds no work holds that of its stack and its heap. -/
theorem within_of_heap {control : Control} (hw : control.work = 0) (hk : control.copies = 0)
    (h : s.heap.Within w k) :
    Within ⟨s, control, stack⟩ (stackWork stack + w) (stackCopies stack + k) := by
  have := h.work_le
  have := h.copies_le
  constructor
  · rw [work_mk]; omega
  · rw [copies_mk]; omega

theorem settle_within {out : Outcome Answer} (h : out.Within w k) :
    (settle out stack).Within (stackWork stack + w) (stackCopies stack + k) := by
  cases out <;> exact within_of_heap rfl rfl h

theorem call_within (c : CountCall) (h : s.heap.Within w k) :
    (call c o s stack).Within (releaseWork + stackWork stack + w) (stackCopies stack + k) := by
  cases c with
  | retain =>
    exact (settle_within ((State.retain_within h).map _)).mono (by omega) (Nat.le_refl _)
  | release =>
    have := h.work_le
    have := h.copies_le
    constructor
    · show releaseWork + stackWork stack + s.heap.work ≤ _
      omega
    · show 0 + stackCopies stack + s.heap.copies ≤ _
      omega

theorem callNamed_within (c : CountCall) (name : Option String) (h : s.heap.Within w k) :
    (callNamed c name s stack).Within (releaseWork + stackWork stack + w)
      (stackCopies stack + k) := by
  unfold callNamed
  split
  · exact (settle_within (State.report_within _ h)).mono (by omega) (Nat.le_refl _)
  · split
    · exact call_within c h
    · exact (within_of_heap rfl rfl h).mono (by omega) (Nat.le_refl _)

theorem stackWork_guarded (via : Convention) (stack : List Frame) :
    stackWork (guarded via stack) ≤ 1 + stackWork stack := by
  cases via with
  | native => exact Nat.le_add_left _ _
  | foreign => exact Nat.le_refl _

theorem stackCopies_guarded (via : Convention) (stack : List Frame) :
    stackCopies (guarded via stack) = stackCopies stack := by
  cases via with
  | native => rfl
  | foreign => exact Nat.zero_add _

theorem repeatCall_within (c : CountCall) (name : Option String) (via : Convention) (times : Nat)
    (h : s.heap.Within w k) :
    (repeatCall c name via s stack times).Within (times * callWork + stackWork stack + w)
      (stackCopies stack + k) := by
  cases times with
  | zero => exact (within_of_heap rfl rfl h).mono (by omega) (Nat.le_refl _)
  | succ times =>
    have hwork := stackWork_guarded via (.repeating c name times via :: stack)
    have hcopies := stackCopies_guarded via (.repeating c name times via :: stack)
    simp only [stackWork_cons, Frame.work, callWork, releaseWork] at hwork
    simp only [stackCopies_cons, Frame.copies] at hcopies
    refine (callNamed_within c name h).mono ?_ ?_
    · simp only [callWork, releaseWork]; omega
    · omega

theorem runThreads_within (waiting : List (List CountCall)) (ended : List Bool)
    (h : s.heap.Within w k) :
    (runThreads o s stack waiting ended).Within
      (total List.length waiting * handleWork + stackWork stack + w)
      (stackCopies stack + k) := by
  induction waiting generalizing ended with
  | nil =>
    have hrest : Within ⟨s, .answer (.flags ended), stack⟩ (stackWork stack + w)
        (stackCopies stack + k) := within_of_heap rfl rfl h
    exact hrest.mono (by omega) (Nat.le_refl _)
  | cons calls waiting ih =>
    cases calls with
    | nil =>
      have := ih (ended ++ [true])
      simpa [runThreads] using this
    | cons c rest =>
      refine (call_within c h).mono ?_ ?_
      · simp only [stackWork_cons, Frame.work, total_cons, List.length_cons,
          handleWork, releaseWork]
        omega
      · simp [Frame.copies]

theorem continueRoutine_within (s : State) (stack : List Frame) (label : String)
    (body : List Step) (h : s.heap.Within w k) :
    (continueRoutine label s stack body).Within (bodyWork body + stackWork stack + w)
      (bodyCopies body + stackCopies stack + k) := by
  cases body with
  | nil =>
    have hrest : Within ⟨s.observe (.left label), .answer .done, stack⟩ (stackWork stack + w)
        (stackCopies stack + k) := within_of_heap rfl rfl h
    exact hrest.mono (by omega) (by omega)
  | cons step rest =>
    have := h.work_le
    have := h.copies_le
    constructor
    · simp only [continueRoutine, work_mk, Control.work, stackWork_cons, Frame.work, bodyWork]
      omega
    · simp only [continueRoutine, copies_mk, Control.copies, stackCopies_cons, Frame.copies,
        bodyCopies]
      omega

theorem continueDropping_within (s : State) (stack : List Frame) (cause : Option Cause)
    (os : List ObjectId) (h : s.heap.Within w k) :
    (continueDropping cause s stack os).Within (os.length * handleWork + stackWork stack + w)
      (stackCopies stack + k) := by
  have := h.work_le
  have := h.copies_le
  cases os with
  | nil =>
    cases cause <;>
      exact (within_of_heap rfl rfl h).mono (Nat.le_of_eq (by simp)) (Nat.le_refl _)
  | cons o rest =>
    constructor
    · simp only [continueDropping, work_mk, Control.work, stackWork_cons, Frame.work,
        List.length_cons, handleWork, releaseWork]
      omega
    · simp only [continueDropping, copies_mk, Control.copies, stackCopies_cons, Frame.copies]
      omega

/-- Dropping a value moves the load of its handles from the heap to the stack. -/
theorem dropValue_within (h : s.heap.Within w k) :
    (dropValue o s stack).Within (stackWork stack + w) (stackCopies stack + k) := by
  have := h.work_le
  have := h.copies_le
  have hload := Heap.updateObject_load (h := s.heap) (o := o) fun object =>
    {object with contents := .remains}
  have hzero : ((s.heap.object? o).map fun object =>
      ({object with contents := .remains} : Object).work).getD 0 = 0 := by
    cases s.heap.object? o with
    | none => rfl
    | some object => simp [Object.work, Contents.children]
  rw [hzero] at hload
  have hle : (s.heap.setContents o .remains).Within s.heap.work s.heap.copies :=
    ⟨Nat.le_trans (Nat.le_add_right _ _) (Nat.le_of_eq hload.1), Nat.le_of_eq hload.2⟩
  unfold dropValue
  simp only
  split
  · next label children hv =>
    obtain ⟨object, ho, hc⟩ := Option.bind_eq_some_iff.1 hv
    have hchildren : object.work = children.length * handleWork := by
      rw [Object.work, State.children_toValue? hc]; rfl
    rw [ho] at hload
    have hwork : (s.heap.setContents o .remains).work + children.length * handleWork =
      s.heap.work := hchildren ▸ hload.1
    have hemptied : (s.heap.setContents o .remains).Within (s.heap.setContents o .remains).work k :=
      ⟨Nat.le_refl _, Nat.le_trans hle.copies_le h.copies_le⟩
    exact (continueDropping_within ((s.onHeap (·.setContents o .remains)).observe (.dropped label))
      stack none children hemptied).mono (by omega) (Nat.le_refl _)
  · exact within_of_heap rfl rfl (hle.mono h.work_le h.copies_le)

theorem finalize_within (t : Teardown) (finalizer : Option Finalizer) (h : s.heap.Within w k) :
    (finalize t finalizer s stack).Within
      (2 + cellWork (some {finalizer}) + stackWork stack + w)
      (cellCopies (some {finalizer}) + stackCopies stack + k) := by
  cases finalizer with
  | none =>
    refine (within_of_heap rfl rfl h).mono ?_ ?_
    · simp only [stackWork_cons, Frame.work]; omega
    · simp only [stackCopies_cons, Frame.copies]; omega
  | some finalizer =>
    cases finalizer with
    | dropValue =>
      refine (dropValue_within h).mono ?_ ?_
      · simp only [stackWork_cons, Frame.work]; omega
      · simp only [stackCopies_cons, Frame.copies]; omega
    | routine r =>
      obtain ⟨convention, label, body⟩ := r
      let entered := s.observe
        (.entered label t.object ((s.heap.governing? t.object).map (·.locked)))
      cases convention with
      | native =>
        refine (continueRoutine_within entered (.teardown t :: stack) label body h).mono ?_ ?_
        · show bodyWork body + (1 + stackWork stack) + w ≤ 2 + bodyWork body + stackWork stack + w
          omega
        · show bodyCopies body + (0 + stackCopies stack) + k ≤
            bodyCopies body + stackCopies stack + k
          omega
      | foreign =>
        refine (continueRoutine_within entered (.barrier :: .teardown t :: stack) label body
          h).mono ?_ ?_
        · show bodyWork body + (1 + (1 + stackWork stack)) + w ≤
            2 + bodyWork body + stackWork stack + w
          omega
        · show bodyCopies body + (0 + (0 + stackCopies stack)) + k ≤
            bodyCopies body + stackCopies stack + k
          omega

theorem release_spends :
    (release o s stack).Within (2 + stackWork stack + s.heap.work)
      (stackCopies stack + s.heap.copies) := by
  have hrel := State.release_within (o := o) s.heap.within_self
  unfold release
  cases hr : s.release o with
  | unwound cause t =>
    rw [hr] at hrel
    exact (within_of_heap rfl rfl hrel).mono (by omega) (Nat.le_refl _)
  | halted halt t =>
    rw [hr] at hrel
    exact (within_of_heap rfl rfl hrel).mono (by omega) (Nat.le_refl _)
  | returned result t =>
    have hover := State.handedOver_of_release s.heap.within_self hr
    cases result with
    | none =>
      rw [hr] at hrel
      exact (within_of_heap rfl rfl hrel).mono (by omega) (Nat.le_refl _)
    | some handed =>
      obtain ⟨teardown, finalizer⟩ := handed
      have hw : t.heap.work + cellWork (some {finalizer}) ≤ s.heap.work := hover.1
      have hk : t.heap.copies + cellCopies (some {finalizer}) ≤ s.heap.copies := hover.2
      exact (finalize_within teardown finalizer t.heap.within_self).mono (by omega) (by omega)

/-! ### Transitions -/

theorem routine_load (routine : Option (Routine Step)) :
    cellWork (some {finalizer := routine.map .routine}) = routineWork routine ∧
      cellCopies (some {finalizer := routine.map .routine}) = routineCopies routine := by
  cases routine <;> exact ⟨rfl, rfl⟩

theorem passedRoutine_load (via : Convention) (routine : Option (Routine Step)) :
    cellWork (some {finalizer := (passedRoutine via routine).map .routine}) ≤ routineWork routine ∧
      cellCopies (some {finalizer := (passedRoutine via routine).map .routine}) ≤
        routineCopies routine := by
  obtain ⟨hwork, hcopies⟩ := routine_load (passedRoutine via routine)
  rw [hwork, hcopies]
  exact ⟨passedRoutine_le rfl via routine, passedRoutine_le rfl via routine⟩

/-- A copy on write uses up a copy and at most doubles the work. -/
theorem copyOnWrite_spends (handle : String) (literal : Literal) (h : s.heap.Within w k) :
    (copyOnWrite handle o literal s stack).Within (1 + releaseWork + stackWork stack + 2 * w)
      (stackCopies stack + k) := by
  unfold copyOnWrite
  cases hv : s.heap.value? o with
  | none => exact (within_of_heap rfl rfl h).mono (by omega) (Nat.le_refl _)
  | some v =>
    have hchildren := Nat.le_trans (Heap.children_load hv) h.work_le
    obtain ⟨hwithin, hlength⟩ := State.retainEach_within v.children h
    simp only
    split
    · next retained cause t heq =>
      rw [heq] at hwithin hlength
      have hretained : retained.length ≤ v.children.length := hlength
      have hmul := Nat.mul_le_mul_right handleWork hretained
      refine (continueDropping_within t (.cleaning cause :: stack) none retained hwithin).mono ?_ ?_
      · simp only [stackWork_cons, Frame.work, releaseWork]; omega
      · simp only [stackCopies_cons, Frame.copies]; omega
    · next halt t heq =>
      rw [heq] at hwithin
      exact (within_of_heap rfl rfl hwithin).mono (by omega) (Nat.le_refl _)
    · next result t heq =>
      rw [heq] at hwithin
      have hhold := State.hold_within v hwithin
      cases hf : t.hold v with
      | unwound cause u =>
        rw [hf] at hhold
        exact (within_of_heap rfl rfl hhold).mono (by omega) (Nat.le_refl _)
      | halted halt u =>
        rw [hf] at hhold
        exact (within_of_heap rfl rfl hhold).mono (by omega) (Nat.le_refl _)
      | returned fresh u =>
        rw [hf] at hhold
        have := hhold.work_le
        have := hhold.copies_le
        constructor
        · show releaseWork + (1 + stackWork stack) + u.heap.work ≤ _
          omega
        · show 0 + (0 + stackCopies stack) + u.heap.copies ≤ _
          omega

theorem makeUnique_spends (handle : String) (literal : Literal) :
    (makeUnique handle o literal s stack).Within (1 + releaseWork + stackWork stack + 2 * s.heap.work)
      (stackCopies stack + s.heap.copies) := by
  have hunique := State.isUnique_within (o := o) s.heap.within_self
  unfold makeUnique
  cases hu : s.isUnique o with
  | unwound cause t =>
    rw [hu] at hunique
    exact (within_of_heap rfl rfl hunique).mono (by omega) (Nat.le_refl _)
  | halted halt t =>
    rw [hu] at hunique
    exact (within_of_heap rfl rfl hunique).mono (by omega) (Nat.le_refl _)
  | returned unique t =>
    rw [hu] at hunique
    cases unique with
    | true =>
      have hassigned : (assigned o literal false t).Within s.heap.work s.heap.copies :=
        State.given_within hunique fun _ ha => State.assign_within hunique ha
      exact (settle_within hassigned).mono (by omega) (Nat.le_refl _)
    | false => exact copyOnWrite_spends handle literal hunique

/-- What a transition leaves: less work and no new copies, or a copy less and at most double the
work. -/
def Spends (m m' : Machine) : Prop :=
  m'.work < m.work ∧ m'.copies ≤ m.copies ∨ m'.work < 2 * m.work ∧ m'.copies < m.copies

theorem spends_of_within {m m' : Machine} (h : m'.Within (m.work - 1) m.copies)
    (hpos : 0 < m.work) : Spends m m' :=
  .inl ⟨by have := h.work_le; omega, h.copies_le⟩

theorem work_pos (step : Step) : 0 < step.work := by
  cases step with
  | act action => cases action with
    | handle action => cases action <;> simp only [Step.work, Action.work, HandleAction.work] <;> omega
    | _ => exact Nat.one_pos
  | _ => simp only [Step.work]; omega

/-- A step that ends in one transition may leave what it was given in the heap. -/
theorem settle_spends {step : Step} {out : Outcome Answer}
    (h : out.Within (s.heap.work + (step.work - 1)) (s.heap.copies + step.copies)) :
    Spends ⟨s, .perform step, stack⟩ (settle out stack) := by
  have hpos := work_pos step
  refine spends_of_within ((settle_within h).mono ?_ ?_) ?_
  · simp only [work_mk, Control.work]; omega
  · simp only [copies_mk, Control.copies]; omega
  · simp only [work_mk, Control.work]; omega

/-- A step that starts something leaves the work of what it starts. -/
theorem start_spends {step : Step} {m : Machine}
    (h : m.Within (step.work - 1 + stackWork stack + s.heap.work)
      (step.copies + stackCopies stack + s.heap.copies)) :
    Spends ⟨s, .perform step, stack⟩ m := by
  have hpos := work_pos step
  refine spends_of_within (h.mono ?_ ?_) ?_
  · simp only [work_mk, Control.work]; omega
  · exact Nat.le_refl _
  · simp only [work_mk, Control.work]; omega

theorem length_threadCalls (retains releases rounds : Nat) :
    (threadCalls retains releases rounds).length = rounds * (retains + releases) := by
  induction rounds with
  | zero => simp [threadCalls]
  | succ rounds ih => simp [threadCalls, ih, Nat.succ_mul]; omega

theorem allocate_spends (name : String) (size : UInt64) (routine : Option (Routine Step))
    (provider : Option String) (via : Convention) :
    Spends ⟨s, .perform (.allocate name size routine provider via), stack⟩
      (perform s stack (.allocate name size routine provider via)) := by
  have hself := s.heap.within_self
  obtain ⟨hw, hk⟩ := passedRoutine_load via routine
  refine settle_spends (Outcome.Within.through via
    (State.given_within (hself.mono (by omega) (by omega)) fun i _ =>
      Outcome.Within.andThen ?_ fun _ _ hs => hs))
  refine (State.allocate_within i size (.bytes []) _ hself).mono ?_ ?_
  · simp only [Step.work, Contents.children, List.length_nil, Nat.zero_mul]; omega
  · simp only [Step.copies]; omega

theorem assemble_spends (name : String) (size : UInt64) (routine : Option (Routine Step)) :
    Spends ⟨s, .perform (.assemble name size routine), stack⟩
      (perform s stack (.assemble name size routine)) := by
  obtain ⟨hw, hk⟩ := routine_load routine
  have hload := Heap.addObject_load (h := s.heap) size (.bytes []) (routine.map .routine)
  rw [hw, hk] at hload
  refine settle_spends ⟨Nat.le_trans (Nat.le_of_eq hload.1) ?_, Nat.le_of_eq hload.2⟩
  simp only [Step.work, Contents.children, List.length_nil, Nat.zero_mul]
  omega

theorem reinstall_spends (name : String) (routine : Option (Routine Step)) :
    Spends ⟨s, .perform (.reinstall name routine), stack⟩
      (perform s stack (.reinstall name routine)) := by
  obtain ⟨hw, hk⟩ := routine_load routine
  refine settle_spends
    (State.withObject_within (s.heap.within_self.mono (by omega) (by omega)) fun o => ?_)
  have hcell := Heap.addCell_load (h := s.heap) (routine.map .routine)
  have hlink := Heap.setLink_load (h := (s.heap.addCell (routine.map .routine)).2) (o := o)
    (some (s.heap.addCell (routine.map .routine)).1)
  rw [hw, hk] at hcell
  refine ⟨Nat.le_trans (Nat.le_of_eq (hlink.1.trans hcell.1)) ?_,
    Nat.le_of_eq (hlink.2.trans hcell.2)⟩
  simp only [Step.work]
  omega

theorem newCell_spends (name : String) (routine : Option (Routine Step)) :
    Spends ⟨s, .perform (.newCell name routine), stack⟩
      (perform s stack (.newCell name routine)) := by
  obtain ⟨hw, hk⟩ := routine_load routine
  have hcell := Heap.addCell_load (h := s.heap) (routine.map .routine)
  rw [hw, hk] at hcell
  have hrest : Within (perform s stack (.newCell name routine))
      (stackWork stack + (s.heap.work + routineWork routine))
      (stackCopies stack + (s.heap.copies + routineCopies routine)) :=
    within_of_heap rfl rfl ⟨Nat.le_of_eq hcell.1, Nat.le_of_eq hcell.2⟩
  refine start_spends (hrest.mono ?_ ?_)
  · simp only [Step.work]; omega
  · simp only [Step.copies]; omega

/-- A step that starts nothing leaves what is waiting. -/
theorem idle_spends {step : Step} {t : State} {control : Control} (hw : control.work = 0)
    (hk : control.copies = 0) (hheap : t.heap.Within s.heap.work s.heap.copies) :
    Spends ⟨s, .perform step, stack⟩ ⟨t, control, stack⟩ :=
  start_spends ((within_of_heap hw hk hheap).mono (by omega) (by omega))

/-- Every step leaves less work, or takes a copy for the work that it leaves: making a value unique
is the one step that copies. -/
theorem perform_spends (step : Step) :
    Spends ⟨s, .perform step, stack⟩ (perform s stack step) := by
  have hself := s.heap.within_self
  cases step with
  | allocate name size routine provider via => exact allocate_spends name size routine provider via
  | assemble name size routine => exact assemble_spends name size routine
  | reinstall name routine => exact reinstall_spends name routine
  | newCell name routine => exact newCell_spends name routine
  | describe routine => exact idle_spends rfl rfl (State.discard_heap (s := s) (routine.map .routine) ▸ hself)
  | call c name times via =>
    refine start_spends ((repeatCall_within c name via times hself).mono ?_ ?_)
    · simp only [Step.work]; omega
    · omega
  | race name threads retains releases rounds =>
    unfold perform
    simp only
    split
    · refine start_spends ((runThreads_within _ [] hself).mono ?_ ?_)
      · simp only [Step.work, total_replicate, length_threadCalls]
        omega
      · omega
    · exact idle_spends rfl rfl hself
  | dropHandle handle =>
    unfold perform
    simp only
    split
    · refine start_spends ⟨?_, ?_⟩
      · show releaseWork + stackWork stack + s.heap.work ≤ _
        simp only [Step.work]; omega
      · show 0 + stackCopies stack + s.heap.copies ≤ _
        omega
    · exact idle_spends rfl rfl hself
  | makeUnique handle literal =>
    unfold perform
    simp only
    split
    · next o _ =>
      have h := @makeUnique_spends s stack o handle literal
      have := h.work_le
      have := h.copies_le
      refine .inr ⟨?_, ?_⟩
      · simp only [work_mk, Control.work, Step.work]; omega
      · simp only [copies_mk, Control.copies, Step.copies]; omega
    · exact idle_spends rfl rfl hself
  | attempt step =>
    refine start_spends ⟨?_, ?_⟩
    · show step.work + (1 + stackWork stack) + s.heap.work ≤ _
      simp only [Step.work]; omega
    · show step.copies + (0 + stackCopies stack) + s.heap.copies ≤ _
      simp only [Step.copies]; omega
  | act action => exact settle_spends ((act_within action hself).mono (Nat.le_refl _) (by omega))

/-- What a frame leaves when it is taken off the stack. -/
theorem frame_spends {frame : Frame} {control : Control} {m : Machine}
    (h : m.Within (frame.work - 1 + stackWork stack + s.heap.work)
      (frame.copies + stackCopies stack + s.heap.copies)) :
    Spends ⟨s, control, frame :: stack⟩ m := by
  have hpos : 0 < frame.work := by cases frame <;> simp only [Frame.work] <;> omega
  refine spends_of_within (h.mono ?_ ?_) ?_
  · simp only [work_mk, stackWork_cons]; omega
  · simp only [copies_mk, stackCopies_cons]; omega
  · simp only [work_mk, stackWork_cons]; omega

theorem resume_spends (answer : Answer) (frame : Frame) :
    Spends ⟨s, .answer answer, frame :: stack⟩ (resume answer s stack frame) := by
  have hself := s.heap.within_self
  cases frame with
  | repeating c name times via =>
    refine frame_spends ((repeatCall_within c name via times hself).mono ?_ ?_)
    · simp only [Frame.work]; omega
    · omega
  | routine label rest =>
    refine frame_spends ((continueRoutine_within (s.observe (.stepped answer)) stack label rest
      hself).mono ?_ ?_)
    · simp only [Frame.work]; omega
    · exact Nat.le_refl _
  | teardown t =>
    exact frame_spends ((within_of_heap rfl rfl (State.finish_within t hself)).mono (by omega)
      (by omega))
  | barrier => exact frame_spends ((within_of_heap rfl rfl hself).mono (by omega) (by omega))
  | attempt => exact frame_spends ((within_of_heap rfl rfl hself).mono (by omega) (by omega))
  | thread rest o waiting ended =>
    refine frame_spends ((runThreads_within (rest :: waiting) ended hself).mono ?_ ?_)
    · simp only [Frame.work, total_cons]; omega
    · omega
  | dropping rest cause =>
    refine frame_spends ((continueDropping_within s stack cause rest hself).mono ?_ ?_)
    · simp only [Frame.work]; omega
    · omega
  | cleaning cause => exact frame_spends ((within_of_heap rfl rfl hself).mono (by omega) (by omega))
  | assigning fresh literal =>
    have hassigned : (assigned fresh literal true s).Within s.heap.work s.heap.copies :=
      State.given_within hself fun _ ha => State.assign_within hself ha
    exact frame_spends ((settle_within hassigned).mono (by omega) (by omega))

theorem unwind_spends (cause : Cause) (frame : Frame) :
    Spends ⟨s, .unwind cause, frame :: stack⟩ (unwind cause s stack frame) := by
  have hself := s.heap.within_self
  have hrest (control : Control) (hw : control.work = 0) (hk : control.copies = 0) :
      Spends ⟨s, .unwind cause, frame :: stack⟩ ⟨s, control, stack⟩ :=
    frame_spends ((within_of_heap hw hk hself).mono (by omega) (by omega))
  cases frame with
  | repeating c name times via => exact hrest _ rfl rfl
  | routine label rest => exact hrest _ rfl rfl
  | teardown t =>
    exact frame_spends ((within_of_heap rfl rfl (State.finish_within t hself)).mono (by omega)
      (by omega))
  | barrier => exact hrest _ rfl rfl
  | attempt => exact hrest _ rfl rfl
  | thread rest o waiting ended =>
    refine frame_spends ((runThreads_within waiting (ended ++ [false]) hself).mono ?_ ?_)
    · simp only [Frame.work, Nat.add_mul]; omega
    · omega
  | dropping rest pending =>
    cases pending with
    | none =>
      refine frame_spends ((continueDropping_within s stack (some cause) rest hself).mono ?_ ?_)
      · simp only [Frame.work]; omega
      · omega
    | some pending => exact hrest _ rfl rfl
  | cleaning pending => exact hrest _ rfl rfl
  | assigning fresh literal => exact hrest _ rfl rfl

theorem next?_spends {m m' : Machine} (h : m.next? = some m') : Spends m m' := by
  obtain ⟨s, control, stack⟩ := m
  cases control with
  | perform step =>
    cases h
    exact perform_spends step
  | release o =>
    cases h
    refine spends_of_within (release_spends.mono ?_ ?_) ?_
    · simp only [work_mk, Control.work, releaseWork]; omega
    · simp only [copies_mk, Control.copies]; omega
    · simp only [work_mk, Control.work, releaseWork]; omega
  | answer answer =>
    cases stack with
    | nil => cases h
    | cons frame stack =>
      cases h
      exact resume_spends answer frame
  | unwind cause =>
    cases stack with
    | nil => cases h
    | cons frame stack =>
      cases h
      exact unwind_spends cause frame
  | halt halt => cases h

/-! ### Rest -/

theorem budget_next? {m m' : Machine} (h : m.next? = some m') : m'.budget < m.budget := by
  simp only [budget, Nat.shiftLeft_eq]
  rcases next?_spends h with ⟨hw, hk⟩ | ⟨hw, hk⟩
  · exact Nat.lt_of_lt_of_le ((Nat.mul_lt_mul_right (Nat.two_pow_pos _)).2 hw)
      (Nat.mul_le_mul_left _ (Nat.pow_le_pow_right Nat.two_pos hk))
  · refine Nat.lt_of_lt_of_le ((Nat.mul_lt_mul_right (Nat.two_pow_pos _)).2 hw) ?_
    rw [Nat.mul_comm 2, Nat.mul_assoc, ← Nat.pow_succ']
    exact Nat.mul_le_mul_left _ (Nat.pow_le_pow_right Nat.two_pos hk)

theorem next?_advance {m : Machine} {n : Nat} (h : m.budget ≤ n) : (m.advance n).next? = none := by
  induction n generalizing m with
  | zero =>
    cases hm : m.next? with
    | none => exact hm
    | some m' =>
      have := budget_next? hm
      omega
  | succ n ih =>
    unfold advance
    cases hm : m.next? with
    | none => exact hm
    | some m' =>
      have := budget_next? hm
      exact ih (by omega)

/-- **Every run comes to rest.** -/
theorem run_rests (m : Machine) : m.run.next? = none :=
  next?_advance (Nat.le_refl _)

end Machine
end Custody
