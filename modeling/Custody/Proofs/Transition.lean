import Custody.Machine.Rest
import Custody.Proofs.Supply

/-! What a transition does to locks and finalizers.

There are three kinds of transition (`moves_of_next?`): the release that takes a count
from one to zero begins a teardown, leaving the frame of a teardown finishes it, and all
others come to shifts of the view and leave the teardowns on the stack as they are. No
later proof looks into the machine for what a step, a frame or a finalizer does. -/
namespace Custody

/-! ### The stack -/

def Frame.teardown? : Frame → Option Teardown
  | .teardown t => some t
  | _ => none

/-- The teardowns under way, innermost first. -/
def teardowns (stack : List Frame) : List Teardown :=
  stack.filterMap Frame.teardown?

@[simp] theorem teardowns_nil : teardowns [] = [] := rfl

@[simp] theorem teardowns_teardown (t : Teardown) (stack : List Frame) :
    teardowns (.teardown t :: stack) = t :: teardowns stack := rfl

theorem teardowns_cons {frame : Frame} (h : frame.teardown? = none) (stack : List Frame) :
    teardowns (frame :: stack) = teardowns stack :=
  List.filterMap_cons_none h

@[simp] theorem teardowns_guarded (via : Convention) (stack : List Frame) :
    teardowns (Machine.guarded via stack) = teardowns stack := by
  cases via <;> rfl

/-! ### What waits to be performed -/

def Frame.supply (label : String) : Frame → Nat
  | .routine _ rest => bodySupply label rest
  | _ => 0

def stackSupply (label : String) (stack : List Frame) : Nat :=
  total (Frame.supply label) stack

@[simp] theorem stackSupply_cons (label : String) (frame : Frame) (stack : List Frame) :
    stackSupply label (frame :: stack) = frame.supply label + stackSupply label stack := rfl

@[simp] theorem stackSupply_guarded (label : String) (via : Convention) (stack : List Frame) :
    stackSupply label (Machine.guarded via stack) = stackSupply label stack := by
  cases via
  · rfl
  · exact Nat.zero_add _

def Control.supply (label : String) : Control → Nat
  | .perform step => step.supply label
  | _ => 0

/-! ### What steps bring along -/

/-- The routine that a step brings along, if it is one that may have one. -/
def Step.routine? : Step → Option (Option (Routine Step))
  | .allocate _ _ routine _ _ | .assemble _ _ routine | .reinstall _ routine | .newCell _ routine
  | .describe routine => some routine
  | _ => none

theorem Step.supply_of_routine? {step : Step} {routine : Option (Routine Step)}
    (h : step.routine? = some routine) (label : String) :
    step.supply label = routineSupply label routine := by
  cases step <;> cases h <;> rfl

/-! ### Slots that are overwritten by hand -/

/-- The name of the object whose slot a step clears or overwrites. -/
def Step.slot? : Step → Option String
  | .reinstall name _ => some name
  | .act (.object (.clearSlot name)) => some name
  | _ => none

/-- The object whose slot the next transition clears or overwrites by hand. -/
def Machine.edited? (m : Machine) : Option ObjectId :=
  match m.control with
  | .perform step => step.slot?.bind m.state.names.objects.find?
  | _ => none

def Machine.Edits (m : Machine) (o : ObjectId) : Prop :=
  m.edited? = some o

/-! ### Teardowns in a view -/

namespace View

/-- What is told when a finalizer runs. -/
def entered (o : ObjectId) : Option Finalizer → List Event
  | some (.routine r) => [.entered r.label o (some true)]
  | _ => []

def begin (t : Teardown) (finalizer : Option Finalizer) (v : View) : View :=
  {v.updateCell t.cell fun _ => {locked := true} with told := entered t.object finalizer ++ v.told}

/-- Only routines are told of, with their own object and with its cell locked. -/
theorem mem_entered {label : String} {o p : ObjectId} {locked : Option Bool}
    {finalizer : Option Finalizer} : .entered label p locked ∈ entered o finalizer ↔
      p = o ∧ locked = some true ∧ ∃ r, finalizer = some (.routine r) ∧ r.label = label := by
  unfold entered
  split
  · next r =>
    simp only [List.mem_singleton, Event.entered.injEq, Option.some.injEq, Finalizer.routine.injEq,
      exists_eq_left']
    exact ⟨fun ⟨hlabel, ho, hlocked⟩ => ⟨ho, hlocked, hlabel.symm⟩,
      fun ⟨ho, hlocked, hlabel⟩ => ⟨hlabel.symm, ho, hlocked⟩⟩
  · next hno =>
    refine ⟨nofun, ?_⟩
    rintro ⟨_, _, r, hr, _⟩
    exact absurd hr (hno r)

theorem cell?_begin (t : Teardown) (finalizer : Option Finalizer) (v : View) (d : CellId) :
    (v.begin t finalizer).cell? d =
      if t.cell = d then (v.cell? d).map fun _ => {locked := true} else v.cell? d :=
  cell?_updateCell _

theorem cell?_begin_self {t : Teardown} {finalizer : Option Finalizer} {v : View} {cell : Cell}
    (hc : v.cell? t.cell = some cell) :
    (v.begin t finalizer).cell? t.cell = some {locked := true} := by
  rw [cell?_begin, if_pos rfl, hc]
  rfl

def finish (t : Teardown) (v : View) : View :=
  ((v.updateCell t.cell fun cell => {cell with locked := false}).freeCell t.cell).unlink t.object

/-- The lock of a cell that is freed does not matter. -/
theorem finish_eq (t : Teardown) (v : View) :
    v.finish t = (v.unlink t.object).freeCell t.cell := by
  have hfree : (v.updateCell t.cell fun cell => {cell with locked := false}).freeCell t.cell =
      v.freeCell t.cell := freeCell_updateCell fun _ => rfl
  exact congrArg (unlink t.object) hfree

end View

theorem State.view_finish (t : Teardown) (s : State) : (s.finish t).view = s.view.finish t := by
  have hunlock : (s.unlock t.cell).view =
    s.view.updateCell t.cell fun cell => {cell with locked := false} := rfl
  show ((((s.unlock t.cell).freeCell t.cell).onHeap (·.setLink t.object none))).view = _
  rw [view_clearLink, view_freeCell, hunlock]
  rfl

namespace Machine

variable {edits : ObjectId → Prop} {s : State} {stack : List Frame} {spare : String → Nat}

/-- What the control and the stack supply. -/
def pending (label : String) (m : Machine) : Nat :=
  m.control.supply label + stackSupply label m.stack

/-! ### Transitions that begin and finish nothing -/

/-- The machine came from the state and the stack without a change to the view. It holds no more
than was on the stack and `spare`. -/
structure Still (s : State) (stack : List Frame) (spare : String → Nat) (m : Machine) : Prop where
  view : m.state.view = s.view
  under : teardowns m.stack = teardowns stack
  supply (label : String) : m.pending label ≤ spare label + stackSupply label stack

/-- The machine came from the state and the stack by shifts. Together with what they put to use it
holds no more than was on the stack and `spare`. -/
def Quiet (edits : ObjectId → Prop) (s : State) (stack : List Frame) (spare : String → Nat)
    (m : Machine) : Prop :=
  ∃ rs, Shifts edits rs s.view m.state.view ∧ teardowns m.stack = teardowns stack ∧
    ∀ label, total (Routine.supply label) rs + m.pending label ≤
      spare label + stackSupply label stack

variable {m : Machine}

namespace Still

/-- The machine is where it was, with a control that supplies nothing. -/
theorem of_idle (hview : m.state.view = s.view) (hstack : m.stack = stack)
    (hidle : ∀ label, m.control.supply label = 0) : Still s stack spare m := by
  refine ⟨hview, by rw [hstack], fun label => ?_⟩
  unfold pending
  rw [hidle label, hstack, Nat.zero_add]
  exact Nat.le_add_left _ _

theorem pop {frame : Frame} (h : Still s (frame :: stack) spare m)
    (hframe : frame.teardown? = none) (hsupply : ∀ label, frame.supply label = 0) :
    Still s stack spare m := by
  refine ⟨h.view, h.under.trans (teardowns_cons hframe stack), fun label => ?_⟩
  have := h.supply label
  rwa [stackSupply_cons, hsupply, Nat.zero_add] at this

theorem unguarded {via : Convention} (h : Still s (guarded via stack) spare m) :
    Still s stack spare m := by
  refine ⟨h.view, h.under.trans (teardowns_guarded via stack), fun label => ?_⟩
  have := h.supply label
  rwa [stackSupply_guarded] at this

theorem quiet (h : Still s stack spare m) : Quiet edits s stack spare m := by
  refine ⟨[], .of_eq h.view, h.under, fun label => ?_⟩
  rw [total_nil, Nat.zero_add]
  exact h.supply label

end Still

namespace Quiet

theorem of_idle (hview : m.state.view = s.view) (hstack : m.stack = stack)
    (hidle : ∀ label, m.control.supply label = 0) : Quiet edits s stack spare m :=
  (Still.of_idle hview hstack hidle).quiet

theorem mono {spare' : String → Nat} (h : Quiet edits s stack spare m)
    (hle : ∀ label, spare label ≤ spare' label) : Quiet edits s stack spare' m := by
  obtain ⟨rs, hshifts, hstack, hsupply⟩ := h
  refine ⟨rs, hshifts, hstack, fun label => ?_⟩
  exact Nat.le_trans (hsupply label) (Nat.add_le_add_right (hle label) _)

/-- Shifts beforehand that put nothing to use. -/
theorem after {t : State} (h : Quiet edits t stack spare m)
    (hshifts : Shifts edits [] s.view t.view) : Quiet edits s stack spare m := by
  obtain ⟨rs, hrest, hstack, hsupply⟩ := h
  exact ⟨rs, hshifts.trans hrest, hstack, hsupply⟩

/-- A frame that was on top and held some of the supply. -/
theorem pop {frame : Frame} (h : Quiet edits s (frame :: stack) spare m)
    (hframe : frame.teardown? = none) :
    Quiet edits s stack (fun label => spare label + frame.supply label) m := by
  obtain ⟨rs, hshifts, hstack, hsupply⟩ := h
  refine ⟨rs, hshifts, hstack.trans (teardowns_cons hframe stack), fun label => ?_⟩
  have := hsupply label
  rw [stackSupply_cons] at this
  exact Nat.le_trans this (Nat.le_of_eq (Nat.add_assoc _ _ _).symm)

theorem unguarded {via : Convention} (h : Quiet edits s (guarded via stack) spare m) :
    Quiet edits s stack spare m := by
  obtain ⟨rs, hshifts, hstack, hsupply⟩ := h
  refine ⟨rs, hshifts, hstack.trans (teardowns_guarded via stack), fun label => ?_⟩
  have := hsupply label
  rwa [stackSupply_guarded] at this

end Quiet

theorem quiet_settle {out : Outcome Answer} (rs : List (Routine Step))
    (h : Shifts edits rs s.view out.state.view) :
    Quiet edits s stack (fun label => total (Routine.supply label) rs) (settle out stack) := by
  cases out <;> exact ⟨rs, h, rfl, fun label => by simp [pending, Control.supply, settle]⟩

theorem quiet_settle_of_view {out : Outcome Answer} (h : out.state.view = s.view) :
    Quiet edits s stack spare (settle out stack) :=
  (quiet_settle [] (.of_eq h)).mono fun _ => Nat.zero_le _

/-! ### Calls -/

theorem quiet_call (c : CountCall) (o : ObjectId) (s : State) (stack : List Frame) :
    Quiet edits s stack spare (call c o s stack) := by
  cases c with
  | retain => exact (quiet_settle [] (State.shifts_retain.map _)).mono fun _ => Nat.zero_le _
  | release => exact .of_idle rfl rfl fun _ => rfl

theorem quiet_callNamed (c : CountCall) (name : Option String) (s : State) (stack : List Frame) :
    Quiet edits s stack spare (callNamed c name s stack) := by
  cases name with
  | none => exact quiet_settle_of_view (State.view_report _)
  | some name =>
    unfold callNamed
    simp only
    split
    · exact quiet_call c _ s stack
    · exact .of_idle rfl rfl fun _ => rfl

theorem quiet_repeatCall (c : CountCall) (name : Option String) (via : Convention) (times : Nat) :
    Quiet edits s stack spare (repeatCall c name via s stack times) := by
  cases times with
  | zero => exact .of_idle rfl rfl fun _ => rfl
  | succ times => exact (quiet_callNamed c name s _).unguarded.pop rfl

theorem quiet_runThreads (o : ObjectId) (waiting : List (List CountCall)) (ended : List Bool) :
    Quiet edits s stack spare (runThreads o s stack waiting ended) := by
  induction waiting generalizing ended with
  | nil => exact .of_idle rfl rfl fun _ => rfl
  | cons calls waiting ih =>
    cases calls with
    | nil => exact ih (ended ++ [true])
    | cons c rest => exact (quiet_call c o s _).pop rfl

/-! ### Finalizers -/

theorem still_continueRoutine (label : String) (s : State) (stack : List Frame)
    (steps : List Step) :
    Still s stack (fun l => bodySupply l steps) (continueRoutine label s stack steps) := by
  cases steps with
  | nil => exact .of_idle (State.view_observe rfl) rfl fun _ => rfl
  | cons step rest =>
    refine ⟨rfl, teardowns_cons rfl stack, fun l => ?_⟩
    simp only [continueRoutine, pending, stackSupply_cons, Control.supply, Frame.supply,
      bodySupply]
    omega

theorem still_continueDropping (cause : Option Cause) (s : State) (stack : List Frame)
    (os : List ObjectId) : Still s stack spare (continueDropping cause s stack os) := by
  cases os with
  | nil => cases cause <;> exact .of_idle rfl rfl fun _ => rfl
  | cons o rest =>
    refine ⟨rfl, teardowns_cons rfl stack, fun l => ?_⟩
    simp [continueDropping, pending, Control.supply, Frame.supply]

theorem still_dropValue (o : ObjectId) (s : State) (stack : List Frame) :
    Still s stack spare (dropValue o s stack) := by
  have hview : (s.onHeap (·.setContents o .remains)).view = s.view := State.view_setContents _
  unfold dropValue
  simp only
  split
  · next label children _ =>
    have h : Still ((s.onHeap (·.setContents o .remains)).observe (.dropped label)) stack spare _ :=
      still_continueDropping none _ stack children
    exact ⟨h.view.trans ((State.view_observe rfl).trans hview), h.under, h.supply⟩
  · exact .of_idle hview rfl fun _ => rfl

variable {o : ObjectId} {c : CellId} {cell : Cell}

theorem governing?_begin (h : s.heap.Opens o c cell) :
    (s.begin ⟨o, c⟩).heap.governing? o = some {locked := true} := by
  simp [State.begin, State.trace, State.log, State.onStatistics, State.onHeap, Heap.governing?,
    h.link, h.found]

/-- What a finalizer still supplies once it runs. -/
def bodyOf : Option Finalizer → List Step
  | some (.routine r) => r.body
  | _ => []

/-- A finalizer runs under the lock of its object's cell. -/
theorem finalize_begin (stack : List Frame) (h : s.heap.Opens o c cell) :
    (finalize ⟨o, c⟩ cell.finalizer (s.begin ⟨o, c⟩) stack).state.view =
        s.view.begin ⟨o, c⟩ cell.finalizer ∧
      teardowns (finalize ⟨o, c⟩ cell.finalizer (s.begin ⟨o, c⟩) stack).stack =
        ⟨o, c⟩ :: teardowns stack ∧
      ∀ label, (finalize ⟨o, c⟩ cell.finalizer (s.begin ⟨o, c⟩) stack).pending label ≤
        bodySupply label (bodyOf cell.finalizer) + stackSupply label stack := by
  have hstill {t : State} {m : Machine} {steps : List Step}
      (hview : t.view = s.view.begin ⟨o, c⟩ cell.finalizer)
      (h : Still t (.teardown ⟨o, c⟩ :: stack) (fun l => bodySupply l steps) m) :
      m.state.view = s.view.begin ⟨o, c⟩ cell.finalizer ∧
        teardowns m.stack = ⟨o, c⟩ :: teardowns stack ∧
        ∀ label, m.pending label ≤ bodySupply label steps + stackSupply label stack := by
    refine ⟨h.view.trans hview, h.under, fun label => ?_⟩
    have := h.supply label
    rwa [stackSupply_cons, show Frame.supply label (.teardown ⟨o, c⟩) = 0 from rfl,
      Nat.zero_add] at this
  unfold finalize
  simp only
  cases hf : cell.finalizer with
  | none =>
    rw [hf] at hstill
    exact hstill (t := s.begin ⟨o, c⟩) rfl (.of_idle rfl rfl fun _ => rfl)
  | some finalizer =>
    rw [hf] at hstill
    cases finalizer with
    | routine r =>
      simp only [governing?_begin h]
      exact hstill (t := (s.begin ⟨o, c⟩).observe (.entered r.label o (some true))) rfl
        (still_continueRoutine r.label _ _ r.body).unguarded
    | dropValue =>
      exact hstill (t := s.begin ⟨o, c⟩) rfl ((still_dropValue o _ _).pop rfl fun _ => rfl)

/-! ### Copies on write -/

theorem quiet_copyOnWrite (handle : String) (o : ObjectId) (literal : Literal) :
    Quiet edits s stack spare (copyOnWrite handle o literal s stack) := by
  unfold copyOnWrite
  split
  · exact .of_idle rfl rfl fun _ => rfl
  · next v _ =>
    have hretain : Shifts edits [] s.view (s.retainEach v.children).2.state.view :=
      State.shifts_retainEach _
    split
    · next retained cause t heq =>
      rw [heq] at hretain
      have hrest : Still t stack spare (continueDropping none t (.cleaning cause :: stack) retained) :=
        (still_continueDropping none t _ retained).pop rfl fun _ => rfl
      exact hrest.quiet.after hretain
    · next halt t heq =>
      rw [heq] at hretain
      exact (Quiet.of_idle rfl rfl fun _ => rfl).after hretain
    · next retained u t heq =>
      rw [heq] at hretain
      have hhold : Shifts edits [] t.view (t.hold v).state.view := State.shifts_hold v
      split
      · next fresh t' hfresh =>
        rw [hfresh] at hhold
        refine Quiet.after ?_ (hretain.trans hhold)
        have hrelease : Still t' (.assigning fresh literal :: stack) spare
            ⟨t'.nameHandle handle fresh, .release o, .assigning fresh literal :: stack⟩ :=
          .of_idle rfl rfl fun _ => rfl
        exact (hrelease.pop rfl fun _ => rfl).quiet
      · next cause t' hfresh =>
        rw [hfresh] at hhold
        exact (Quiet.of_idle rfl rfl fun _ => rfl).after (hretain.trans hhold)
      · next halt t' hfresh =>
        rw [hfresh] at hhold
        exact (Quiet.of_idle rfl rfl fun _ => rfl).after (hretain.trans hhold)

theorem view_assigned (literal : Literal) (fresh : Bool) :
    (assigned o literal fresh s).state.view = s.view := by
  unfold assigned State.given
  split
  · next t ht => exact State.view_assign ht
  · rfl

theorem quiet_makeUnique (handle : String) (o : ObjectId) (literal : Literal) :
    Quiet edits s stack spare (makeUnique handle o literal s stack) := by
  have hunique := State.view_isUnique (s := s) (o := o)
  unfold makeUnique
  split
  · next t ht =>
    rw [ht] at hunique
    exact quiet_settle_of_view ((view_assigned literal false).trans hunique)
  · next t ht =>
    rw [ht] at hunique
    exact (quiet_copyOnWrite handle o literal).after (.of_eq hunique)
  · next cause t ht =>
    rw [ht] at hunique
    exact .of_idle hunique rfl fun _ => rfl
  · next halt t ht =>
    rw [ht] at hunique
    exact .of_idle hunique rfl fun _ => rfl

/-! ### Steps -/

theorem routine?_map (routine : Option (Routine Step)) :
    Cell.routine? {finalizer := routine.map .routine} = routine := by
  cases routine <;> rfl

theorem total_toList (label : String) (routine : Option (Routine Step)) :
    total (Routine.supply label) routine.toList = routineSupply label routine := by
  cases routine <;> rfl

theorem view_created (name : String) (o : ObjectId) (s : State) :
    (created name o s).state.view = s.view := rfl

theorem shifts_act (action : Action)
    (hedits : ∀ name, action = .object (.clearSlot name) →
      ∀ o, s.names.objects.find? name = some o → edits o) :
    Shifts edits [] s.view (act s action).state.view := by
  cases action with
  | object action =>
    exact State.shifts_performObject action fun name hname => hedits name (hname ▸ rfl)
  | log action => exact .of_eq (State.view_performLog action)
  | setting action => exact .of_eq (State.view_performSetting action)
  | handle action => exact State.shifts_performHandle action
  | panic message => exact .refl _

/-- An allocation puts its routine to use, unless a foreign call has no way to pass it. -/
theorem shifts_allocating (name : String) (size : UInt64) (routine : Option (Routine Step))
    (provider : Option String) (via : Convention) :
    Shifts edits routine.toList s.view
      ((s.given (s.provider? provider) fun provider =>
        (s.allocate provider size (.bytes []) ((passedRoutine via routine).map .routine)).andThen
          (created name)).through via).state.view := by
  rw [Outcome.state_through]
  refine .given fun p _ => ?_
  have hpassed : Shifts edits (passedRoutine via routine).toList s.view
      (s.allocate p size (.bytes []) ((passedRoutine via routine).map .routine)).state.view := by
    have hshifts : Shifts edits _ s.view _ :=
      State.shifts_allocate p size (.bytes []) ((passedRoutine via routine).map .routine)
    rwa [routine?_map] at hshifts
  have hallocate : Shifts edits routine.toList s.view
      (s.allocate p size (.bytes []) ((passedRoutine via routine).map .routine)).state.view := by
    obtain hall | hlost := passedRoutine_eq_or via routine
    · rwa [hall] at hpassed ⊢
    · rw [hlost] at hpassed ⊢
      exact hpassed.pad routine.toList
  have hcreated : Shifts edits (_ ++ []) s.view _ :=
    hallocate.andThen fun o t _ => .of_eq (view_created name o t)
  rwa [List.append_nil] at hcreated

/-- **A step that may bring a routine along settles at once**, and puts the routine to use. -/
theorem exists_settle {step : Step} {routine : Option (Routine Step)}
    (hroutine : step.routine? = some routine)
    (hedits : ∀ name, step.slot? = some name →
      ∀ o, s.names.objects.find? name = some o → edits o) :
    ∃ out : Outcome Answer, perform s stack step = settle out stack ∧
      Shifts edits routine.toList s.view out.state.view := by
  cases step with
  | allocate name size routine provider via =>
    cases hroutine
    exact ⟨_, rfl, shifts_allocating name size routine provider via⟩
  | assemble name size routine =>
    cases hroutine
    have hshifts : Shifts edits _ s.view _ := State.shifts_assemble size (routine.map .routine)
    rw [routine?_map] at hshifts
    exact ⟨created name (s.assemble size (routine.map .routine)).1 _, rfl, hshifts⟩
  | reinstall name routine =>
    cases hroutine
    refine ⟨_, rfl, .given fun o ho => ?_⟩
    have hrelink : Shifts edits _ s.view (s.view.relink o (routine.map .routine)) :=
      .single (.relink _ o _ (hedits name rfl o ho))
    rwa [routine?_map, ← State.view_reinstall] at hrelink
  | newCell name routine =>
    cases hroutine
    have hstand : Shifts edits _ s.view (s.view.stand name (routine.map .routine)) :=
      .single (.stand _ name _)
    rw [routine?_map, ← State.view_nameCell] at hstand
    exact ⟨.returned .done _, rfl, hstand⟩
  | describe routine =>
    cases hroutine
    have hdiscard : Shifts edits routine.toList s.view (s.discard (routine.map .routine)).view := by
      rw [State.view_discard]
      cases routine with
      | none => exact .refl _
      | some r => exact .single (.discard _ r)
    exact ⟨.returned (.text (finalizerText routine)) _, rfl, hdiscard⟩
  | _ => cases hroutine

/-- A step puts the routines that it brings along to use, or leaves them to the steps that it
comes to. -/
theorem quiet_perform (step : Step)
    (hedits : ∀ name, step.slot? = some name →
      ∀ o, s.names.objects.find? name = some o → edits o) :
    Quiet edits s stack (fun label => step.supply label) (perform s stack step) := by
  cases step with
  | allocate _ _ _ _ _ | assemble _ _ _ | reinstall _ _ | newCell _ _ | describe _ =>
    obtain ⟨out, hout, hshifts⟩ : ∃ out, perform s stack _ = settle out stack ∧ _ :=
      exists_settle rfl hedits
    rw [hout]
    refine (quiet_settle _ hshifts).mono fun label => Nat.le_of_eq ?_
    rw [total_toList, Step.supply_of_routine? rfl]
  | call c name times via => exact quiet_repeatCall c name via times
  | race name threads retains releases rounds =>
    unfold perform
    simp only
    split
    · exact quiet_runThreads _ _ _
    · exact .of_idle rfl rfl fun _ => rfl
  | dropHandle handle =>
    unfold perform
    simp only
    split
    · exact .of_idle rfl rfl fun _ => rfl
    · exact .of_idle rfl rfl fun _ => rfl
  | makeUnique handle literal =>
    unfold perform
    simp only
    split
    · exact quiet_makeUnique handle _ literal
    · exact .of_idle rfl rfl fun _ => rfl
  | attempt step =>
    refine Still.quiet ⟨rfl, rfl, fun label => ?_⟩
    show step.supply label + (0 + stackSupply label stack) ≤ step.supply label + _
    omega
  | act action =>
    refine (quiet_settle [] (shifts_act action fun name hname => hedits name ?_)).mono fun _ => ?_
    · rw [hname]
      rfl
    · exact Nat.zero_le _

/-- A release that does not take the last reference. -/
theorem quiet_release (hlast : ∀ c cell, s.heap.Opens o c cell → cell.count ≠ 1) :
    Quiet edits s stack spare (release o s stack) := by
  obtain ⟨hshifts, hnone⟩ : Shifts edits [] s.view _ ∧ _ := State.shifts_release hlast
  unfold release
  split
  · next t ht =>
    rw [ht] at hshifts
    exact (Quiet.of_idle rfl rfl fun _ => rfl).after hshifts
  · next begun finalizer t ht => exact absurd ht (hnone (begun, finalizer) t)
  · next cause t ht =>
    rw [ht] at hshifts
    exact (Quiet.of_idle rfl rfl fun _ => rfl).after hshifts
  · next halt t ht =>
    rw [ht] at hshifts
    exact (Quiet.of_idle rfl rfl fun _ => rfl).after hshifts

/-- The release of the last reference. -/
theorem release_of_last (h : s.heap.Opens o c cell) (hlast : cell.count = 1) :
    release o s stack = finalize ⟨o, c⟩ cell.finalizer (s.begin ⟨o, c⟩) stack := by
  have hzero : cell.count ≠ 0 := by
    rw [hlast]
    decide
  unfold release
  rw [State.release_of_opens h, if_neg hzero, if_pos hlast]

/-! ### Frames -/

theorem quiet_resume (answer : Answer) (frame : Frame) (hframe : frame.teardown? = none) :
    Quiet edits s stack (fun label => frame.supply label) (resume answer s stack frame) := by
  cases frame with
  | repeating c name times via => exact quiet_repeatCall c name via times
  | routine label rest =>
    exact (still_continueRoutine label (s.observe (.stepped answer)) stack rest).quiet.after
      (.of_eq (State.view_observe rfl))
  | teardown t => cases hframe
  | barrier => exact .of_idle rfl rfl fun _ => rfl
  | attempt => exact .of_idle rfl rfl fun _ => rfl
  | thread rest o waiting ended => exact quiet_runThreads o _ ended
  | dropping rest cause => exact (still_continueDropping cause s stack rest).quiet
  | cleaning cause => exact .of_idle rfl rfl fun _ => rfl
  | assigning fresh literal => exact quiet_settle_of_view (view_assigned literal true)

theorem quiet_unwind (cause : Cause) (frame : Frame) (hframe : frame.teardown? = none) :
    Quiet edits s stack (fun label => frame.supply label) (unwind cause s stack frame) := by
  cases frame with
  | teardown t => cases hframe
  | thread rest o waiting ended => exact quiet_runThreads o _ _
  | dropping rest earlier =>
    cases earlier with
    | none => exact (still_continueDropping (some cause) s stack rest).quiet
    | some earlier => exact .of_idle rfl rfl fun _ => rfl
  | _ => exact .of_idle rfl rfl fun _ => rfl

/-! ### Transitions -/

/-- The next transition is the release of an object's last reference. -/
structure LastRelease (m : Machine) (o : ObjectId) (c : CellId) (cell : Cell) : Prop where
  control : m.control = .release o
  opens : m.state.heap.Opens o c cell
  last : cell.count = 1

/-- The three kinds of transition. -/
inductive Moves (m m' : Machine) : Prop where
  | shifts (rs : List (Routine Step)) (shifts : Shifts m.Edits rs m.state.view m'.state.view)
      (under : teardowns m'.stack = teardowns m.stack)
      (supply : ∀ label, total (Routine.supply label) rs + m'.pending label ≤ m.pending label)
      (other : ∀ o c cell, ¬ m.LastRelease o c cell)
  | begins (o : ObjectId) (c : CellId) (cell : Cell) (last : m.LastRelease o c cell)
      (after : m' = finalize ⟨o, c⟩ cell.finalizer (m.state.begin ⟨o, c⟩) m.stack)
  | finishes (t : Teardown) (stack : List Frame) (top : m.stack = .teardown t :: stack)
      (state : m'.state = m.state.finish t) (under : m'.stack = stack)
      (supply : ∀ label, m'.pending label ≤ m.pending label)
      (other : ∀ o c cell, ¬ m.LastRelease o c cell)

theorem Quiet.moves {m' : Machine} (h : Quiet m.Edits m.state stack spare m')
    (hstack : teardowns stack = teardowns m.stack)
    (hsupply : ∀ label, spare label + stackSupply label stack ≤ m.pending label)
    (hother : ∀ o c cell, ¬ m.LastRelease o c cell) : Moves m m' := by
  obtain ⟨rs, hshifts, hunder, hle⟩ := h
  exact .shifts rs hshifts (hunder.trans hstack)
    (fun label => Nat.le_trans (hle label) (hsupply label)) hother

theorem not_lastRelease (h : ∀ o, m.control ≠ .release o) (o : ObjectId) (c : CellId)
    (cell : Cell) : ¬ m.LastRelease o c cell :=
  fun hlast => h o hlast.control

theorem moves_of_next? {m' : Machine} (h : m.next? = some m') : Moves m m' := by
  obtain ⟨s, control, stack⟩ := m
  cases control with
  | perform step =>
    cases h
    refine (quiet_perform step fun name hname o ho => ?_).moves rfl (fun label => Nat.le_refl _)
      (not_lastRelease nofun)
    simp only [Edits, edited?, hname, Option.bind_some, ho]
  | release o =>
    cases h
    by_cases hlast : ∃ c cell, s.heap.Opens o c cell ∧ cell.count = 1
    · obtain ⟨c, cell, hopens, hcount⟩ := hlast
      exact .begins o c cell ⟨rfl, hopens, hcount⟩ (release_of_last hopens hcount)
    · have hquiet : Quiet (Edits ⟨s, .release o, stack⟩) s stack (fun _ => 0) (release o s stack) :=
        quiet_release fun c cell hopens hcount => hlast ⟨c, cell, hopens, hcount⟩
      refine hquiet.moves rfl (fun label => Nat.le_refl _) fun p c cell h => ?_
      cases h.control
      exact hlast ⟨c, cell, h.opens, h.last⟩
  | halt halt => cases h
  | answer answer =>
    cases stack with
    | nil => cases h
    | cons frame stack =>
      cases h
      cases hframe : frame.teardown? with
      | none =>
        refine (quiet_resume answer frame hframe).moves (teardowns_cons hframe stack).symm
          (fun label => ?_) (not_lastRelease nofun)
        simp [pending, Control.supply]
      | some t =>
        cases frame <;> cases hframe
        refine .finishes t stack rfl rfl rfl (fun label => ?_) (not_lastRelease nofun)
        simp [pending, resume, Control.supply, Frame.supply]
  | unwind cause =>
    cases stack with
    | nil => cases h
    | cons frame stack =>
      cases h
      cases hframe : frame.teardown? with
      | none =>
        refine (quiet_unwind cause frame hframe).moves (teardowns_cons hframe stack).symm
          (fun label => ?_) (not_lastRelease nofun)
        simp [pending, Control.supply]
      | some t =>
        cases frame <;> cases hframe
        refine .finishes t stack rfl rfl rfl (fun label => ?_) (not_lastRelease nofun)
        simp [pending, unwind, Control.supply, Frame.supply]

end Machine

end Custody
