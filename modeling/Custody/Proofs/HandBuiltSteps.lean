import Custody.Proofs.HandBuiltActions

/-! Objects put together by hand: the steps.

A machine whose script allocates its objects and one that puts some of them together by hand make
the same transitions (`Machine.rebuilt_next?`), as long as every region that the first one asks for
is granted, and as long as neither looks at what the objects made by hand leave out. -/
namespace Custody

variable {made : List HandBuilt} {gone : List Log.Line}

/-! ### Machines -/

/-- The same frame, but for what the steps that wait in it will do. -/
inductive Frame.Rebuilt : Frame → Frame → Prop where
  | same (frame : Frame) : Rebuilt frame frame
  | routine (label : String) {rest rest' : List Step} (h : List.Forall₂ Step.Rebuilt rest rest') :
    Rebuilt (.routine label rest) (.routine label rest')

inductive Control.Rebuilt : Control → Control → Prop where
  | same (control : Control) : Rebuilt control control
  | perform {step step' : Step} (h : step.Rebuilt step') : Rebuilt (.perform step) (.perform step')

/-- The same machine, but for the objects that one of the two puts together by hand. -/
structure Machine.Rebuilt (made : List HandBuilt) (gone : List Log.Line) (m m' : Machine) :
    Prop where
  state : m.state.Rebuilt made gone m'.state
  control : m.control.Rebuilt m'.control
  stack : List.Forall₂ Frame.Rebuilt m.stack m'.stack

/-- What a step allocates where the other one puts it together by hand. -/
def Step.handBuilt? (s : State) (step step' : Step) : Option HandBuilt :=
  match step, step' with
  | .allocate _ size _ _ _, .assemble _ _ _ => some (s.handBuilt size)
  | _, _ => none

namespace Machine

/-- The object that the second machine is about to put together by hand. -/
def handBuilt? (m m' : Machine) : Option HandBuilt :=
  match m.control, m'.control with
  | .perform step, .perform step' => step.handBuilt? m.state step'
  | _, _ => none

/-- The request that the next transition comes to. -/
def request? (m : Machine) : Option Request :=
  match m.control with
  | .perform step => m.state.request? step
  | _ => none

variable {s t : State} {stack stack' : List Frame}

theorem rebuilt_guarded (hst : List.Forall₂ Frame.Rebuilt stack stack') (via : Convention) :
    List.Forall₂ Frame.Rebuilt (guarded via stack) (guarded via stack') := by
  cases via with
  | native => exact hst
  | foreign => exact .cons (.same .barrier) hst

/-- Operations that end the same way leave machines that go on the same way. -/
theorem rebuilt_settle {out out' : Outcome Answer} (h : out.Rebuilt made gone Eq out')
    (hst : List.Forall₂ Frame.Rebuilt stack stack') :
    (settle out stack).Rebuilt made gone (settle out' stack') := by
  cases h with
  | returned result h =>
    cases result
    exact ⟨h, .same _, hst⟩
  | unwound cause h => exact ⟨h, .same _, hst⟩
  | halted halt h => exact ⟨h, .same _, hst⟩

section Transitions

variable (h : s.Rebuilt made gone t) (hst : List.Forall₂ Frame.Rebuilt stack stack')
include h hst

/-! ### Calls -/

theorem rebuilt_call (c : CountCall) (o : ObjectId) :
    (call c o s stack).Rebuilt made gone (call c o t stack') := by
  cases c with
  | retain => exact rebuilt_settle ((State.rebuilt_retain h o).mapSame _) hst
  | release => exact ⟨h, .same _, hst⟩

theorem rebuilt_callNamed (c : CountCall) (name : Option String) :
    (callNamed c name s stack).Rebuilt made gone (callNamed c name t stack') := by
  cases name with
  | none => exact rebuilt_settle (.report h _) hst
  | some name =>
    unfold callNamed
    rw [h.names]
    dsimp only
    split
    · exact rebuilt_call h hst c _
    · exact ⟨h, .same _, hst⟩

theorem rebuilt_repeatCall (c : CountCall) (name : Option String) (via : Convention) (times : Nat) :
    (repeatCall c name via s stack times).Rebuilt made gone
      (repeatCall c name via t stack' times) := by
  cases times with
  | zero => exact ⟨h, .same _, hst⟩
  | succ times => exact rebuilt_callNamed h (rebuilt_guarded (.cons (.same _) hst) via) c name

theorem rebuilt_runThreads (o : ObjectId) (waiting : List (List CountCall)) (ended : List Bool) :
    (runThreads o s stack waiting ended).Rebuilt made gone
      (runThreads o t stack' waiting ended) := by
  induction waiting generalizing ended with
  | nil => exact ⟨h, .same _, hst⟩
  | cons calls waiting ih =>
    cases calls with
    | nil => exact ih _
    | cons c rest => exact rebuilt_call h (.cons (.same _) hst) c o

/-! ### Finalizers -/

/-- A routine goes on with its next step, and the other one with the step in its place. -/
theorem rebuilt_continueRoutine (label : String) {steps steps' : List Step}
    (hsteps : List.Forall₂ Step.Rebuilt steps steps') :
    (continueRoutine label s stack steps).Rebuilt made gone
      (continueRoutine label t stack' steps') := by
  cases hsteps with
  | nil => exact ⟨h.observe _, .same _, hst⟩
  | cons hstep hrest => exact ⟨h, .perform hstep, .cons (.routine label hrest) hst⟩

theorem rebuilt_continueDropping (cause : Option Cause) (os : List ObjectId) :
    (continueDropping cause s stack os).Rebuilt made gone (continueDropping cause t stack' os) := by
  cases os with
  | nil => cases cause <;> exact ⟨h, .same _, hst⟩
  | cons o rest => exact ⟨h, .same _, .cons (.same _) hst⟩

theorem rebuilt_dropValue (o : ObjectId) :
    (dropValue o s stack).Rebuilt made gone (dropValue o t stack') := by
  have hemptied := h.onHeap (h.heap.updateObject o fun object => {object with contents := .remains})
  unfold dropValue
  rw [h.heap.value?]
  split
  · exact rebuilt_continueDropping (hemptied.observe _) hst none _
  · exact ⟨hemptied, .same _, hst⟩

/-- A teardown enters the routine that was passed when its object was made, allocated or not. -/
theorem rebuilt_finalize (teardown : Teardown) {f f' : Option Finalizer}
    (hf : Option.Rel Finalizer.Rebuilt f f') :
    (finalize teardown f s stack).Rebuilt made gone (finalize teardown f' t stack') := by
  have hbelow : List.Forall₂ Frame.Rebuilt (.teardown teardown :: stack)
      (.teardown teardown :: stack') := .cons (.same _) hst
  cases hf with
  | none => exact ⟨h, .same _, hbelow⟩
  | some hf =>
    cases hf with
    | dropValue => exact rebuilt_dropValue h (.cons (.same _) hbelow) teardown.object
    | routine hr =>
      obtain ⟨convention, label, hbody⟩ := hr
      unfold finalize
      dsimp only
      rw [h.heap.locks]
      exact rebuilt_continueRoutine (h.observe _) (rebuilt_guarded hbelow convention) label hbody

theorem rebuilt_release (o : ObjectId) :
    (release o s stack).Rebuilt made gone (release o t stack') := by
  have hrelease := State.rebuilt_release h o
  unfold release
  generalize s.release o = out at hrelease
  generalize t.release o = out' at hrelease
  cases hrelease with
  | returned begun h =>
    cases begun with
    | none => exact ⟨h, .same _, hst⟩
    | some begun =>
      obtain ⟨teardown, hf⟩ := begun
      exact rebuilt_finalize h hst teardown hf
  | unwound cause h => exact ⟨h, .same _, hst⟩
  | halted halt h => exact ⟨h, .same _, hst⟩

/-! ### Copy on write -/

/-- A copy on write asks for a region once the children are retained. -/
theorem rebuilt_copyOnWrite (handle : String) (o : ObjectId) (literal : Literal)
    (hgranted : ∀ v retained u s', s.heap.value? o = some v →
      s.retainEach v.children = (retained, .returned u s') →
      Request.granted ⟨s', s'.allocators.installed, v.kind.size⟩ = true) :
    (copyOnWrite handle o literal s stack).Rebuilt made gone
      (copyOnWrite handle o literal t stack') := by
  unfold copyOnWrite
  rw [h.heap.value?]
  split
  · exact ⟨h, .same _, hst⟩
  · next v hv =>
    obtain ⟨hretained, hretain⟩ := State.rebuilt_retainEach h v.children
    have hrequest := hgranted v
    generalize s.retainEach v.children = before at hretained hretain hrequest
    generalize t.retainEach v.children = before' at hretained hretain
    obtain ⟨retained, out⟩ := before
    obtain ⟨_, out'⟩ := before'
    cases hretained
    cases hretain with
    | unwound cause h => exact rebuilt_continueDropping h (.cons (.same _) hst) none retained
    | halted halt h => exact ⟨h, .same _, hst⟩
    | returned result h =>
      have hhold := State.rebuilt_hold h v (hrequest _ _ _ hv rfl)
      dsimp only
      generalize State.hold v _ = out at hhold
      generalize State.hold v _ = out' at hhold
      cases hhold with
      | @returned fresh _ result s t h =>
        cases result
        exact ⟨h.nameHandle handle fresh, .same _, .cons (.same _) hst⟩
      | unwound cause h => exact ⟨h, .same _, hst⟩
      | halted halt h => exact ⟨h, .same _, hst⟩

theorem rebuilt_makeUnique {handle : String} {o : ObjectId} {literal : Literal}
    (ho : s.names.handles.find? handle = some o)
    (hgranted : ∀ r, s.request? (.makeUnique handle literal) = some r → r.granted = true) :
    (makeUnique handle o literal s stack).Rebuilt made gone
      (makeUnique handle o literal t stack') := by
  have hunique := State.rebuilt_isUnique h o
  unfold makeUnique
  generalize hs : s.isUnique o = out at hunique
  generalize t.isUnique o = out' at hunique
  cases hunique with
  | @returned unique _ result s t h =>
    cases result
    cases unique with
    | true => exact rebuilt_settle (State.rebuilt_assigned h o literal _) hst
    | false =>
      refine rebuilt_copyOnWrite h hst handle o literal fun v retained u s' hv hretain => ?_
      exact hgranted _ (by simp [State.request?, ho, hs, hv, hretain])
  | unwound cause h => exact ⟨h, .same _, hst⟩
  | halted halt h => exact ⟨h, .same _, hst⟩

/-! ### Steps that carry a routine -/

omit hst in
theorem rebuilt_created (name : String) (o : ObjectId) :
    (created name o s).Rebuilt made gone Eq (created name o t) :=
  .returned rfl (h.nameObject name o)

variable {r r' : Option (Routine Step)} (hr : Option.Rel Routine.Rebuilt r r')
include hr

omit h hst in
theorem rel_routine : Option.Rel Finalizer.Rebuilt (r.map Finalizer.routine)
    (r'.map Finalizer.routine) :=
  rel_map (fun _ _ => .routine) hr

omit h hst in
/-- A foreign allocation hands over both routines or neither. -/
theorem rel_passedRoutine (via : Convention) :
    Option.Rel Routine.Rebuilt (passedRoutine via r) (passedRoutine via r') := by
  cases via with
  | native => exact hr
  | foreign =>
    cases hr with
    | none => exact .none
    | some hr =>
      obtain ⟨convention, label, hbody⟩ := hr
      cases convention with
      | native => exact .none
      | foreign => exact .some (.mk .foreign label hbody)

/-- An object that both scripts allocate. -/
theorem rebuilt_allocating {name : String} {size : UInt64} {provider : Option String}
    {via : Convention}
    (hgranted : ∀ q, s.request? (.allocate name size r provider via) = some q → q.granted = true) :
    (perform s stack (.allocate name size r provider via)).Rebuilt made gone
      (perform t stack' (.allocate name size r' provider via)) := by
  have hprovider : t.provider? provider = s.provider? provider := by
    unfold State.provider?
    rw [h.allocators.installed, h.names]
  refine rebuilt_settle (.through ?_ via) hst
  rw [hprovider]
  refine .given h fun asked hasked => ?_
  have hrequest : Request.granted ⟨s, asked, size⟩ = true :=
    hgranted _ (by simp [State.request?, hasked])
  exact (State.rebuilt_allocate h (rel_routine (rel_passedRoutine hr via)) _ hrequest).thenSame
    fun o _ _ h => rebuilt_created h name o

/-- **What is put together by hand** is what would have been allocated. -/
theorem rebuilt_assembling {name : String} {size : UInt64}
    (fits : (Layout.ofPayload? size).isSome = true) (hsystem : s.allocators.installed = none)
    (hgranted : ∀ q, s.request? (.allocate name size r none .native) = some q →
      q.granted = true) :
    (perform s stack (.allocate name size r none .native)).Rebuilt (s.handBuilt size :: made)
      ((s.handBuilt size).line.toList ++ gone) (perform t stack' (.assemble name size r')) := by
  obtain ⟨layout, hlayout⟩ := Option.isSome_iff_exists.1 fits
  have hprovider : s.provider? none = some none := congrArg some hsystem
  have hrequest : Request.granted ⟨s, none, size⟩ = true :=
    hgranted _ (by simp [State.request?, hprovider])
  have hallocates : perform s stack (.allocate name size r none .native) =
      settle ((s.allocate none size (.bytes []) (r.map .routine)).andThen (created name))
        stack := by
    simp only [perform, hprovider, Outcome.through_native]
    rfl
  have hcreated : ((s.allocate none size (.bytes []) (r.map .routine)).andThen
      (created name)).Rebuilt (s.handBuilt size :: made) ((s.handBuilt size).line.toList ++ gone) Eq
      (created name (t.assemble size (r'.map .routine)).1 (t.assemble size (r'.map .routine)).2) :=
    (State.rebuilt_assemble h (rel_routine hr) hlayout hrequest).thenSame
      fun o _ _ h => rebuilt_created h name o
  rw [hallocates]
  exact rebuilt_settle hcreated hst

theorem rebuilt_assembled (name : String) (size : UInt64) :
    (perform s stack (.assemble name size r)).Rebuilt made gone
      (perform t stack' (.assemble name size r')) := by
  obtain ⟨ho, hassembled⟩ := State.rebuilt_assembled h (rel_routine hr) size
  unfold perform
  dsimp only
  rw [ho]
  exact rebuilt_settle (rebuilt_created hassembled name _) hst

theorem rebuilt_reinstalling (name : String) :
    (perform s stack (.reinstall name r)).Rebuilt made gone
      (perform t stack' (.reinstall name r')) :=
  rebuilt_settle (State.rebuilt_withObject h name fun o =>
    .returned rfl (State.rebuilt_reinstall h (rel_routine hr) o)) hst

theorem rebuilt_newCell (name : String) :
    (perform s stack (.newCell name r)).Rebuilt made gone
      (perform t stack' (.newCell name r')) := by
  obtain ⟨hc, hadded⟩ := h.heap.addCell (rel_routine hr)
  unfold perform
  dsimp only
  rw [hc]
  exact ⟨(h.withHeap hadded).nameCell name _, .same _, hst⟩

theorem rebuilt_describe :
    (perform s stack (.describe r)).Rebuilt made gone (perform t stack' (.describe r')) := by
  have htext : finalizerText r' = finalizerText r := by
    cases hr with
    | none => rfl
    | some hr =>
      obtain ⟨convention, label, -⟩ := hr
      rfl
  have hanswer : Control.Rebuilt (.answer (.text (finalizerText r)))
      (.answer (.text (finalizerText r'))) := by
    rw [htext]
    exact .same _
  exact ⟨h.discard (rel_routine hr), hanswer, hst⟩

end Transitions

/-! ### Transitions -/

section Performing

variable (h : s.Rebuilt made gone t) (hst : List.Forall₂ Frame.Rebuilt stack stack')
include h hst

theorem rebuilt_act {action : Action} (hoverlooks : (Step.act action).overlooks = true)
    (hgranted : ∀ r, s.request? (.act action) = some r → r.granted = true) :
    (perform s stack (.act action)).Rebuilt made gone (perform t stack' (.act action)) := by
  refine rebuilt_settle ?_ hst
  cases action with
  | object action => exact State.rebuilt_performObject h hoverlooks
  | log action =>
    obtain ⟨hanswer, hlogged⟩ := State.rebuilt_performLog h hoverlooks
    exact .returned hanswer.symm hlogged
  | setting action => exact State.rebuilt_performSetting h hoverlooks
  | handle action => exact State.rebuilt_performHandle h hgranted
  | panic message => exact .unwound _ h

/-- The same step on both sides. -/
theorem rebuilt_performSame {step : Step} (hoverlooks : step.overlooks = true)
    (hgranted : ∀ r, s.request? step = some r → r.granted = true) :
    (perform s stack step).Rebuilt made gone (perform t stack' step) := by
  cases step with
  | allocate name size routine provider via =>
    exact rebuilt_allocating h hst (rel_refl .refl routine) hgranted
  | assemble name size routine => exact rebuilt_assembled h hst (rel_refl .refl routine) name size
  | reinstall name routine => exact rebuilt_reinstalling h hst (rel_refl .refl routine) name
  | newCell name routine => exact rebuilt_newCell h hst (rel_refl .refl routine) name
  | describe routine => exact rebuilt_describe h hst (rel_refl .refl routine)
  | call c name times via => exact rebuilt_repeatCall h hst c name via times
  | race name threads retains releases rounds =>
    unfold perform
    rw [h.names]
    dsimp only
    split
    · exact rebuilt_runThreads h hst _ _ _
    · exact ⟨h, .same _, hst⟩
  | dropHandle handle =>
    unfold perform
    rw [h.names]
    dsimp only
    split
    · exact ⟨h.forgetHandle handle, .same _, hst⟩
    · exact ⟨h, .same _, hst⟩
  | makeUnique handle literal =>
    unfold perform
    rw [h.names]
    dsimp only
    split
    · next o ho => exact rebuilt_makeUnique h hst ho hgranted
    · exact ⟨h, .same _, hst⟩
  | attempt step => exact ⟨h, .same _, .cons (.same _) hst⟩
  | act action => exact rebuilt_act h hst hoverlooks hgranted

/-- A step, and what is put together by hand in its place. -/
theorem rebuilt_perform {step step' : Step} (hstep : step.Rebuilt step')
    (hoverlooks : step.overlooks = true)
    (hgranted : ∀ r, s.request? step = some r → r.granted = true)
    (hsystem : (step.handBuilt? s step').isSome = true → s.allocators.installed = none) :
    (perform s stack step).Rebuilt ((step.handBuilt? s step').toList ++ made)
      (((step.handBuilt? s step').bind (·.line)).toList ++ gone) (perform t stack' step') := by
  cases hstep with
  | byHand name fits hr => exact rebuilt_assembling h hst hr fits (hsystem rfl) hgranted
  | same step =>
    have hnone : step.handBuilt? s step = none := by cases step <;> rfl
    rw [hnone]
    exact rebuilt_performSame h hst hoverlooks hgranted
  | allocate name size provider via hr => exact rebuilt_allocating h hst hr hgranted
  | assemble name size hr => exact rebuilt_assembled h hst hr name size
  | reinstall name hr => exact rebuilt_reinstalling h hst hr name
  | newCell name hr => exact rebuilt_newCell h hst hr name
  | describe hr => exact rebuilt_describe h hst hr
  | attempt hstep => exact ⟨h, .perform hstep, .cons (.same _) hst⟩

/-- An answer goes to frames that wait for it alike. -/
theorem rebuilt_resume (answer : Answer) {frame frame' : Frame} (hframe : frame.Rebuilt frame') :
    (resume answer s stack frame).Rebuilt made gone (resume answer t stack' frame') := by
  cases hframe with
  | routine label hrest => exact rebuilt_continueRoutine (h.observe _) hst label hrest
  | same frame =>
    cases frame with
    | repeating c name times via => exact rebuilt_repeatCall h hst c name via times
    | routine label rest =>
      exact rebuilt_continueRoutine (h.observe _) hst label
        (List.forall₂_same.2 fun step _ => .same step)
    | teardown teardown => exact ⟨State.rebuilt_finish h teardown, .same _, hst⟩
    | thread rest o waiting ended => exact rebuilt_runThreads h hst o _ ended
    | dropping rest cause => exact rebuilt_continueDropping h hst cause rest
    | assigning fresh literal => exact rebuilt_settle (State.rebuilt_assigned h fresh literal _) hst
    | barrier | attempt | cleaning _ => exact ⟨h, .same _, hst⟩

theorem rebuilt_unwind (cause : Cause) {frame frame' : Frame} (hframe : frame.Rebuilt frame') :
    (unwind cause s stack frame).Rebuilt made gone (unwind cause t stack' frame') := by
  cases hframe with
  | routine label hrest => exact ⟨h, .same _, hst⟩
  | same frame =>
    cases frame with
    | teardown teardown => exact ⟨State.rebuilt_finish h teardown, .same _, hst⟩
    | thread _ o waiting ended => exact rebuilt_runThreads h hst o waiting _
    | dropping rest earlier =>
      cases earlier with
      | none => exact rebuilt_continueDropping h hst (some cause) rest
      | some _ => exact ⟨h, .same _, hst⟩
    | repeating _ _ _ _ | routine _ _ | assigning _ _ | barrier | attempt | cleaning _ =>
      exact ⟨h, .same _, hst⟩

end Performing

/-- **Both machines make the same transition**, but for an object that only one of them counts. -/
theorem rebuilt_next? {m m' : Machine} (hm : m.Rebuilt made gone m')
    (hoverlooks : ∀ step, m.control = .perform step → step.overlooks = true)
    (hgranted : ∀ r, m.request? = some r → r.granted = true)
    (hsystem : (m.handBuilt? m').isSome = true → m.state.allocators.installed = none) :
    Option.Rel (Machine.Rebuilt ((m.handBuilt? m').toList ++ made)
      (((m.handBuilt? m').bind (·.line)).toList ++ gone)) m.next? m'.next? := by
  obtain ⟨s, control, stack⟩ := m
  obtain ⟨t, control', stack'⟩ := m'
  obtain ⟨hstate, hcontrol, hstack⟩ := hm
  cases hcontrol with
  | perform hstep =>
    exact .some (rebuilt_perform hstate hstack hstep (hoverlooks _ rfl) hgranted hsystem)
  | same control =>
    cases control with
    | perform step =>
      exact .some (rebuilt_perform hstate hstack (.same step) (hoverlooks _ rfl) hgranted hsystem)
    | release o => exact .some (rebuilt_release hstate hstack o)
    | halt halt => exact .none
    | answer answer =>
      cases hstack with
      | nil => exact .none
      | cons hframe hbelow => exact .some (rebuilt_resume hstate hbelow answer hframe)
    | unwind cause =>
      cases hstack with
      | nil => exact .none
      | cons hframe hbelow => exact .some (rebuilt_unwind hstate hbelow cause hframe)

end Machine
end Custody
