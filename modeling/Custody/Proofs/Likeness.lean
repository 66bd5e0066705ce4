import Custody.Proofs.Provenance

/-! Two runs of the same steps, side by side.

A likeness says how two states may differ: in the logger, in the handling of faults, and in the
causes that answers and events tell of. All else is the same. Every operation takes like states to
like outcomes, except where the second run is stopped by a fault that the first one lives through.
What the operations make of a fault, and the steps that look at what may differ, are left to the
likeness at hand (`Likeness.Lawful`). -/
namespace Custody

/-! ### Other causes -/

/-- An answer with other causes in place of its own. -/
def Answer.recast (f : Cause → Cause) : Answer → Answer
  | .succeeded answer => .succeeded (answer.recast f)
  | .failed cause => .failed (f cause)
  | answer => answer

def Event.recast (f : Cause → Cause) : Event → Event
  | .stepped answer => .stepped (answer.recast f)
  | event => event

theorem Answer.recast_id (answer : Answer) : answer.recast id = answer := by
  induction answer with
  | succeeded answer ih => exact congrArg Answer.succeeded ih
  | _ => rfl

theorem Event.recast_id (event : Event) : event.recast id = event := by
  cases event with
  | stepped answer => exact congrArg Event.stepped answer.recast_id
  | _ => rfl

/-- Nothing is recast where causes stay as they are. -/
theorem Event.map_recast_id (events : List Event) : events.map (Event.recast id) = events := by
  rw [show Event.recast id = id from funext Event.recast_id, List.map_id]

/-! ### Likenesses -/

/-- How a second run may differ from a first one. -/
structure Likeness where
  /-- What the second run has in place of a cause. -/
  cause : Cause → Cause
  logger : Log.Logger → Log.Logger → Prop
  faults : FaultHandling → FaultHandling → Prop
  /-- What the second run captures in place of the first one's lines. -/
  texts : List String → List String → Prop
  /-- Where the second run is stopped by a fault and the first one is not, with the cause that the
  first one goes on with. -/
  stops : Cause → State → State → Prop
  /-- The steps that may be taken. -/
  covers : Step → Bool

/-- Steps that look at what may differ, or change it. -/
def Action.special : Action → Bool
  | .log _ => true
  | .setting .policy => true
  | .setting (.setPolicy _) => true
  | .setting (.setReporter _) => true
  | .setting (.configure _) => true
  | .setting (.configureFromEnvironment _) => true
  | .setting .configuration => true
  | _ => false

namespace Likeness

variable (K : Likeness)

/-- The second state is the first one but for what may differ. -/
structure States (s t : State) : Prop where
  heap : t.heap = s.heap
  statistics : t.statistics = s.statistics
  allocators : t.allocators = s.allocators
  environment : t.environment = s.environment
  configuration : t.configuration = s.configuration
  names : t.names = s.names
  events : t.events = s.events.map (Event.recast K.cause)
  logger : K.logger s.logger t.logger
  faults : K.faults s.faults t.faults

/-- The same end of an operation, with a result that may be recast, or a second run that stops. -/
inductive Outcomes (f : α → α) : Outcome α → Outcome α → Prop where
  | returned (result : α) {s t : State} (h : K.States s t) :
    Outcomes f (.returned result s) (.returned (f result) t)
  | unwound (cause : Cause) {s t : State} (h : K.States s t) :
    Outcomes f (.unwound cause s) (.unwound (K.cause cause) t)
  | halted (halt : Halt) {s t : State} (h : K.States s t) :
    Outcomes f (.halted halt s) (.halted halt t)
  | outlived (cause : Cause) {s t : State} (h : K.stops cause s t) :
    Outcomes f (.unwound cause s) (.halted .aborted t)
  | stopped (cause : Cause) {s t : State} (h : K.stops cause s t) :
    Outcomes f (.halted .aborted s) (.halted .aborted t)

/-- What a likeness has to bear. -/
structure Lawful : Prop where
  panic (message : String) : K.cause (.panic message) = .panic message
  reported (fault : Fault) : K.cause (.reported fault) = .reported fault
  emit {l l' : Log.Logger} (entry : Log.Entry) (h : K.logger l l') :
    K.logger (l.emit entry) (l'.emit entry)
  clear {l l' : Log.Logger} (h : K.logger l l') : K.logger l.clearCaptured l'.clearCaptured
  captured {l l' : Log.Logger} (h : K.logger l l') : K.texts l.capturedTexts l'.capturedTexts
  silent : K.texts [] []
  count {f f' : FaultHandling} (h : K.faults f f') : f'.count = f.count
  report {s t : State} (fault : Fault) (h : K.States s t) {α : Type} (f : α → α) :
    K.Outcomes f (s.report fault) (t.report fault)
  discard {cause : Cause} {s t : State} (finalizer : Option Finalizer) (h : K.stops cause s t) :
    K.stops cause (s.discard finalizer) t
  act {s t : State} {action : Action} (special : action.special = true)
    (covered : K.covers (.act action) = true) (h : K.States s t) :
    K.Outcomes (Answer.recast K.cause) (Machine.act s action) (Machine.act t action)

variable {K} {s t : State}

namespace States

variable (h : K.States s t)
include h

theorem onHeap (f : Heap → Heap) : K.States (s.onHeap f) (t.onHeap f) :=
  {h with heap := congrArg f h.heap}

theorem onStatistics (f : Statistics → Statistics) : K.States (s.onStatistics f) (t.onStatistics f) :=
  {h with statistics := congrArg f h.statistics}

theorem onNames (f : Names → Names) : K.States (s.onNames f) (t.onNames f) :=
  {h with names := congrArg f h.names}

theorem withHeap (heap : Heap) : K.States {s with heap} {t with heap} :=
  {h with heap := rfl}

theorem withAllocators (allocators : Allocators) :
    K.States {s with allocators} {t with allocators} :=
  {h with allocators := rfl}

theorem withEnvironment (environment : Environment) :
    K.States {s with environment} {t with environment} :=
  {h with environment := rfl}

/-- What is told without naming a cause is told by both. -/
theorem observe {event : Event} (hevent : event.recast K.cause = event) :
    K.States (s.observe event) (t.observe event) :=
  {h with events := by rw [State.observe, h.events, State.observe, List.map_cons, hevent]}

/-- Both runs log the entry, each as its logger does. -/
theorem log (hK : K.Lawful) (entry : Log.Entry) : K.States (s.log entry) (t.log entry) :=
  {h with logger := hK.emit entry h.logger}

theorem say (hK : K.Lawful) (level : Log.Level) (message : String) :
    K.States (s.say level message) (t.say level message) :=
  h.log hK _

theorem discard (finalizer : Option Finalizer) :
    K.States (s.discard finalizer) (t.discard finalizer) := by
  unfold State.discard
  split
  · exact h.observe rfl
  · exact h

/-- What was observed before a step does not matter once the step begins. -/
theorem fresh : K.States {s with events := []} {t with events := []} :=
  {h with events := rfl}

theorem freeCell (c : CellId) : K.States (s.freeCell c) (t.freeCell c) := by
  unfold State.freeCell
  rw [h.heap]
  exact (h.discard _).onHeap _

/-- Teardowns end alike: cells, slots and statistics do not tell causes. -/
theorem finish (teardown : Teardown) : K.States (s.finish teardown) (t.finish teardown) :=
  (((h.onHeap _).freeCell _).onHeap _).onStatistics _

end States

/-! ### Combining outcomes -/

namespace Outcomes

variable {f : α → α} {g : β → β} {out out' : Outcome α}

/-- A result that is not recast is handed on. -/
theorem andThen {next next' : α → State → Outcome β} (h : K.Outcomes id out out')
    (hnext : ∀ x s t, K.States s t → K.Outcomes g (next x s) (next' x t)) :
    K.Outcomes g (out.andThen next) (out'.andThen next') := by
  cases h with
  | returned result h => exact hnext result _ _ h
  | unwound cause h => exact .unwound cause h
  | halted halt h => exact .halted halt h
  | outlived cause h => exact .outlived cause h
  | stopped cause h => exact .stopped cause h

theorem map {k : α → β} (h : K.Outcomes id out out') (hk : ∀ x, g (k x) = k x) :
    K.Outcomes g (out.map k) (out'.map k) :=
  h.andThen fun x s t h => by
    have hreturned := returned (f := g) (k x) h
    rwa [hk] at hreturned

/-- Where a foreign call stops the first run, the second one has stopped before or is stopped too.
-/
theorem through (h : K.Outcomes f out out') (via : Convention) :
    K.Outcomes f (out.through via) (out'.through via) := by
  cases via with
  | native => rwa [Outcome.through_native, Outcome.through_native]
  | foreign =>
    cases h with
    | returned result h => exact .returned result h
    | unwound cause h => exact .halted .aborted h
    | halted halt h => exact .halted halt h
    | outlived cause h => exact .stopped cause h
    | stopped cause h => exact .stopped cause h

theorem given {found : Option γ} {next next' : γ → Outcome α} (h : K.States s t)
    (hnext : ∀ x, K.Outcomes f (next x) (next' x)) :
    K.Outcomes f (s.given found next) (t.given found next') := by
  cases found with
  | some x => exact hnext x
  | none => exact .halted .malformed h

/-- An answer that tells of no cause. -/
theorem answered {answer : Answer} (hplain : answer.recast K.cause = answer) (h : K.States s t) :
    K.Outcomes (Answer.recast K.cause) (.returned answer s) (.returned answer t) := by
  have hreturned := returned (f := Answer.recast K.cause) answer h
  rwa [hplain] at hreturned

end Outcomes

/-! ### Retaining and releasing -/

section Operations

variable (hK : K.Lawful) (h : K.States s t)
include hK h

theorem resolve (o : ObjectId) : K.Outcomes id (s.resolve o) (t.resolve o) := by
  unfold State.resolve
  rw [h.heap]
  split
  · exact .returned _ h
  · exact hK.report _ h id

omit hK in
theorem lock (c : CellId) : K.Outcomes id (s.lock c) (t.lock c) := by
  unfold State.lock
  rw [h.heap]
  split
  · split
    · exact .halted _ h
    · exact .returned _ (h.onHeap _)
  · exact .halted _ h

/-- References are counted alike, since the cells are the same. -/
theorem retain (o : ObjectId) : K.Outcomes id (s.retain o) (t.retain o) :=
  (resolve hK h o).andThen fun c _ _ h => (lock h c).andThen fun cell _ _ h => by
    split
    · exact hK.report _ (h.onHeap _) id
    · exact .returned () ((((h.onHeap _).onHeap _).onStatistics _).log hK _)

/-- The same releases start the same teardowns. -/
theorem release (o : ObjectId) : K.Outcomes id (s.release o) (t.release o) :=
  (resolve hK h o).andThen fun c _ _ h => (lock h c).andThen fun cell _ _ h => by
    split
    · exact hK.report _ (h.onHeap _) id
    · have hreleased := ((h.onHeap (·.setCount c (cell.count - 1))).onStatistics (·.addRelease)).log hK
        (Transition.released.entry o (cell.count - 1))
      dsimp only
      split
      · exact .returned _ ((hreleased.log hK _).onHeap _)
      · exact .returned _ (hreleased.onHeap _)

theorem isUnique (o : ObjectId) : K.Outcomes id (s.isUnique o) (t.isUnique o) :=
  (resolve hK h o).andThen fun c _ _ h => (lock h c).andThen fun _ _ _ h =>
    .returned _ (h.onHeap _)

theorem count (o : ObjectId) : K.Outcomes id (s.count o) (t.count o) :=
  (resolve hK h o).andThen fun c _ _ h => (lock h c).andThen fun _ _ _ h =>
    .returned _ ((h.onHeap _).log hK _)

/-- The children that were retained are the same, wherever a fault came in. -/
theorem retainEach (os : List ObjectId) :
    (t.retainEach os).1 = (s.retainEach os).1 ∧
      K.Outcomes id (s.retainEach os).2 (t.retainEach os).2 := by
  induction os generalizing s t with
  | nil => exact ⟨rfl, .returned () h⟩
  | cons o os ih =>
    have hretain := retain hK h o
    unfold State.retainEach
    generalize s.retain o = out at hretain
    generalize t.retain o = out' at hretain
    cases hretain with
    | returned result h =>
      obtain ⟨hretained, hout⟩ := ih h
      exact ⟨congrArg (o :: ·) hretained, hout⟩
    | unwound cause h => exact ⟨rfl, .unwound cause h⟩
    | halted halt h => exact ⟨rfl, .halted halt h⟩
    | outlived cause h => exact ⟨rfl, .outlived cause h⟩
    | stopped cause h => exact ⟨rfl, .stopped cause h⟩

/-! ### Creating -/

omit hK in
theorem requestRegion (provider : Option AllocatorId) (layout : Layout) :
    K.Outcomes id (s.requestRegion provider layout) (t.requestRegion provider layout) := by
  unfold State.requestRegion
  rw [h.allocators]
  refine .given h fun q => ?_
  have hcharged := h.withAllocators
    (s.allocators.setQuota (q.request (s.allocators.memory layout.size) layout.size).2 provider)
  dsimp only
  cases Allocators.name? _ provider with
  | none => exact .returned _ hcharged
  | some name => exact .returned _ (hcharged.observe rfl)

/-- Allocators are asked for the same and answer the same. -/
theorem allocate (provider : Option AllocatorId) (size : UInt64) (contents : Contents)
    (finalizer : Option Finalizer) :
    K.Outcomes id (s.allocate provider size contents finalizer)
      (t.allocate provider size contents finalizer) := by
  unfold State.allocate
  split
  · have hreport := hK.report (.layoutOverflow size) h (id (α := ObjectId))
    generalize s.report (.layoutOverflow size) = out at hreport
    generalize t.report (.layoutOverflow size) = out' at hreport
    cases hreport with
    | returned result h => exact .returned result h
    | unwound cause h => exact .unwound cause (h.discard finalizer)
    | halted halt h => exact .halted halt h
    | outlived cause h => exact .outlived cause (hK.discard finalizer h)
    | stopped cause h => exact .stopped cause h
  · refine (requestRegion h provider _).andThen fun granted s t h => ?_
    split
    · rw [h.heap]
      exact .returned _ (((h.withHeap _).onStatistics _).log hK _)
    · exact .halted .aborted h

theorem hold (v : Value) : K.Outcomes id (s.hold v) (t.hold v) := by
  unfold State.hold
  rw [h.allocators]
  exact (allocate hK h _ _ _ _).andThen fun o _ _ h => (retain hK h o).map fun _ => rfl

omit hK in
theorem reinstall (o : ObjectId) (finalizer : Option Finalizer) :
    K.States (s.reinstall o finalizer) (t.reinstall o finalizer) := by
  unfold State.reinstall
  rw [h.heap]
  exact h.withHeap _

/-! ### Steps on objects and cells -/

variable {f : α → α}

omit hK in
theorem withObject (name : String) {next next' : ObjectId → Outcome α}
    (hnext : ∀ o, K.Outcomes f (next o) (next' o)) :
    K.Outcomes f (s.withObject name next) (t.withObject name next') := by
  unfold State.withObject
  rw [h.names]
  exact .given h hnext

theorem withInstance (exportName : String) (name : Option String) {next next' : ObjectId → Outcome α}
    (hnext : ∀ o, K.Outcomes f (next o) (next' o)) :
    K.Outcomes f (s.withInstance exportName name next) (t.withInstance exportName name next') := by
  cases name with
  | none => exact hK.report _ h f
  | some name => exact withObject h name hnext

omit hK in
theorem guard (o : ObjectId) :
    K.Outcomes (Answer.recast K.cause) (s.guard o) (t.guard o) := by
  unfold State.guard
  rw [h.heap]
  refine .given h fun c => (lock h c).andThen fun cell _ _ h => ?_
  have hunlocked := h.onHeap (·.setLocked c false)
  simp only [State.unlock, hunlocked.heap]
  exact .given hunlocked fun after => .answered rfl hunlocked

omit hK in
theorem guardCell (c : CellId) :
    K.Outcomes (Answer.recast K.cause) (s.guardCell c) (t.guardCell c) :=
  (lock h c).andThen fun _ _ _ h => .answered rfl (h.onHeap _)

/-- **Actions on objects are alike**, with the count of faults among what they answer. -/
theorem performObject (action : ObjectAction) :
    K.Outcomes (Answer.recast K.cause) (s.performObject action) (t.performObject action) := by
  cases action with
  | count name via =>
    refine Outcomes.through ?_ via
    exact withInstance hK h _ name fun o => (count hK h o).map fun _ => rfl
  | isUnique name via =>
    refine Outcomes.through ?_ via
    refine withInstance hK h _ name fun o => (isUnique hK h o).map fun b => ?_
    cases via <;> rfl
  | isDeallocated name =>
    refine withObject h name fun o => ?_
    rw [h.heap]
    exact .answered rfl h
  | hasCell name =>
    refine withObject h name fun o => ?_
    rw [h.heap]
    exact .answered rfl h
  | resolve name => exact withObject h name fun o => (resolve hK h o).map fun _ => rfl
  | slotIsNull name =>
    refine withObject h name fun o => ?_
    rw [h.heap]
    exact .answered rfl h
  | clearSlot name => exact withObject h name fun o => .answered rfl (h.onHeap _)
  | offsets name => exact withObject h name fun _ => .answered rfl h
  | guard name => exact withObject h name fun o => guard h o
  | forceCount name count =>
    refine withObject h name fun o => ?_
    rw [h.heap]
    exact .given h fun c => .answered rfl (h.onHeap _)
  | write name start bytes =>
    refine withObject h name fun o => ?_
    rw [h.heap]
    exact .given h fun object => .answered rfl (h.onHeap _)
  | read name start length =>
    refine withObject h name fun o => ?_
    rw [h.heap]
    exact .given h fun object => .answered rfl h
  | guardCell name =>
    unfold State.performObject
    rw [h.names]
    exact .given h fun c => guardCell h c
  | freeCell name =>
    unfold State.performObject
    rw [h.names]
    exact .given h fun c => .answered rfl ((h.freeCell c).onNames _)
  | statistics =>
    unfold State.performObject
    rw [h.statistics]
    exact .answered rfl h
  | faultCount =>
    unfold State.performObject
    rw [hK.count h.faults]
    exact .answered rfl h

/-! ### Steps on settings -/

omit hK in
theorem withAllocator (name : String) {next next' : AllocatorId → Quota → Outcome α}
    (hnext : ∀ i q, K.Outcomes f (next i q) (next' i q)) :
    K.Outcomes f (s.withAllocator name next) (t.withAllocator name next') := by
  unfold State.withAllocator
  rw [h.names, h.allocators]
  exact .given h fun i => .given h fun q => hnext i q

theorem readEnvironment : t.readEnvironment.1 = s.readEnvironment.1 ∧
    K.States s.readEnvironment.2 t.readEnvironment.2 := by
  unfold State.readEnvironment
  rw [h.environment]
  refine ⟨rfl, ?_⟩
  dsimp only
  generalize s.environment.warnings = warnings
  induction warnings generalizing s t with
  | nil => exact h
  | cons warning warnings ih => exact ih (h.say hK _ _)

omit hK in
theorem setQuota (allocator : Option AllocatorId) (q : Quota) :
    K.States (s.setQuota allocator q) (t.setQuota allocator q) := by
  unfold State.setQuota
  rw [h.allocators]
  exact h.withAllocators _

/-- **Settings are made alike** where they neither look at what may differ nor change it. -/
theorem performSetting {action : SettingAction} (hopen : (Action.setting action).special = false) :
    K.Outcomes (Answer.recast K.cause) (s.performSetting action) (t.performSetting action) := by
  cases action with
  | policy | setPolicy _ | setReporter _ | configure _ | configureFromEnvironment _
    | configuration => cases hopen
  | report fault => exact hK.report fault h _
  | raiseForeign message => exact (hK.report _ h _).through .foreign
  | setVariables values =>
    unfold State.performSetting
    rw [h.environment]
    exact .answered rfl (h.withEnvironment _)
  | readEnvironment =>
    obtain ⟨hread, h⟩ := readEnvironment hK h
    unfold State.performSetting
    dsimp only
    rw [hread]
    exact .answered rfl h
  | systemLimit =>
    unfold State.performSetting
    rw [h.allocators]
    exact .answered rfl h
  | setSystemLimit limit =>
    unfold State.performSetting
    rw [h.allocators]
    exact .answered rfl (setQuota h _ _)
  | systemQuota =>
    unfold State.performSetting
    rw [h.allocators]
    exact .answered rfl h
  | newAllocator name limit =>
    unfold State.performSetting
    rw [h.allocators]
    exact .answered rfl ((h.withAllocators _).onNames _)
  | setAllocatorLimit name limit =>
    exact withAllocator h name fun i q => .answered rfl (setQuota h _ _)
  | allocatorQuota name => exact withAllocator h name fun _ q => .answered rfl h
  | installAllocator name =>
    refine withAllocator h name fun i _ => ?_
    rw [h.allocators]
    split
    · exact .answered rfl (h.withAllocators _)
    · exact .answered rfl h
  | globalIsSystem =>
    unfold State.performSetting
    rw [h.allocators]
    exact .answered rfl h

/-! ### Steps on handles -/

omit hK in
theorem withHandle (handle : String) {next next' : ObjectId → Outcome α}
    (hnext : ∀ o, K.Outcomes f (next o) (next' o)) :
    K.Outcomes f (s.withHandle handle next) (t.withHandle handle next') := by
  unfold State.withHandle
  rw [h.names]
  exact .given h hnext

omit hK in
/-- Handles are handed over by both runs or by neither. -/
theorem takeHandles (names : List String) :
    Option.Rel (fun x y => y.1 = x.1 ∧ K.States x.2 y.2) (s.takeHandles names)
      (t.takeHandles names) := by
  induction names generalizing s t with
  | nil => exact .some ⟨rfl, h⟩
  | cons name names ih =>
    unfold State.takeHandles
    rw [h.names]
    cases s.names.handles.find? name with
    | none => exact .none
    | some o =>
      have hrest := ih (h.onNames fun n => {n with handles := n.handles.remove name})
      simp only [Option.bind_some, State.forgetHandle]
      generalize State.takeHandles _ names = taken at hrest
      generalize State.takeHandles _ names = taken' at hrest
      cases hrest with
      | none => exact .none
      | some hrest => exact .some ⟨congrArg (o :: ·) hrest.1, hrest.2⟩

omit hK in
theorem assign (o : ObjectId) (literal : Literal) :
    Option.Rel K.States (s.assign o literal) (t.assign o literal) := by
  unfold State.assign
  rw [h.heap]
  cases s.heap.value? o with
  | none => exact .none
  | some v =>
    simp only [Option.bind_some]
    cases v.updated? literal with
    | none => exact .none
    | some v => exact .some (h.onHeap _)

omit hK in
theorem givenState {found found' : Option State} {next next' : State → Outcome α}
    (hfound : Option.Rel K.States found found')
    (hnext : ∀ s t, K.States s t → K.Outcomes f (next s) (next' t)) :
    K.Outcomes f (s.given found next) (t.given found' next') := by
  cases hfound with
  | none => exact .halted .malformed h
  | some hfound => exact hnext _ _ hfound

theorem createHandle (handle : String) (kind : Kind) (literal : Literal) :
    K.Outcomes (Answer.recast K.cause) (s.createHandle handle kind literal)
      (t.createHandle handle kind literal) := by
  have htaken := takeHandles h literal.childNames
  unfold State.createHandle
  generalize s.takeHandles literal.childNames = taken at htaken
  generalize t.takeHandles literal.childNames = taken' at htaken
  cases htaken with
  | none => exact .halted .malformed h
  | @some x y htaken =>
    obtain ⟨children, s⟩ := x
    obtain ⟨_, t⟩ := y
    obtain ⟨rfl, h⟩ := htaken
    exact .given h fun v => (hold hK h v).andThen fun o _ _ h => .answered rfl (h.onNames _)

theorem setHandle (o : ObjectId) (literal : Literal) :
    K.Outcomes (Answer.recast K.cause) (s.setHandle o literal) (t.setHandle o literal) :=
  (isUnique hK h o).andThen fun unique _ _ h => by
    split
    · exact givenState h (assign h o literal) fun _ _ h => .answered rfl h
    · exact .answered rfl h

theorem pushChild (o : ObjectId) (child : String) :
    K.Outcomes (Answer.recast K.cause) (s.pushChild o child) (t.pushChild o child) :=
  (isUnique hK h o).andThen fun unique _ _ h => by
    split
    · refine withHandle h child fun c => ?_
      rw [h.heap]
      split
      · exact .answered rfl ((h.onHeap _).onNames _)
      · exact .halted .malformed h
    · exact .answered rfl h

omit hK in
theorem valueAnswer? (v : Value) : t.valueAnswer? v = s.valueAnswer? v := by
  have hlabel : t.labelOf? = s.labelOf? := by
    funext o
    unfold State.labelOf?
    rw [h.heap]
  cases v <;> simp only [State.valueAnswer?, hlabel]

omit h hK in
theorem recast_valueAnswer? {v : Value} {answer : Answer} (hanswer : s.valueAnswer? v = some answer)
    (k : Cause → Cause) : answer.recast k = answer := by
  cases v with
  | node label children =>
    obtain ⟨labels, -, rfl⟩ := Option.map_eq_some_iff.1 hanswer
    rfl
  | _ =>
    cases hanswer
    rfl

/-- **Actions on handles are alike**, and their answers tell no causes. -/
theorem performHandle (action : HandleAction) :
    K.Outcomes (Answer.recast K.cause) (s.performHandle action) (t.performHandle action) := by
  cases action with
  | create handle kind literal => exact createHandle hK h handle kind literal
  | clone handle copy =>
    exact withHandle h handle fun o => (retain hK h o).andThen fun _ _ _ h =>
      .answered rfl (h.onNames _)
  | get handle =>
    refine withHandle h handle fun o => ?_
    rw [h.heap]
    refine .given h fun v => ?_
    rw [valueAnswer? h]
    cases hanswer : s.valueAnswer? v with
    | none => exact .halted .malformed h
    | some answer =>
      exact .answered (recast_valueAnswer? hanswer _) h
  | count handle => exact withHandle h handle fun o => (count hK h o).map fun _ => rfl
  | isUnique handle => exact withHandle h handle fun o => (isUnique hK h o).map fun _ => rfl
  | set handle literal => exact withHandle h handle fun o => setHandle hK h o literal
  | push handle child => exact withHandle h handle fun o => pushChild hK h o child
  | equal handle other =>
    refine withHandle h handle fun a => withHandle h other fun b => ?_
    unfold State.equalAnswer
    rw [h.heap]
    exact .given h fun x => .given h fun y => .answered rfl h
  | sameObject handle other =>
    exact withHandle h handle fun a => withHandle h other fun b => .answered rfl h
  | write handle form =>
    refine withHandle h handle fun o => ?_
    rw [h.heap]
    exact .given h fun image => .given h fun text => .answered rfl h
  | intoObject handle name =>
    exact withHandle h handle fun o => .answered rfl ((h.onNames _).onNames _)
  | asObject handle name => exact withHandle h handle fun o => .answered rfl (h.onNames _)
  | fromObject name handle =>
    unfold State.performHandle
    rw [h.names]
    exact .given h fun o => .answered rfl (h.onNames _)

/-- An action that looks at nothing private ends alike, and so does one that is covered. -/
theorem act {action : Action} (hcovered : K.covers (.act action) = true) :
    K.Outcomes (Answer.recast K.cause) (Machine.act s action) (Machine.act t action) := by
  cases hspecial : action.special with
  | true => exact hK.act hspecial hcovered h
  | false =>
    cases action with
    | object action => exact performObject hK h action
    | log action => cases hspecial
    | setting action => exact performSetting hK h hspecial
    | handle action => exact performHandle hK h action
    | panic message =>
      have hunwound := Outcomes.unwound (f := Answer.recast K.cause) (.panic message) h
      rwa [hK.panic] at hunwound

end Operations

end Likeness
end Custody
