import Custody.Proofs.HandBuiltStates

/-! Objects put together by hand: the actions.

An action that does not look at what the objects put together by hand leave out (`Step.overlooks`)
ends the same way in both states. Where it makes an object of its own, the region for it has to be
granted in the first state, where more has been asked for (`Request.granted`). -/
namespace Custody

/-- Steps that read neither the statistics nor the account of the system allocator nor captured
lines. -/
def Step.overlooks : Step → Bool
  | .act (.object .statistics) => false
  | .act (.setting .systemQuota) => false
  | .act (.log .takeCaptured) => false
  | _ => true

variable {made : List HandBuilt} {gone : List Log.Line}

/-! ### Steps on objects and cells -/

namespace State

variable {s t : State} (h : s.Rebuilt made gone t)
include h

/-- A name stands for the same object in both states, or for none. -/
theorem rebuilt_withObject {R : α → β → Prop} (name : String) {next : ObjectId → Outcome α}
    {next' : ObjectId → Outcome β} (hnext : ∀ o, (next o).Rebuilt made gone R (next' o)) :
    (s.withObject name next).Rebuilt made gone R (t.withObject name next') := by
  unfold withObject
  rw [h.names]
  exact .given h fun o _ => hnext o

/-- Null instances are reported by both. -/
theorem rebuilt_withInstance {R : α → β → Prop} (exportName : String) (name : Option String)
    {next : ObjectId → Outcome α} {next' : ObjectId → Outcome β}
    (hnext : ∀ o, (next o).Rebuilt made gone R (next' o)) :
    (s.withInstance exportName name next).Rebuilt made gone R
      (t.withInstance exportName name next') := by
  cases name with
  | none => exact .report h _
  | some name => exact rebuilt_withObject h name hnext

omit h in
/-- A guard shows that there is a finalizer and not which. -/
theorem guardView_eq {cell cell' : Cell} (hcell : cell.Rebuilt cell') (form : Text.Shape → String) :
    guardView cell' form = guardView cell form := by
  have hwaits : cell'.finalizer.isSome = cell.finalizer.isSome := by
    have hfinalizer := hcell.finalizer
    generalize cell.finalizer = f at hfinalizer
    generalize cell'.finalizer = f' at hfinalizer
    cases hfinalizer <;> rfl
  unfold guardView Cell.shape
  rw [hcell.count, hcell.locked, hwaits]

/-- The cell is looked at again after it is unlocked, and shows the same again. -/
theorem rebuilt_guard (o : ObjectId) : (s.guard o).Rebuilt made gone Eq (t.guard o) := by
  unfold guard
  rw [h.heap.link?]
  refine .given h fun c _ => (rebuilt_lock h c).andThen fun cell cell' s t hcell h => ?_
  have hunlocked := rebuilt_unlock h c
  have hafter := hunlocked.heap.cell? c
  dsimp only
  rw [guardView_eq hcell]
  generalize (s.unlock c).heap.cell? c = after at hafter
  generalize (t.unlock c).heap.cell? c = after' at hafter
  cases hafter with
  | none => exact .halted .malformed hunlocked
  | some hafter =>
    refine .returned ?_ hunlocked
    unfold Cell.shape
    rw [hafter.locked]

theorem rebuilt_guardCell (c : CellId) :
    (s.guardCell c).Rebuilt made gone Eq (t.guardCell c) :=
  (rebuilt_lock h c).andThen fun cell cell' _ _ hcell h => by
    rw [guardView_eq hcell]
    exact .returned rfl (rebuilt_unlock h c)

/-- **Actions on objects go by slots and cells**, which are the same but for what the routines in
them may do. -/
theorem rebuilt_performObject {action : ObjectAction}
    (hoverlooks : (Step.act (.object action)).overlooks = true) :
    (s.performObject action).Rebuilt made gone Eq (t.performObject action) := by
  cases action with
  | statistics => cases hoverlooks
  | count name via =>
    exact .through (rebuilt_withInstance h _ name fun o => (rebuilt_count h o).mapSame _) via
  | isUnique name via =>
    exact .through (rebuilt_withInstance h _ name fun o => (rebuilt_isUnique h o).mapSame _) via
  | isDeallocated name | hasCell name | slotIsNull name =>
    refine rebuilt_withObject h name fun o => ?_
    rw [h.heap.link?]
    exact .returned rfl h
  | resolve name => exact rebuilt_withObject h name fun o => (rebuilt_resolve h o).mapSame _
  | clearSlot name =>
    exact rebuilt_withObject h name fun o => .returned rfl (h.onHeap (h.heap.updateObject o _))
  | offsets name => exact rebuilt_withObject h name fun _ => .returned rfl h
  | guard name => exact rebuilt_withObject h name fun o => rebuilt_guard h o
  | forceCount name count =>
    refine rebuilt_withObject h name fun o => ?_
    rw [h.heap.link?]
    exact .given h fun c _ => .returned rfl (h.onHeap (h.heap.setCount c count))
  | write name start bytes =>
    refine rebuilt_withObject h name fun o => ?_
    rw [h.heap.object?]
    exact .given h fun object _ => .returned rfl (h.onHeap (h.heap.updateObject o _))
  | read name start length =>
    refine rebuilt_withObject h name fun o => ?_
    rw [h.heap.object?]
    exact .given h fun object _ => .returned rfl h
  | guardCell name =>
    unfold performObject
    rw [h.names]
    exact .given h fun c _ => rebuilt_guardCell h c
  | freeCell name =>
    unfold performObject
    rw [h.names]
    exact .given h fun c _ => .returned rfl ((rebuilt_freeCell h c).onNames _)
  | faultCount =>
    unfold performObject
    rw [h.faults]
    exact .returned rfl h

/-! ### Steps on the logger -/

/-- The logger is set alike. The lines that it wrote before differ, so only taking them tells. -/
theorem rebuilt_performLog {action : LogAction}
    (hoverlooks : (Step.act (.log action)).overlooks = true) :
    (t.performLog action).1 = (s.performLog action).1 ∧
      (s.performLog action).2.Rebuilt made gone (t.performLog action).2 := by
  cases action with
  | takeCaptured => cases hoverlooks
  | state =>
    unfold performLog
    rw [h.logger.level, h.logger.format]
    exact ⟨rfl, h⟩
  | setLevel level => exact ⟨rfl, {h with logger := {h.logger with level := rfl}}⟩
  | setFormat format => exact ⟨rfl, {h with logger := {h.logger with format := rfl}}⟩
  | setSink sink => exact ⟨rfl, {h with logger := {h.logger with sink := rfl}}⟩
  | wouldLog level =>
    unfold performLog Log.Logger.wouldLog
    rw [h.logger.level]
    exact ⟨rfl, h⟩
  | emit entry => exact ⟨rfl, h.log entry⟩

/-! ### Steps on settings -/

theorem rebuilt_apply (c : Configuration) : (s.apply c).Rebuilt made gone (t.apply c) := by
  have hsettled : State.Rebuilt made gone
      {s with
        logger := {s.logger with level := c.level, format := c.format}
        faults := {s.faults with policy := c.policy}
        allocators :=
          {s.allocators with system := {s.allocators.system with limit := c.maxHeapSize}}}
      {t with
        logger := {t.logger with level := c.level, format := c.format}
        faults := {t.faults with policy := c.policy}
        allocators :=
          {t.allocators with system := {t.allocators.system with limit := c.maxHeapSize}}} :=
    {h with
      logger := {h.logger with level := rfl, format := rfl}
      faults := by rw [h.faults]
      allocators := {h.allocators with limit := rfl}}
  exact hsettled.log c.entry

/-- Settings that are refused change neither state, and the others change both alike. -/
theorem rebuilt_configure (c : Configuration) : (t.configure c).1 = (s.configure c).1 ∧
    (s.configure c).2.Rebuilt made gone (t.configure c).2 := by
  unfold configure
  split
  · exact ⟨rfl, h⟩
  · exact ⟨rfl, {rebuilt_apply h c with configuration := rfl}⟩

theorem rebuilt_readEnvironment : t.readEnvironment.1 = s.readEnvironment.1 ∧
    s.readEnvironment.2.Rebuilt made gone t.readEnvironment.2 := by
  unfold readEnvironment
  rw [h.environment]
  refine ⟨rfl, ?_⟩
  dsimp only
  generalize s.environment.warnings = warnings
  induction warnings generalizing s t with
  | nil => exact h
  | cons warning warnings ih => exact ih (h.log _)

/-- The variables are the same, and so are the warnings. -/
theorem rebuilt_configureFromEnvironment :
    t.configureFromEnvironment.1 = s.configureFromEnvironment.1 ∧
      s.configureFromEnvironment.2.Rebuilt made gone t.configureFromEnvironment.2 := by
  obtain ⟨hread, h⟩ := rebuilt_readEnvironment h
  unfold configureFromEnvironment
  dsimp only
  rw [hread]
  split
  · exact rebuilt_configure h _
  · exact ⟨rfl, (rebuilt_configure (h.log _) {}).2⟩

/-- The accounts of custom allocators are the same: objects are only put together by hand in place
of those that the system allocator serves. -/
theorem rebuilt_withAllocator (name : String) {R : α → β → Prop}
    {next : AllocatorId → Quota → Outcome α} {next' : AllocatorId → Quota → Outcome β}
    (hnext : ∀ i q, (next i q).Rebuilt made gone R (next' i q)) :
    (s.withAllocator name next).Rebuilt made gone R (t.withAllocator name next') := by
  unfold withAllocator
  rw [h.names]
  refine .given h fun i _ => ?_
  rw [h.allocators.quota?]
  exact .given h fun q _ => hnext i q

/-- **Settings are made alike.** Of all that they read, only the account of the system allocator
differs. -/
theorem rebuilt_performSetting {action : SettingAction}
    (hoverlooks : (Step.act (.setting action)).overlooks = true) :
    (s.performSetting action).Rebuilt made gone Eq (t.performSetting action) := by
  cases action with
  | systemQuota => cases hoverlooks
  | policy =>
    unfold performSetting
    rw [h.faults]
    exact .returned rfl h
  | setPolicy policy => exact .returned rfl {h with faults := by rw [h.faults]}
  | setReporter reporter => exact .returned rfl {h with faults := by rw [h.faults]}
  | report fault => exact .report h fault
  | raiseForeign message => exact (Outcome.Rebuilt.report h _).through .foreign
  | setVariables values =>
    unfold performSetting
    rw [h.environment]
    exact .returned rfl {h with environment := rfl}
  | readEnvironment =>
    obtain ⟨hread, h⟩ := rebuilt_readEnvironment h
    exact .returned (congrArg Answer.environment hread.symm) h
  | configure settings =>
    obtain ⟨hresult, h⟩ := rebuilt_configure h (.ofSettings settings)
    exact .returned (congrArg configurationAnswer hresult.symm) h
  | configureFromEnvironment via =>
    obtain ⟨hresult, h⟩ := rebuilt_configureFromEnvironment h
    exact .returned (congrArg (initialiserAnswer via) hresult.symm) h
  | configuration =>
    unfold performSetting
    rw [h.configuration]
    exact .returned rfl h
  | systemLimit =>
    unfold performSetting
    rw [h.allocators.limit]
    exact .returned rfl h
  | setSystemLimit limit =>
    exact .returned rfl (h.withAllocators {h.allocators with limit := rfl})
  | newAllocator name limit =>
    have hadded : (s.allocators.add name limit).2.Rebuilt made (t.allocators.add name limit).2 :=
      {h.allocators with
        custom := congrArg (fun custom => custom ++ [CustomAllocator.mk name {limit}])
          h.allocators.custom}
    have hnumber : (t.allocators.add name limit).1 = (s.allocators.add name limit).1 :=
      congrArg List.length h.allocators.custom
    unfold performSetting
    dsimp only
    rw [hnumber]
    exact .returned rfl ((h.withAllocators hadded).onNames _)
  | setAllocatorLimit name limit =>
    exact rebuilt_withAllocator h name fun i q =>
      .returned rfl (h.withAllocators (h.allocators.setQuota i _))
  | allocatorQuota name => exact rebuilt_withAllocator h name fun i q => .returned rfl h
  | installAllocator name =>
    refine rebuilt_withAllocator h name fun i _ => ?_
    unfold Allocators.install
    rw [h.allocators.installed]
    cases s.allocators.installed with
    | none => exact .returned rfl (h.withAllocators {h.allocators with installed := rfl})
    | some j => exact .returned rfl h
  | globalIsSystem =>
    unfold performSetting
    rw [h.allocators.installed]
    exact .returned rfl h

/-! ### Steps on handles -/

theorem rebuilt_withHandle (handle : String) {R : α → β → Prop} {next : ObjectId → Outcome α}
    {next' : ObjectId → Outcome β}
    (hnext : ∀ o, s.names.handles.find? handle = some o →
      (next o).Rebuilt made gone R (next' o)) :
    (s.withHandle handle next).Rebuilt made gone R (t.withHandle handle next') := by
  unfold withHandle
  rw [h.names]
  exact .given h hnext

/-- Handles are handed over by both or by neither. -/
theorem rebuilt_takeHandles (names : List String) :
    Option.Rel (fun x y => y.1 = x.1 ∧ State.Rebuilt made gone x.2 y.2) (s.takeHandles names)
      (t.takeHandles names) := by
  induction names generalizing s t with
  | nil => exact .some ⟨rfl, h⟩
  | cons name names ih =>
    unfold takeHandles
    rw [h.names]
    cases s.names.handles.find? name with
    | none => exact .none
    | some o =>
      exact rel_map (fun x y hxy => ⟨congrArg (o :: ·) hxy.1, hxy.2⟩)
        (ih (h.forgetHandle name))

theorem rebuilt_assign (o : ObjectId) (literal : Literal) :
    Option.Rel (State.Rebuilt made gone) (s.assign o literal) (t.assign o literal) := by
  unfold assign
  rw [h.heap.value?]
  cases s.heap.value? o with
  | none => exact .none
  | some v =>
    simp only [Option.bind_some]
    cases v.updated? literal with
    | none => exact .none
    | some v => exact .some (h.onHeap (h.heap.updateObject o _))

/-- An assignment, and the answer to it. -/
theorem rebuilt_assigned (o : ObjectId) (literal : Literal) (answer : Answer) :
    (s.given (s.assign o literal) fun s => .returned answer s).Rebuilt made gone Eq
      (t.given (t.assign o literal) fun t => .returned answer t) := by
  have hassign := rebuilt_assign h o literal
  generalize s.assign o literal = out at hassign
  generalize t.assign o literal = out' at hassign
  cases hassign with
  | none => exact .halted .malformed h
  | some h => exact .returned rfl h

/-- Both handles are the only ones to their objects, or neither is. -/
theorem rebuilt_setHandle (o : ObjectId) (literal : Literal) :
    (s.setHandle o literal).Rebuilt made gone Eq (t.setHandle o literal) :=
  (rebuilt_isUnique h o).thenSame fun unique _ _ h => by
    split
    · exact rebuilt_assigned h o literal (.flag true)
    · exact .returned rfl h

theorem rebuilt_pushChild (o : ObjectId) (child : String) :
    (s.pushChild o child).Rebuilt made gone Eq (t.pushChild o child) :=
  (rebuilt_isUnique h o).thenSame fun unique _ _ h => by
    split
    · refine rebuilt_withHandle h child fun c _ => ?_
      rw [h.heap.value?]
      split
      · exact .returned rfl ((h.onHeap (h.heap.updateObject o _)).forgetHandle child)
      · exact .halted .malformed h
    · exact .returned rfl h

theorem rebuilt_valueAnswer? (v : Value) : t.valueAnswer? v = s.valueAnswer? v := by
  have hlabel : t.labelOf? = s.labelOf? := by
    funext o
    unfold labelOf?
    rw [h.heap.value?]
  cases v <;> simp only [valueAnswer?, hlabel]

end State

/-! ### Requests -/

/-- The request that a step comes to, if it gets so far. -/
def State.request? (s : State) : Step → Option Request
  | .allocate _ size _ provider _ => (s.provider? provider).map fun provider => ⟨s, provider, size⟩
  | .act (.handle (.create _ kind literal)) =>
    (s.takeHandles literal.childNames).bind fun (children, s) =>
      (literal.value? kind children).map fun v => ⟨s, s.allocators.installed, v.kind.size⟩
  | .makeUnique handle _ =>
    (s.names.handles.find? handle).bind fun o =>
      match s.isUnique o with
      | .returned false s =>
        (s.heap.value? o).bind fun v =>
          match s.retainEach v.children with
          | (_, .returned _ s) => some ⟨s, s.allocators.installed, v.kind.size⟩
          | _ => none
      | _ => none
  | _ => none

namespace State

variable {s t : State} (h : s.Rebuilt made gone t)
include h

/-- The object that holds the value is the same one in both, if its region is granted. -/
theorem rebuilt_createHandle {handle : String} {kind : Kind} {literal : Literal}
    (hgranted : ∀ r, s.request? (.act (.handle (.create handle kind literal))) = some r →
      r.granted = true) :
    (s.createHandle handle kind literal).Rebuilt made gone Eq
      (t.createHandle handle kind literal) := by
  have htaken := rebuilt_takeHandles h literal.childNames
  unfold createHandle
  generalize hs : s.takeHandles literal.childNames = taken at htaken
  generalize t.takeHandles literal.childNames = taken' at htaken
  cases htaken with
  | none => exact .halted .malformed h
  | @some x y htaken =>
    obtain ⟨children, s⟩ := x
    obtain ⟨_, t⟩ := y
    obtain ⟨rfl, h⟩ := htaken
    refine .given h fun v hv => ?_
    have hrequest : Request.granted ⟨s, s.allocators.installed, v.kind.size⟩ = true :=
      hgranted _ (by simp [request?, hs, hv])
    exact (rebuilt_hold h v hrequest).thenSame fun o _ _ h =>
      .returned rfl (h.nameHandle handle o)

/-- **Handles are used alike**, as long as the objects they make are granted a region. -/
theorem rebuilt_performHandle {action : HandleAction}
    (hgranted : ∀ r, s.request? (.act (.handle action)) = some r → r.granted = true) :
    (s.performHandle action).Rebuilt made gone Eq (t.performHandle action) := by
  cases action with
  | create handle kind literal => exact rebuilt_createHandle h hgranted
  | clone handle copy =>
    exact rebuilt_withHandle h handle fun o _ => (rebuilt_retain h o).thenSame fun _ _ _ h =>
      .returned rfl (h.nameHandle copy _)
  | get handle =>
    refine rebuilt_withHandle h handle fun o _ => ?_
    rw [h.heap.value?]
    refine .given h fun v _ => ?_
    rw [rebuilt_valueAnswer? h]
    exact .given h fun answer _ => .returned rfl h
  | count handle => exact rebuilt_withHandle h handle fun o _ => (rebuilt_count h o).mapSame _
  | isUnique handle => exact rebuilt_withHandle h handle fun o _ => (rebuilt_isUnique h o).mapSame _
  | set handle literal => exact rebuilt_withHandle h handle fun o _ => rebuilt_setHandle h o literal
  | push handle child => exact rebuilt_withHandle h handle fun o _ => rebuilt_pushChild h o child
  | equal handle other =>
    refine rebuilt_withHandle h handle fun a _ => rebuilt_withHandle h other fun b _ => ?_
    unfold equalAnswer
    rw [h.heap.fullImage?, h.heap.fullImage?]
    exact .given h fun x _ => .given h fun y _ => .returned rfl h
  | sameObject handle other =>
    exact rebuilt_withHandle h handle fun a _ => rebuilt_withHandle h other fun b _ =>
      .returned rfl h
  | write handle form =>
    refine rebuilt_withHandle h handle fun o _ => ?_
    rw [h.heap.fullImage?]
    exact .given h fun image _ => .given h fun text _ => .returned rfl h
  | intoObject handle name =>
    exact rebuilt_withHandle h handle fun o _ =>
      .returned rfl ((h.forgetHandle handle).nameObject name o)
  | asObject handle name =>
    exact rebuilt_withHandle h handle fun o _ => .returned rfl (h.nameObject name o)
  | fromObject name handle =>
    unfold performHandle
    rw [h.names]
    exact .given h fun o _ => .returned rfl (h.nameHandle handle o)

end State

end Custody
