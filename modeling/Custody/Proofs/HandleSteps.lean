import Custody.Proofs.Handling
import Custody.Proofs.Transition

/-! What steps on handles do in their first transition.

A step on a handle either comes to its end in one transition, or it lets go of one reference
and leaves the rest to a cascade (`Performs`). Every object keeps to its owners, to which the
references count that the machine is about to release (`State.Owned.begins`). -/
namespace Custody

/-! ### Sessions of handles -/

/-- The step works on handles. -/
def Step.onHandles : Step → Bool
  | .act (.handle _) | .dropHandle _ | .makeUnique _ _ => true
  | _ => false

/-- The action leaves handles and values alone. With a mutable view that is not given out, nothing
is written. -/
def HandleAction.looks (action : HandleAction) (answer : Answer) : Prop :=
  match action with
  | .get _ | .count _ | .isUnique _ | .equal _ _ | .sameObject _ _ | .write _ _ | .asObject _ _ => True
  | .set _ _ | .push _ _ => answer = .flag false
  | .create _ _ _ | .clone _ _ | .intoObject _ _ | .fromObject _ _ => False

/-- What an action asks for: no handle is overwritten, only a node is given children, the allocator
grants what is needed, a count has room, and a reference is adopted only if it was lent. -/
def State.PermitsAction (lent : List ObjectId) (s : State) : HandleAction → Prop
  | .create handle kind literal =>
    (s.names.handles.find? handle = none ∨ handle ∈ literal.childNames) ∧
      (kind = .node ∨ literal.childNames = []) ∧ s.grants kind = true
  | .clone handle copy =>
    s.names.handles.find? copy = none ∧
      ∀ o ∈ s.names.handles.find? handle, s.owners lent o < maxCount.toNat
  | .fromObject name handle =>
    s.names.handles.find? handle = none ∧ ∀ o ∈ s.names.objects.find? name, o ∈ lent
  | _ => True

/-- What a step asks for. A copy on write takes an object, and a reference to every child. -/
def State.Permits (lent : List ObjectId) (s : State) : Step → Prop
  | .act (.handle action) => s.PermitsAction lent action
  | .makeUnique handle _ =>
    ∀ o ∈ s.names.handles.find? handle, s.owners lent o ≠ 1 → ∀ v ∈ s.heap.value? o,
      s.grants v.kind = true ∧
        ∀ c ∈ v.children, s.owners lent c + v.children.count c ≤ maxCount.toNat
  | _ => True

/-- The references that are lent once a step has begun. -/
def State.lending (lent : List ObjectId) (s : State) : Step → List ObjectId
  | .act (.handle (.intoObject handle _)) => (s.names.handles.find? handle).toList ++ lent
  | .act (.handle (.fromObject name _)) =>
    match s.names.objects.find? name with
    | some o => lent.erase o
    | none => lent
  | _ => lent

instance (lent : List ObjectId) (s : State) (action : HandleAction) :
    Decidable (s.PermitsAction lent action) := by
  unfold State.PermitsAction
  split <;> infer_instance

instance (lent : List ObjectId) (s : State) (step : Step) : Decidable (s.Permits lent step) := by
  unfold State.Permits
  split <;> infer_instance

/-! ### References on the way -/

/-- The references that are about to be released. -/
def Control.afoot : Control → List ObjectId
  | .release o => [o]
  | _ => []

def Frame.afoot : Frame → List ObjectId
  | .dropping rest _ => rest
  | _ => []

def framesAfoot (o : ObjectId) (stack : List Frame) : Nat :=
  total (fun frame => frame.afoot.count o) stack

namespace Machine

/-- How many owners an object has, with the references that are about to be released. -/
def owners (lent : List ObjectId) (m : Machine) (o : ObjectId) : Nat :=
  m.state.owners lent o + m.control.afoot.count o + framesAfoot o m.stack

/-- The objects that are being torn down. -/
def dying (m : Machine) : List ObjectId :=
  (teardowns m.stack).map (·.object)

/-- What a machine that works on handles has to do next. -/
def Plain (m : Machine) : Prop :=
  match m.control with
  | .perform step => step.onHandles = true ∧ m.stack = []
  | .release _ | .answer _ => True
  | .unwind _ | .halt _ => False

end Machine

/-- The frames of steps on handles. -/
def Frame.plain : Frame → Bool
  | .teardown _ | .barrier | .dropping _ none | .assigning _ _ => true
  | _ => false

/-- A machine that works on handles, while every object keeps to its owners. -/
structure Machine.Owned (lent : List ObjectId) (m : Machine) : Prop where
  keeps : m.state.heap.Keeps m.dying (m.owners lent)
  distinct : Bindings.Distinct m.state.names.handles
  plain : m.Plain
  frames : ∀ frame ∈ m.stack, frame.plain = true
  /-- An object is governed by the cell it was created with. -/
  paired : ∀ t ∈ teardowns m.stack, t.cell = t.object
  once : m.dying.Nodup

variable {lent : List ObjectId} {s t : State} {o p : ObjectId} {ts : List ObjectId}
  {owners : ObjectId → Nat} {stack : List Frame}

/-! ### What a step comes to in one transition -/

/-- The machine after the first transition of a step on handles. -/
inductive Performs (lent : List ObjectId) (s : State) : Step → Machine → Prop
  /-- Something that is named is not there, or a value is not of its kind. -/
  | halts (step : Step) (t : State) (faults : t.faults = s.faults) :
    Performs lent s step ⟨t, .halt .malformed, []⟩
  | looks (action : HandleAction) (answer : Answer) (t : State) (looks : action.looks answer)
      (stays : s.Stays t) : Performs lent s (.act (.handle action)) ⟨t, .answer answer, []⟩
  | creates (handle : String) (kind : Kind) (literal : Literal) (os : List ObjectId)
      (rest : Bindings ObjectId) (v : Value) (t : State)
      (takes : Bindings.Takes s.names.handles literal.childNames os rest)
      (absent : rest.find? handle = none)
      (value : literal.value? kind os = some v) (children : v.children = os)
      (becomes : s.Becomes t
        (s.heap.objects ++ [⟨v.kind.size, some s.heap.objects.length, .value v⟩])
        (rest.bind handle s.heap.objects.length) 1) :
    Performs lent s (.act (.handle (.create handle kind literal))) ⟨t, .answer .done, []⟩
  | clones (handle copy : String) (o : ObjectId) (t : State)
      (found : s.names.handles.find? handle = some o) (absent : s.names.handles.find? copy = none)
      (becomes : s.Becomes t s.heap.objects (s.names.handles.bind copy o) 0) :
    Performs lent s (.act (.handle (.clone handle copy))) ⟨t, .answer .done, []⟩
  /-- Assigns in place, through a mutable view or where no copy is needed. -/
  | assigns (step : Step) (answer : Answer) (handle : String) (literal : Literal) (o : ObjectId)
      (size : UInt64) (v v' : Value) (t : State)
      (mode : step = .act (.handle (.set handle literal)) ∧ answer = .flag true ∨
        step = .makeUnique handle literal ∧ answer = .made false)
      (found : s.names.handles.find? handle = some o) (unique : s.owners lent o = 1)
      (value : s.heap.object? o = some ⟨size, some o, .value v⟩)
      (updated : v.updated? literal = some v')
      (becomes : s.Becomes t (s.heap.setContents o (.value v')).objects s.names.handles 0) :
    Performs lent s step ⟨t, .answer answer, []⟩
  | pushes (handle child : String) (o c : ObjectId) (size : UInt64) (label : String)
      (children : List ObjectId) (t : State)
      (found : s.names.handles.find? handle = some o) (unique : s.owners lent o = 1)
      (foundChild : s.names.handles.find? child = some c)
      (value : s.heap.object? o = some ⟨size, some o, .value (.node label children)⟩)
      (becomes : s.Becomes t (s.heap.setContents o (.value (.node label (children ++ [c])))).objects
        (s.names.handles.remove child) 0) :
    Performs lent s (.act (.handle (.push handle child))) ⟨t, .answer (.flag true), []⟩
  | lends (handle name : String) (o : ObjectId) (t : State)
      (found : s.names.handles.find? handle = some o)
      (becomes : s.Becomes t s.heap.objects (s.names.handles.remove handle) 0) :
    Performs lent s (.act (.handle (.intoObject handle name))) ⟨t, .answer .done, []⟩
  | adopts (name handle : String) (o : ObjectId) (t : State)
      (found : s.names.objects.find? name = some o) (mem : o ∈ lent)
      (absent : s.names.handles.find? handle = none)
      (becomes : s.Becomes t s.heap.objects (s.names.handles.bind handle o) 0) :
    Performs lent s (.act (.handle (.fromObject name handle))) ⟨t, .answer .done, []⟩
  | drops (handle : String) (o : ObjectId) (found : s.names.handles.find? handle = some o) :
    Performs lent s (.dropHandle handle) ⟨s.forgetHandle handle, .release o, []⟩
  /-- The handle has its copy, and the old reference is still to go. -/
  | copies (handle : String) (literal : Literal) (o : ObjectId) (size : UInt64) (v : Value)
      (t : State) (found : s.names.handles.find? handle = some o) (shared : s.owners lent o ≠ 1)
      (value : s.heap.object? o = some ⟨size, some o, .value v⟩)
      (becomes : s.Becomes t
        (s.heap.objects ++ [⟨v.kind.size, some s.heap.objects.length, .value v⟩])
        (s.names.handles.bind handle s.heap.objects.length) 1) :
    Performs lent s (.makeUnique handle literal)
      ⟨t, .release o, [.assigning s.heap.objects.length literal]⟩

/-- What the first transition of a step comes to, and that every object still keeps to its owners,
unless the script ends. -/
def Begins (lent : List ObjectId) (s : State) (step : Step) (m : Machine) : Prop :=
  Performs lent s step m ∧ (m.control = .halt .malformed ∨ m.Owned (s.lending lent step))

theorem Begins.halts (step : Step) (hfaults : t.faults = s.faults) :
    Begins lent s step ⟨t, .halt .malformed, []⟩ :=
  ⟨.halts step t hfaults, .inl rfl⟩

/-- A machine that has come to the answer of a step. -/
theorem Machine.Owned.answered {answer : Answer} (hk : t.heap.Keeps [] owners)
    (howners : ∀ p, t.owners lent p = owners p) (hd : Bindings.Distinct t.names.handles) :
    Machine.Owned lent ⟨t, .answer answer, []⟩ where
  keeps := hk.congr howners
  distinct := hd
  plain := trivial
  frames := nofun
  paired := nofun
  once := .nil

namespace State

/-- A state between two steps in which every object keeps to its owners. -/
structure Owned (lent : List ObjectId) (s : State) : Prop where
  keeps : s.heap.Keeps [] (s.owners lent)
  distinct : Bindings.Distinct s.names.handles

theorem Stays.owned (h : s.Owned lent) (hs : s.Stays t) (hheap : t.heap = s.heap)
    {answer : Answer} : Machine.Owned lent ⟨t, .answer answer, []⟩ := by
  have hkeeps : t.heap.Keeps [] (s.owners lent) := hheap ▸ h.keeps
  refine .answered hkeeps (fun p => ?_) (hs.handles ▸ h.distinct)
  unfold State.owners
  rw [hheap, hs.handles]

section Performs

theorem Owned.pos {handle : String} (hf : s.names.handles.find? handle = some o) :
    0 < s.owners lent o := by
  have := Bindings.uses_pos hf
  unfold State.owners
  omega

variable (h : s.Owned lent)
include h

/-- What looks at the state, and comes to an answer or finds something missing. -/
theorem Owned.begins_looks {action : HandleAction} {out : Outcome Answer}
    (hout : (∃ answer t, out = .returned answer t ∧ action.looks answer ∧ t.heap = s.heap ∧
      s.Stays t) ∨ ∃ t, out = .halted .malformed t ∧ t.faults = s.faults)
    (hlending : s.lending lent (.act (.handle action)) = lent) :
    Begins lent s (.act (.handle action)) (Machine.settle out []) := by
  rcases hout with ⟨answer, t, rfl, hlooks, hheap, hstays⟩ | ⟨t, rfl, hfaults⟩
  · refine ⟨.looks action answer t hlooks hstays, .inr ?_⟩
    rw [hlending]
    exact hstays.owned h hheap
  · exact .halts _ hfaults

theorem Owned.begins_create (handle : String) (kind : Kind) (literal : Literal)
    (hp : s.PermitsAction lent (.create handle kind literal)) :
    Begins lent s (.act (.handle (.create handle kind literal)))
      (Machine.settle (s.createHandle handle kind literal) []) := by
  obtain ⟨hname, hkind, hgrants⟩ := hp
  unfold createHandle
  cases htake : s.takeHandles literal.childNames with
  | none => exact .halts _ rfl
  | some taken =>
    obtain ⟨os, t⟩ := taken
    obtain ⟨htakes, hheap, hstatistics, hfaults, hallocators⟩ :=
      takes_of_takeHandles h.distinct htake
    simp only [given]
    cases hv : literal.value? kind os with
    | none => exact .halts _ hfaults
    | some v =>
      have hchildren : v.children = os := by
        refine Literal.children_value? hv (hkind.imp_right fun hnone => ?_)
        have := htakes.found
        rw [hnone] at this
        cases this
        rfl
      have habsent : Bindings.find? t.names.handles handle = none := by
        rw [htakes.left]
        split
        · rfl
        · next hmem => exact hname.resolve_right hmem
      have hgranted : t.grants v.kind = true := by
        rw [Literal.kind_value? hv, grants_congr hallocators]
        exact hgrants
      obtain ⟨u, hhold, hbecomes, hkeeps⟩ := exists_hold (hheap ▸ h.keeps : t.heap.Keeps [] _) v
        hgranted
      rw [hheap] at hhold hbecomes hkeeps
      have hstays : s.Becomes t s.heap.objects t.names.handles 0 :=
        ⟨by rw [hheap], rfl, hfaults, by rw [hstatistics, UInt64.add_zero], by rw [hstatistics]⟩
      have hnamed := (hbecomes.after hstays).nameHandle handle s.heap.objects.length
      simp only [hhold, Outcome.andThen_returned]
      refine ⟨.creates handle kind literal os t.names.handles v _ htakes habsent hv hchildren hnamed,
        .inr (.answered hkeeps (fun p => ?_) ?_)⟩
      · have hholds : (u.nameHandle handle s.heap.objects.length).heap.holds p =
            s.heap.holds p + os.count p := by
          rw [Heap.holds_append hnamed.objects, ← hchildren]
          rfl
        have huses := Bindings.uses_bind (o := s.heap.objects.length) habsent p
        have htaken := htakes.uses p
        refine (hnamed.owners_eq lent p).trans ?_
        unfold owners
        omega
      · rw [hnamed.handles]
        exact htakes.distinct.bind _ _

theorem Owned.begins_clone (handle copy : String)
    (hp : s.PermitsAction lent (.clone handle copy)) :
    Begins lent s (.act (.handle (.clone handle copy)))
      (Machine.settle (s.performHandle (.clone handle copy)) []) := by
  obtain ⟨habsent, hroom⟩ := hp
  simp only [performHandle, withHandle]
  cases ho : s.names.handles.find? handle with
  | none => exact .halts _ rfl
  | some o =>
    obtain ⟨t, hretain, hstays, _, hkeeps⟩ := exists_retain h.keeps (Owned.pos ho) (hroom o ho)
    simp only [given, hretain, Outcome.andThen_returned]
    have hnamed := hstays.nameHandle copy o
    refine ⟨.clones handle copy o _ ho habsent hnamed, .inr (.answered hkeeps (fun p => ?_) ?_)⟩
    · have huses := Bindings.uses_bind (o := o) habsent p
      have hholds : (t.nameHandle copy o).heap.holds p = s.heap.holds p :=
        Heap.holds_congr hnamed.objects
      refine (hnamed.owners_eq lent p).trans ?_
      unfold owners
      omega
    · rw [hnamed.handles]
      exact h.distinct.bind _ _

/-- The one owner of an object assigns to its value. -/
theorem Owned.assign_of_unique {handle : String} (hf : s.names.handles.find? handle = some o)
    {literal : Literal} {v' : Value} {size : UInt64} {v : Value}
    (hobject : s.heap.object? o = some ⟨size, some o, .value v⟩)
    (hv : v.updated? literal = some v') (answer : Answer) :
    s.Becomes (s.onHeap (·.setContents o (.value v'))) (s.heap.setContents o (.value v')).objects
        s.names.handles 0 ∧
      Machine.Owned lent ⟨s.onHeap (·.setContents o (.value v')), .answer answer, []⟩ := by
  refine ⟨⟨rfl, rfl, rfl, (UInt64.add_zero _).symm, rfl⟩, ?_⟩
  refine .answered (h.keeps.setContents v' (Owned.pos hf) hobject (Value.finalizer_updated? hv))
    (fun p => ?_) h.distinct
  have hholds := Heap.holds_setContents (p := p) hobject (.value v')
  have hchildren : v'.children = v.children := children_updated? hv
  simp only [Contents.children, hchildren] at hholds
  show s.names.handles.uses p + (s.heap.setContents o (.value v')).holds p + lent.count p = _
  unfold owners
  omega

theorem Owned.begins_set (handle : String) (literal : Literal) :
    Begins lent s (.act (.handle (.set handle literal)))
      (Machine.settle (s.performHandle (.set handle literal)) []) := by
  simp only [performHandle, withHandle]
  cases ho : s.names.handles.find? handle with
  | none => exact .halts _ rfl
  | some o =>
    have hpos : 0 < s.owners lent o := Owned.pos ho
    obtain ⟨size, v, count, hobject, _⟩ := h.keeps.live hpos
    simp only [given, setHandle, isUnique_of_keeps h.keeps hpos, Outcome.andThen_returned]
    by_cases hone : s.owners lent o = 1
    · have hvalue := Heap.value?_of_object? hobject
      simp only [hone, decide_true, if_true, assign, hvalue, Option.bind_some]
      cases hv : v.updated? literal with
      | none => exact .halts _ rfl
      | some v' =>
        obtain ⟨hbecomes, howned⟩ := h.assign_of_unique ho hobject hv (.flag true)
        exact ⟨.assigns _ _ handle literal o size v v' _ (.inl ⟨rfl, rfl⟩) ho hone hobject hv
          hbecomes, .inr howned⟩
    · simp only [hone, decide_false]
      exact h.begins_looks (.inl ⟨_, s, rfl, rfl, rfl, .refl s⟩) rfl

theorem Owned.begins_push (handle child : String) :
    Begins lent s (.act (.handle (.push handle child)))
      (Machine.settle (s.performHandle (.push handle child)) []) := by
  simp only [performHandle, withHandle]
  cases ho : s.names.handles.find? handle with
  | none => exact .halts _ rfl
  | some o =>
    have hpos : 0 < s.owners lent o := Owned.pos ho
    obtain ⟨size, v, count, hobject, _⟩ := h.keeps.live hpos
    simp only [given, pushChild, isUnique_of_keeps h.keeps hpos, Outcome.andThen_returned]
    by_cases hone : s.owners lent o = 1
    · have hvalue := Heap.value?_of_object? hobject
      simp only [hone, decide_true, if_true, withHandle]
      cases hc : s.names.handles.find? child with
      | none => exact .halts _ rfl
      | some c =>
        simp only [given, hvalue]
        cases v with
        | node label children =>
          refine ⟨.pushes handle child o c size label children _ ho hone hc hobject
            ⟨rfl, rfl, rfl, (UInt64.add_zero _).symm, rfl⟩, .inr ?_⟩
          refine .answered (h.keeps.setContents (.node label (children ++ [c])) hpos hobject rfl)
            (fun p => ?_) (h.distinct.remove child)
          have hholds := Heap.holds_setContents (p := p) hobject
            (.value (.node label (children ++ [c])))
          have huses := Bindings.uses_remove h.distinct hc p
          simp only [Contents.children, Value.children, List.count_append, List.count_singleton,
            beq_iff_eq] at hholds
          show Bindings.uses (s.names.handles.remove child) p +
            (s.heap.setContents o (.value (.node label (children ++ [c])))).holds p +
              lent.count p = _
          unfold owners
          omega
        | _ => exact .halts _ rfl
    · simp only [hone, decide_false]
      exact h.begins_looks (.inl ⟨_, s, rfl, rfl, rfl, .refl s⟩) rfl

theorem Owned.begins_intoObject (handle name : String) :
    Begins lent s (.act (.handle (.intoObject handle name)))
      (Machine.settle (s.performHandle (.intoObject handle name)) []) := by
  simp only [performHandle, withHandle]
  cases ho : s.names.handles.find? handle with
  | none => exact .halts _ rfl
  | some o =>
    refine ⟨.lends handle name o _ ho ⟨rfl, rfl, rfl, (UInt64.add_zero _).symm, rfl⟩, .inr ?_⟩
    refine .answered h.keeps (fun p => ?_) (h.distinct.remove handle)
    have huses := Bindings.uses_remove h.distinct ho p
    have hlent : (s.lending lent (.act (.handle (.intoObject handle name)))).count p =
        lent.count p + if o = p then 1 else 0 := by
      simp [lending, ho, List.count_cons]
    show Bindings.uses (s.names.handles.remove handle) p + s.heap.holds p + _ = _
    rw [hlent]
    unfold owners
    omega

theorem Owned.begins_fromObject (name handle : String)
    (hp : s.PermitsAction lent (.fromObject name handle)) :
    Begins lent s (.act (.handle (.fromObject name handle)))
      (Machine.settle (s.performHandle (.fromObject name handle)) []) := by
  obtain ⟨habsent, hlent⟩ := hp
  simp only [performHandle]
  cases ho : s.names.objects.find? name with
  | none => exact .halts _ rfl
  | some o =>
    have hmem : o ∈ lent := hlent o ho
    refine ⟨.adopts name handle o _ ho hmem habsent ⟨rfl, rfl, rfl, (UInt64.add_zero _).symm, rfl⟩,
      .inr (.answered h.keeps (fun p => ?_) (h.distinct.bind handle o))⟩
    have huses := Bindings.uses_bind (o := o) habsent p
    have hcount : (s.lending lent (.act (.handle (.fromObject name handle)))).count p +
        (if o = p then 1 else 0) = lent.count p := by
      have hpos := List.count_pos_iff.2 hmem
      simp only [lending, ho, List.count_erase, beq_iff_eq]
      split
      · next hop =>
        subst hop
        omega
      · rfl
    show Bindings.uses (s.names.handles.bind handle o) p + s.heap.holds p + _ = _
    unfold owners
    omega

theorem Owned.begins_action (action : HandleAction) (hp : s.PermitsAction lent action) :
    Begins lent s (.act (.handle action)) (Machine.settle (s.performHandle action) []) := by
  have hgiven {β : Type} {found : Option β} {next : β → Outcome Answer} {action : HandleAction}
      (hnext : ∀ b, found = some b →
        (∃ answer t, next b = .returned answer t ∧ action.looks answer ∧ t.heap = s.heap ∧ s.Stays t) ∨
          ∃ t, next b = .halted .malformed t ∧ t.faults = s.faults) :
      (∃ answer t, s.given found next = .returned answer t ∧ action.looks answer ∧
          t.heap = s.heap ∧ s.Stays t) ∨
        ∃ t, s.given found next = .halted .malformed t ∧ t.faults = s.faults := by
    cases found with
    | none => exact .inr ⟨s, rfl, rfl⟩
    | some b => exact hnext b rfl
  cases action with
  | create handle kind literal => exact h.begins_create handle kind literal hp
  | clone handle copy => exact h.begins_clone handle copy hp
  | set handle literal => exact h.begins_set handle literal
  | push handle child => exact h.begins_push handle child
  | intoObject handle name => exact h.begins_intoObject handle name
  | fromObject name handle => exact h.begins_fromObject name handle hp
  | get handle =>
    exact h.begins_looks (hgiven fun o _ => hgiven fun v _ => hgiven fun answer _ =>
      .inl ⟨answer, s, rfl, trivial, rfl, .refl s⟩) rfl
  | count handle =>
    refine h.begins_looks (hgiven fun o ho => .inl ?_) rfl
    obtain ⟨n, t, hcount, _, hheap, hstays⟩ := exists_count h.keeps (Owned.pos ho)
    exact ⟨.number n.toNat, t, by rw [hcount]; rfl, trivial, hheap, hstays⟩
  | isUnique handle =>
    refine h.begins_looks (hgiven fun o ho => .inl ?_) rfl
    exact ⟨_, s, by rw [isUnique_of_keeps h.keeps (Owned.pos ho)]; rfl, trivial, rfl, .refl s⟩
  | equal handle other =>
    exact h.begins_looks (hgiven fun a _ => hgiven fun b _ => hgiven fun x _ => hgiven fun y _ =>
      .inl ⟨_, s, rfl, trivial, rfl, .refl s⟩) rfl
  | sameObject handle other =>
    exact h.begins_looks (hgiven fun a _ => hgiven fun b _ =>
      .inl ⟨_, s, rfl, trivial, rfl, .refl s⟩) rfl
  | write handle form =>
    exact h.begins_looks (hgiven fun o _ => hgiven fun image _ => hgiven fun text _ =>
      .inl ⟨_, s, rfl, trivial, rfl, .refl s⟩) rfl
  | asObject handle name =>
    exact h.begins_looks (hgiven fun o _ =>
      .inl ⟨_, s.nameObject name o, rfl, trivial, rfl, rfl, rfl, rfl, (UInt64.add_zero _).symm, rfl⟩)
      rfl

/-- A new object takes the place of another behind one handle, and has children of its own. -/
theorem Owned.owners_replace {handle : String} (hf : s.names.handles.find? handle = some o)
    {size : UInt64} {c : CellId} {v : Value} {allocated : UInt64}
    (hbecomes : s.Becomes t (s.heap.objects ++ [⟨size, some c, .value v⟩])
      (s.names.handles.bind handle s.heap.objects.length) allocated) (p : ObjectId) :
    t.owners lent p + (if o = p then 1 else 0) =
      s.owners lent p + v.children.count p + if s.heap.objects.length = p then 1 else 0 := by
  have hholds : t.heap.holds p = s.heap.holds p + v.children.count p :=
    Heap.holds_append hbecomes.objects
  have huses := Bindings.uses_rebind h.distinct hf s.heap.objects.length p
  rw [hbecomes.owners_eq]
  unfold owners
  omega

/-- The copy holds references of its own to the children, and takes the handle's place. -/
theorem Owned.exists_copy {handle : String} (hf : s.names.handles.find? handle = some o)
    (literal : Literal) (hshared : s.owners lent o ≠ 1)
    (hp : s.Permits lent (.makeUnique handle literal)) {size : UInt64} {v : Value}
    (hobject : s.heap.object? o = some ⟨size, some o, .value v⟩) :
    ∃ t, Machine.copyOnWrite handle o literal s [] =
        ⟨t, .release o, [.assigning s.heap.objects.length literal]⟩ ∧
      s.Becomes t (s.heap.objects ++ [⟨v.kind.size, some s.heap.objects.length, .value v⟩])
        (s.names.handles.bind handle s.heap.objects.length) 1 ∧
      Machine.Owned lent ⟨t, .release o, [.assigning s.heap.objects.length literal]⟩ := by
  have hvalue := Heap.value?_of_object? hobject
  obtain ⟨hgrants, hroom⟩ := hp o hf hshared v hvalue
  have hchildren : ∀ c ∈ v.children, 0 < s.owners lent c :=
    fun c hc => State.owners_pos_of_child hvalue hc
  obtain ⟨t, hretain, hstays, hallocators, ht⟩ := exists_retainEach h.keeps v.children
    fun c hc => ⟨hchildren c hc, hroom c hc⟩
  obtain ⟨u, hhold, hbecomes, hu⟩ := exists_hold ht v
    ((grants_congr hallocators v.kind).trans hgrants)
  rw [hstays.objects, hstays.handles] at hbecomes
  rw [hstays.objects] at hhold hu
  have hnamed := (hbecomes.after hstays).nameHandle handle s.heap.objects.length
  refine ⟨u.nameHandle handle s.heap.objects.length, ?_, hnamed, ?_⟩
  · simp only [Machine.copyOnWrite, hvalue, hretain, hhold]
  · refine {
      keeps := hu.congr fun p => ?keeps
      distinct := ?distinct
      plain := trivial
      frames := ?frames
      paired := fun u hu => absurd hu List.not_mem_nil
      once := .nil }
    case keeps =>
      have := h.owners_replace hf hnamed p
      show State.owners lent _ p + [o].count p + 0 = s.owners lent p + v.children.count p + _
      rw [List.count_singleton]
      simp only [beq_iff_eq]
      omega
    case distinct =>
      rw [hnamed.handles]
      exact h.distinct.bind _ _
    case frames =>
      intro frame hmem
      obtain rfl := List.mem_singleton.1 hmem
      rfl

theorem Owned.begins (step : Step) (hstep : step.onHandles = true) (hp : s.Permits lent step) :
    Begins lent s step (Machine.perform s [] step) := by
  cases step with
  | act action =>
    cases action with
    | handle action => exact h.begins_action action hp
    | _ => cases hstep
  | dropHandle handle =>
    unfold Machine.perform
    simp only
    cases ho : s.names.handles.find? handle with
    | none => exact .halts _ rfl
    | some o =>
      refine ⟨.drops handle o ho, .inr ?_⟩
      refine {
        keeps := h.keeps.congr fun p => ?keeps
        distinct := h.distinct.remove handle
        plain := trivial
        frames := nofun
        paired := nofun
        once := .nil }
      case keeps =>
        have huses := Bindings.uses_remove h.distinct ho p
        show Bindings.uses (s.names.handles.remove handle) p + s.heap.holds p + lent.count p +
          [o].count p + 0 = _
        rw [List.count_singleton]
        simp only [beq_iff_eq]
        unfold owners
        omega
  | makeUnique handle literal =>
    unfold Machine.perform
    simp only
    cases ho : s.names.handles.find? handle with
    | none => exact .halts _ rfl
    | some o =>
      have hpos : 0 < s.owners lent o := Owned.pos ho
      obtain ⟨size, v, count, hobject, _⟩ := h.keeps.live hpos
      simp only [Machine.makeUnique, isUnique_of_keeps h.keeps hpos]
      by_cases hone : s.owners lent o = 1
      · have hvalue := Heap.value?_of_object? hobject
        simp only [hone, decide_true, Machine.assigned, assign, hvalue, Option.bind_some]
        cases hv : v.updated? literal with
        | none => exact .halts _ rfl
        | some v' =>
          obtain ⟨hbecomes, howned⟩ := h.assign_of_unique ho hobject hv (.made false)
          exact ⟨.assigns _ _ handle literal o size v v' _ (.inr ⟨rfl, rfl⟩) ho hone hobject hv
            hbecomes, .inr howned⟩
      · simp only [hone, decide_false]
        obtain ⟨t, hcopy, hbecomes, howned⟩ := h.exists_copy ho literal hone hp hobject
        rw [hcopy]
        exact ⟨.copies handle literal o size v t ho hone hobject hbecomes, .inr howned⟩
  | _ => cases hstep

end Performs
end State

end Custody
