import Custody.Proofs.HandleSteps

/-! What a released reference sets off.

A release that leaves an owner ends at once. The last one begins a teardown: the value is
dropped, what it held is released in order, and then the object is gone. Through all of this
every object keeps to its owners, so no transition of the cascade fails
(`Machine.Owned.next`). -/
namespace Custody

variable {lent : List ObjectId} {s t : State} {o p : ObjectId} {ts : List ObjectId}
  {owners : ObjectId → Nat} {stack : List Frame}

/-! ### What is left of a value -/

/-- What stays in a payload once its value is gone. -/
def Value.leftover (v : Value) : Contents :=
  if v.kind.owning then .remains else .value v

theorem Value.children_leftover (v : Value) : v.leftover.children = [] := by
  cases v <;> rfl

namespace Heap

variable {h : Heap}

theorem setContents_self {object : Object} (ho : h.object? o = some object) :
    h.setContents o object.contents = h := by
  refine congrArg (fun objects => ({h with objects} : Heap)) (List.ext_getElem? fun i => ?_)
  have hget : h.objects[o]? = some object := ho
  rw [List.getElem?_modify]
  by_cases hi : o = i
  · subst hi
    simp [hget]
  · simp [hi]

/-- The last owner goes: the object begins to be torn down, and its value is dropped. -/
theorem Keeps.begin (hk : h.Keeps ts owners) {size : UInt64} {v : Value} {cell : Cell}
    (hobject : h.object? o = some ⟨size, some o, .value v⟩) (hcell : h.cell? o = some cell) :
    ((h.updateCell o fun _ => {locked := true}).setContents o v.leftover).Keeps (o :: ts)
      fun p => if o = p then 0 else owners p := by
  refine hk.change o ?_ (fun p hp => object?_updateObject_of_ne _ hp.symm)
    (fun p hp => cell?_updateCell_of_ne _ hp.symm) (fun p hp => ?_) (fun p hp => if_neg hp.symm) ?_
  · simpa [Heap.setContents, updateObject, updateCell] using hk.level
  · simp [hp]
  · refine .going size v.leftover ?_ v.children_leftover ?_ List.mem_cons_self (if_pos rfl)
    · rw [Heap.setContents, object?_updateObject_self, object?_updateCell, hobject]
      rfl
    · rw [Heap.setContents, cell?_updateObject, cell?_updateCell_self, hcell]
      rfl

/-- A teardown is finished, and the object is gone. -/
theorem Keeps.bury (hk : h.Keeps (o :: ts) owners) (hidle : o ∉ ts) :
    (h.bury ⟨o, o⟩).Keeps ts owners := by
  have hlinks (p : ObjectId) (hp : p ≠ o) : (h.bury ⟨o, o⟩).object? p = h.object? p :=
    object?_updateObject_of_ne _ hp.symm
  have hcells (p : ObjectId) : (h.bury ⟨o, o⟩).cell? p = if o = p then none else h.cell? p :=
    cell?_bury ⟨o, o⟩ p
  refine hk.change o ?_ hlinks (fun p hp => ?_) (fun p hp => ?_) (fun p _ => rfl) ?_
  · simpa [Heap.bury, Heap.freeCell, Heap.setLink, updateObject] using hk.level
  · rw [hcells, if_neg hp.symm]
  · simp [hp]
  · have hobject : (h.bury ⟨o, o⟩).object? o =
        (h.object? o).map fun object => {object with link := none} :=
      object?_updateObject_self _
    obtain ⟨size, contents, object, empty, _, left⟩ := hk.going List.mem_cons_self
    refine .gone size contents ?_ empty ?_ hidle left
    · rw [hobject, object]
      rfl
    · rw [hcells, if_pos rfl]

/-- An assignment changes a value, and no handle inside of it. -/
theorem Keeps.assign {s t : State} {literal : Literal} (hk : s.heap.Keeps ts owners)
    (ha : s.assign o literal = some t) :
    t.heap.Keeps ts owners ∧ t.heap.holds p = s.heap.holds p := by
  obtain ⟨v, hv, hmap⟩ := Option.bind_eq_some_iff.1 ha
  obtain ⟨v', hv', rfl⟩ := Option.map_eq_some_iff.1 hmap
  obtain ⟨object, hobject, hcontents⟩ := Option.bind_eq_some_iff.1 hv
  have hchildren : v'.children = object.contents.children :=
    (State.children_updated? hv').trans (State.children_toValue? hcontents).symm
  have hchanged : (s.heap.setContents o (.value v')).object? o =
      some {object with contents := .value v'} := by
    rw [Heap.setContents, object?_updateObject_self, hobject]
    rfl
  constructor
  · refine hk.change o ?_ (fun p hp => object?_updateObject_of_ne _ hp.symm) (fun p _ => rfl)
      (fun p _ => .rfl) (fun p _ => rfl) ?_
    · simpa [State.onHeap, Heap.setContents, updateObject] using hk.level
    · cases hk.stands o with
      | unborn found _ _ _ => exact absurd (hobject.symm.trans found) (Option.some_ne_none _)
      | live size w count found cell idle counted left =>
        obtain rfl : object = _ := Option.some.inj (hobject.symm.trans found)
        obtain rfl : w = v := Option.some.inj hcontents
        refine .live size v' count hchanged ?_ idle counted left
        rw [Value.finalizer_updated? hv']
        exact cell
      | going size contents found empty cell begun left =>
        obtain rfl : object = _ := Option.some.inj (hobject.symm.trans found)
        exact .going size _ hchanged (hchildren.trans empty) cell begun left
      | gone size contents found empty cell idle left =>
        obtain rfl : object = _ := Option.some.inj (hobject.symm.trans found)
        exact .gone size _ hchanged (hchildren.trans empty) cell idle left
  · have hholds := holds_setContents (p := p) hobject (.value v')
    simp only [Contents.children, hchildren] at hholds
    exact Nat.add_right_cancel hholds

end Heap

/-- The frames under which a value goes. -/
def Around (o : ObjectId) (frames : List Frame) : Prop :=
  frames = [.teardown ⟨o, o⟩] ∨ frames = [.barrier, .teardown ⟨o, o⟩]

namespace Around

variable {frames : List Frame}

theorem teardowns_eq (h : Around o frames) : teardowns frames = [⟨o, o⟩] := by
  rcases h with rfl | rfl <;> rfl

theorem framesAfoot_eq (h : Around o frames) (p : ObjectId) : framesAfoot p frames = 0 := by
  rcases h with rfl | rfl <;> rfl

theorem plain (h : Around o frames) : ∀ frame ∈ frames, frame.plain = true := by
  rcases h with rfl | rfl <;> simp [Frame.plain]

end Around

/-- The transitions of a machine that works on handles, once a step has begun. -/
inductive Goes (lent : List ObjectId) : Machine → Machine → Prop
  | releases (s t : State) (o : ObjectId) (stack : List Frame)
      (more : Machine.owners lent ⟨s, .release o, stack⟩ o ≠ 1) (stays : s.Stays t) :
    Goes lent ⟨s, .release o, stack⟩ ⟨t, .answer .done, stack⟩
  /-- The last reference goes: what the value holds is released next, in order. -/
  | begins (s t : State) (o : ObjectId) (stack frames : List Frame) (size : UInt64) (v : Value)
      (cell : Cell) (last : Machine.LastRelease ⟨s, .release o, stack⟩ o o cell)
      (finalizer : cell.finalizer = v.finalizer)
      (value : s.heap.object? o = some ⟨size, some o, .value v⟩)
      (becomes : s.Becomes t (s.heap.setContents o v.leftover).objects s.names.handles 0)
      (around : Around o frames) :
    Goes lent ⟨s, .release o, stack⟩
      (Machine.continueDropping none t (frames ++ stack) v.children)
  | finishes (s : State) (o : ObjectId) (answer : Answer) (stack : List Frame) :
    Goes lent ⟨s, .answer answer, .teardown ⟨o, o⟩ :: stack⟩
      ⟨(s.onHeap (·.bury ⟨o, o⟩)).onStatistics (·.addDeallocation), .answer .done, stack⟩
  | passes (s : State) (answer : Answer) (stack : List Frame) :
    Goes lent ⟨s, .answer answer, .barrier :: stack⟩ ⟨s, .answer answer, stack⟩
  | continues (s : State) (answer : Answer) (rest : List ObjectId) (stack : List Frame) :
    Goes lent ⟨s, .answer answer, .dropping rest none :: stack⟩
      (Machine.continueDropping none s stack rest)
  | assigns (s : State) (answer : Answer) (fresh : ObjectId) (literal : Literal)
      (stack : List Frame) :
    Goes lent ⟨s, .answer answer, .assigning fresh literal :: stack⟩
      (Machine.settle (Machine.assigned fresh literal true s) stack)

namespace Machine

variable {m m' : Machine}

theorem framesAfoot_cons {frame : Frame} (h : frame.afoot = []) (o : ObjectId)
    (stack : List Frame) : framesAfoot o (frame :: stack) = framesAfoot o stack := by
  show frame.afoot.count o + framesAfoot o stack = _
  rw [h, List.count_nil, Nat.zero_add]

theorem framesAfoot_append (o : ObjectId) (frames stack : List Frame) :
    framesAfoot o (frames ++ stack) = framesAfoot o frames + framesAfoot o stack :=
  total_append _ _ _

theorem teardowns_append (frames stack : List Frame) :
    teardowns (frames ++ stack) = teardowns frames ++ teardowns stack :=
  List.filterMap_append

/-- Handles that are to be released are among those of the machine that releases them. -/
theorem owners_continueDropping (t : State) (stack : List Frame) (os : List ObjectId) :
    (continueDropping none t stack os).owners lent p =
      t.owners lent p + os.count p + framesAfoot p stack := by
  cases os with
  | nil => rfl
  | cons o rest =>
    show t.owners lent p + [o].count p + (rest.count p + framesAfoot p stack) = _
    simp only [List.count_cons, List.count_nil]
    omega

theorem Owned.continueDropping (owners : ObjectId → Nat) {os : List ObjectId}
    (hk : t.heap.Keeps ((teardowns stack).map (·.object)) owners)
    (howners : ∀ p, t.owners lent p + os.count p + framesAfoot p stack = owners p)
    (hd : Bindings.Distinct t.names.handles) (hframes : ∀ frame ∈ stack, frame.plain = true)
    (hpaired : ∀ t ∈ teardowns stack, t.cell = t.object)
    (honce : ((teardowns stack).map (·.object)).Nodup) :
    (continueDropping none t stack os).Owned lent := by
  cases os with
  | nil => exact ⟨hk.congr howners, hd, trivial, hframes, hpaired, honce⟩
  | cons o rest =>
    refine ⟨hk.congr fun p => ?_, hd, trivial, fun frame hmem => ?_, hpaired, honce⟩
    · exact (owners_continueDropping t stack (o :: rest)).trans (howners p)
    · rcases List.mem_cons.1 hmem with rfl | hmem
      · rfl
      · exact hframes frame hmem

/-- The object's finalizer, as its value asks for it, once the last reference is gone. -/
theorem finalize_of_value {size : UInt64} {v : Value} (stack : List Frame)
    (hobject : s.heap.object? o = some ⟨size, some o, .value v⟩) :
    ∃ t frames, finalize ⟨o, o⟩ v.finalizer (s.begin ⟨o, o⟩) stack =
        Machine.continueDropping none t (frames ++ stack) v.children ∧
      s.Becomes t (s.heap.setContents o v.leftover).objects s.names.handles 0 ∧
      t.heap = (s.heap.updateCell o fun _ => {locked := true}).setContents o v.leftover ∧
      Around o frames := by
  have hbegun : (s.begin ⟨o, o⟩).heap.value? o = some v := by
    have hvalue := Heap.value?_of_object? hobject
    exact hvalue
  cases howning : v.kind.owning with
  | false =>
    have hlocked : (s.heap.updateCell o fun _ => {locked := true}).object? o =
        some ⟨size, some o, .value v⟩ := hobject
    have hself := Heap.setContents_self hlocked
    have hchildren : v.children = [] := by cases v <;> first | rfl | cases howning
    simp only [Value.finalizer, Value.leftover, howning, hchildren, Bool.false_eq_true, if_false]
    refine ⟨s.begin ⟨o, o⟩, [.teardown ⟨o, o⟩], rfl, ?_, hself.symm, .inl rfl⟩
    have hobjects : (s.heap.setContents o (.value v)).objects = s.heap.objects :=
      congrArg Heap.objects (Heap.setContents_self hobject)
    exact ⟨hobjects.symm, rfl, rfl, (UInt64.add_zero _).symm, rfl⟩
  | true =>
    simp only [Value.finalizer, Value.leftover, howning, if_true]
    cases v with
    | node label children =>
      refine ⟨((s.begin ⟨o, o⟩).onHeap (·.setContents o .remains)).observe (.dropped label),
        [.barrier, .teardown ⟨o, o⟩], ?_, ⟨rfl, rfl, rfl, (UInt64.add_zero _).symm, rfl⟩, rfl,
        .inr rfl⟩
      simp only [finalize, dropValue, hbegun]
      rfl
    | _ =>
      refine ⟨(s.begin ⟨o, o⟩).onHeap (·.setContents o .remains), [.barrier, .teardown ⟨o, o⟩], ?_,
        ⟨rfl, rfl, rfl, (UInt64.add_zero _).symm, rfl⟩, rfl, .inr rfl⟩
      simp only [finalize, dropValue, hbegun]
      rfl

theorem owners_release (p : ObjectId) : Machine.owners lent ⟨s, .release o, stack⟩ p =
    s.owners lent p + (if o = p then 1 else 0) + framesAfoot p stack := by
  show _ + [o].count p + _ = _
  rw [List.count_singleton]
  simp only [beq_iff_eq]

/-- The last reference is released: the object's value goes, and its handles are to be dropped. -/
theorem Owned.release_last (h : Owned lent ⟨s, .release o, stack⟩)
    (hone : Machine.owners lent ⟨s, .release o, stack⟩ o = 1) :
    Goes lent ⟨s, .release o, stack⟩ (Machine.release o s stack) ∧
      (Machine.release o s stack).Owned lent := by
  obtain ⟨size, v, count, hobject, hcell, hidle, hcounted⟩ :=
    h.keeps.live (o := o) (by rw [hone]; exact Nat.one_pos)
  have hopens : s.heap.Opens o o ⟨count, false, v.finalizer⟩ :=
    ⟨by simp [Heap.link?, hobject], hcell, rfl⟩
  have hcount : count = 1 := UInt32.toNat_inj.1 (hcounted.trans hone)
  obtain ⟨t, frames, hfinalize, hbecomes, hheap, haround⟩ :=
    finalize_of_value (s := s) stack hobject
  have hrelease : Machine.release o s stack =
      Machine.continueDropping none t (frames ++ stack) v.children :=
    (release_of_last hopens hcount).trans hfinalize
  rw [hrelease]
  refine ⟨.begins s t o stack frames size v _ ⟨rfl, hopens, hcount⟩ rfl hobject hbecomes haround,
    .continueDropping (fun p => if o = p then 0 else
      Machine.owners lent ⟨s, .release o, stack⟩ p) ?keeps ?owners ?distinct ?frames ?paired ?once⟩
  case keeps =>
    rw [hheap, teardowns_append, haround.teardowns_eq]
    exact h.keeps.begin hobject hcell
  case owners =>
    intro p
    -- What the value held is afoot now.
    have hholds := Heap.holds_setContents (p := p) hobject v.leftover
    rw [v.children_leftover, List.count_nil] at hholds
    have hsame : t.heap.holds p = (s.heap.setContents o v.leftover).holds p :=
      Heap.holds_congr hbecomes.objects
    have hchildren : (Contents.value v).children = v.children := rfl
    simp only [hchildren] at hholds
    have hself := hone
    rw [owners_release, if_pos rfl] at hself
    rw [hbecomes.owners_eq, framesAfoot_append, haround.framesAfoot_eq, owners_release, hsame]
    unfold State.owners at hself ⊢
    split
    · next hop =>
      subst hop
      omega
    · omega
  case distinct =>
    rw [hbecomes.handles]
    exact h.distinct
  case frames =>
    intro frame hmem
    exact (List.mem_append.1 hmem).elim (haround.plain frame) (h.frames frame)
  case paired =>
    rw [teardowns_append, haround.teardowns_eq]
    intro u hu
    rcases List.mem_cons.1 hu with rfl | hu
    · rfl
    · exact h.paired u hu
  case once =>
    rw [teardowns_append, haround.teardowns_eq]
    exact List.nodup_cons.2 ⟨hidle, h.once⟩

/-- One of several references is released: the count goes down. -/
theorem Owned.release_shared (h : Owned lent ⟨s, .release o, stack⟩)
    (hpos : 0 < Machine.owners lent ⟨s, .release o, stack⟩ o)
    (hmore : Machine.owners lent ⟨s, .release o, stack⟩ o ≠ 1) :
    Goes lent ⟨s, .release o, stack⟩ (Machine.release o s stack) ∧
      (Machine.release o s stack).Owned lent := by
  obtain ⟨t, hrelease, hstays, hkeeps⟩ := State.exists_release h.keeps hpos hmore
  have hmachine : Machine.release o s stack = ⟨t, .answer .done, stack⟩ := by
    unfold Machine.release
    rw [hrelease]
  rw [hmachine]
  refine ⟨.releases s t o stack hmore hstays, hkeeps.congr fun p => ?_, hstays.handles ▸ h.distinct,
    trivial, h.frames, h.paired, h.once⟩
  have hholds : t.heap.holds p = s.heap.holds p := Heap.holds_congr hstays.objects
  have hstayed : t.owners lent p = s.owners lent p := by
    rw [hstays.owners_eq, hholds]
    rfl
  show t.owners lent p + 0 + framesAfoot p stack = _
  simp only [owners_release]
  omega

/-- A release, and that every object still keeps to its owners. -/
theorem Owned.release (h : Owned lent ⟨s, .release o, stack⟩) :
    Goes lent ⟨s, .release o, stack⟩ (Machine.release o s stack) ∧
      (Machine.release o s stack).Owned lent := by
  by_cases hone : Machine.owners lent ⟨s, .release o, stack⟩ o = 1
  · exact h.release_last hone
  · refine h.release_shared ?_ hone
    rw [owners_release, if_pos rfl]
    omega

/-- A teardown ends: the object is buried. -/
theorem Owned.resume_teardown {answer : Answer} {t : Teardown}
    (h : Owned lent ⟨s, .answer answer, .teardown t :: stack⟩) :
    Goes lent ⟨s, .answer answer, .teardown t :: stack⟩
        (Machine.resume answer s stack (.teardown t)) ∧
      (Machine.resume answer s stack (.teardown t)).Owned lent := by
  obtain ⟨o, c⟩ := t
  obtain rfl : c = o := h.paired ⟨o, c⟩ List.mem_cons_self
  obtain ⟨hidle, honce⟩ := List.nodup_cons.1 h.once
  obtain ⟨_, _, _, _, hcell, _⟩ := h.keeps.going List.mem_cons_self
  have hresume : Machine.resume answer s stack (.teardown ⟨c, c⟩) =
      ⟨(s.onHeap (·.bury ⟨c, c⟩)).onStatistics (·.addDeallocation), .answer .done, stack⟩ := by
    rw [Machine.resume, State.finish_of_taken hcell rfl]
  rw [hresume]
  refine ⟨.finishes s c answer stack, (Heap.Keeps.bury h.keeps hidle).congr fun p => ?_, h.distinct,
    trivial, fun f hf => h.frames f (List.mem_cons_of_mem _ hf),
    fun u hu => h.paired u (List.mem_cons_of_mem _ hu), honce⟩
  show s.names.handles.uses p + (s.heap.bury ⟨c, c⟩).holds p + lent.count p + 0 + _ = _
  rw [Heap.holds_bury]
  exact congrArg _ (framesAfoot_cons rfl p stack).symm

/-- A copy is assigned to, if that means something for its value. -/
theorem Owned.resume_assigning {answer : Answer} {fresh : ObjectId} {literal : Literal}
    (h : Owned lent ⟨s, .answer answer, .assigning fresh literal :: stack⟩) :
    (Machine.resume answer s stack (.assigning fresh literal)).control = .halt .malformed ∨
      (Machine.resume answer s stack (.assigning fresh literal)).Owned lent := by
  cases ha : s.assign fresh literal with
  | none =>
    refine .inl ?_
    simp only [Machine.resume, assigned, ha]
    rfl
  | some t =>
    have hresume : Machine.resume answer s stack (.assigning fresh literal) =
        ⟨t, .answer (.made true), stack⟩ := by
      simp only [Machine.resume, assigned, ha]
      rfl
    have hnames : t.names = s.names := by
      obtain ⟨v, _, hmap⟩ := Option.bind_eq_some_iff.1 ha
      obtain ⟨v', _, rfl⟩ := Option.map_eq_some_iff.1 hmap
      rfl
    rw [hresume]
    refine .inr ⟨(Heap.Keeps.assign (p := fresh) h.keeps ha).1.congr fun p => ?_,
      hnames ▸ h.distinct, trivial, fun f hf => h.frames f (List.mem_cons_of_mem _ hf), h.paired,
      h.once⟩
    show t.names.handles.uses p + t.heap.holds p + lent.count p + 0 + _ = _
    rw [(Heap.Keeps.assign (p := p) h.keeps ha).2, hnames]
    exact congrArg _ (framesAfoot_cons rfl p stack).symm

/-- A frame that receives an answer. -/
theorem Owned.resume {answer : Answer} {frame : Frame}
    (h : Owned lent ⟨s, .answer answer, frame :: stack⟩) :
    Goes lent ⟨s, .answer answer, frame :: stack⟩ (Machine.resume answer s stack frame) ∧
      ((Machine.resume answer s stack frame).control = .halt .malformed ∨
        (Machine.resume answer s stack frame).Owned lent) := by
  have hplain := h.frames frame List.mem_cons_self
  have hframes : ∀ frame ∈ stack, frame.plain = true :=
    fun f hf => h.frames f (List.mem_cons_of_mem _ hf)
  cases frame with
  | teardown t => exact h.resume_teardown.imp_right .inr
  | barrier =>
    refine ⟨.passes s answer stack, .inr ⟨h.keeps.congr fun p => ?_, h.distinct, trivial, hframes,
      h.paired, h.once⟩⟩
    exact congrArg _ (framesAfoot_cons rfl p stack).symm
  | dropping rest cause =>
    cases cause with
    | some cause => cases hplain
    | none =>
      refine ⟨.continues s answer rest stack, .inr (.continueDropping _ h.keeps (fun p => ?_)
        h.distinct hframes h.paired h.once)⟩
      exact Nat.add_assoc _ _ _
  | assigning fresh literal => exact ⟨.assigns s answer fresh literal stack, h.resume_assigning⟩
  | _ => cases hplain

/-- The references that are lent after a transition. -/
def lending (lent : List ObjectId) (m : Machine) : List ObjectId :=
  match m.control with
  | .perform step => m.state.lending lent step
  | _ => lent

/-- What the next transition asks for, if it begins a step. -/
def Permitted (lent : List ObjectId) (m : Machine) : Prop :=
  match m.control with
  | .perform step => m.state.Permits lent step
  | _ => True

instance (lent : List ObjectId) (m : Machine) : Decidable (m.Permitted lent) := by
  unfold Permitted
  split <;> infer_instance

/-- A transition begins a step or goes on with the cascade of one. -/
theorem Owned.transition (h : m.Owned lent) (hp : m.Permitted lent) (hn : m.next? = some m') :
    (∃ s step, m = ⟨s, .perform step, []⟩ ∧ s.Owned lent ∧ Begins lent s step m') ∨
      m.lending lent = lent ∧ Goes lent m m' ∧
        (m'.control = .halt .malformed ∨ m'.Owned lent) := by
  obtain ⟨s, control, stack⟩ := m
  cases control with
  | perform step =>
    cases hn
    obtain ⟨hstep, rfl⟩ := h.plain
    have howned : s.Owned lent := ⟨h.keeps, h.distinct⟩
    exact .inl ⟨s, step, rfl, howned, howned.begins step hstep hp⟩
  | release o =>
    cases hn
    exact .inr ⟨rfl, h.release.1, .inr h.release.2⟩
  | answer answer =>
    cases stack with
    | nil => cases hn
    | cons frame stack =>
      cases hn
      exact .inr ⟨rfl, h.resume⟩
  | unwind cause => exact h.plain.elim
  | halt halt => cases hn

/-- **Every object keeps to its owners**, from transition to transition. -/
theorem Owned.next (h : m.Owned lent) (hp : m.Permitted lent) (hn : m.next? = some m') :
    m'.control = .halt .malformed ∨ m'.Owned (m.lending lent) := by
  rcases h.transition hp hn with ⟨s, step, rfl, _, hbegins⟩ | ⟨hlending, _, howned⟩
  · exact hbegins.2
  · rwa [hlending]

end Machine
end Custody
