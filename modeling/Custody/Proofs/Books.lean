import Custody.Proofs.Cascade

/-! What statistics tell of handles.

While a step on handles goes on, the statistics count one allocation for every object and one
deallocation for every object that is gone, and no fault is counted. -/
namespace Custody

variable {lent : List ObjectId} {base s t : State} {o : ObjectId} {m m' : Machine}

/-! ### Objects that are gone -/

/-- How many of some objects are gone. -/
def goneCount (objects : List Object) : Nat :=
  total (fun object => object.link.isNone.toNat) objects

/-- One object changes, which may be gone then. -/
theorem goneCount_modify {h : Heap} {object : Object} (ho : h.object? o = some object)
    (f : Object → Object) : goneCount (h.objects.modify o f) + object.link.isNone.toNat =
      goneCount h.objects + (f object).link.isNone.toNat := by
  have := total_modify (fun object => object.link.isNone.toNat) f h.objects o
  have hget : h.objects[o]? = some object := ho
  rw [hget] at this
  exact this

theorem goneCount_setContents {h : Heap} {object : Object} (ho : h.object? o = some object)
    (contents : Contents) : goneCount (h.setContents o contents).objects = goneCount h.objects :=
  Nat.add_right_cancel (goneCount_modify ho fun object => {object with contents})

theorem goneCount_append (objects : List Object) (size : UInt64) (c : CellId) (contents : Contents) :
    goneCount (objects ++ [⟨size, some c, contents⟩]) = goneCount objects := by
  simp [goneCount, total_append]

/-! ### Transitions -/

/-- A state's statistics tell of its objects what has happened since `base`, where there were none,
and no fault was reported. -/
structure State.Books (base s : State) : Prop where
  faults : s.faults = base.faults
  allocations : s.statistics.allocations =
    base.statistics.allocations + UInt64.ofNat s.heap.objects.length
  deallocations : s.statistics.deallocations =
    base.statistics.deallocations + UInt64.ofNat (goneCount s.heap.objects)

namespace State

/-- Objects change, or one is added. -/
theorem Becomes.books {objects : List Object} {handles : Bindings ObjectId} (allocated : Nat)
    (h : s.Becomes t objects handles (UInt64.ofNat allocated)) (hs : base.Books s)
    (hlength : objects.length = s.heap.objects.length + allocated)
    (hgone : goneCount objects = goneCount s.heap.objects) : base.Books t where
  faults := h.faults.trans hs.faults
  allocations := by
    rw [h.allocations, hs.allocations, h.objects, hlength, UInt64.ofNat_add, UInt64.add_assoc]
  deallocations := by
    rw [h.deallocations, hs.deallocations, h.objects, hgone]

theorem Stays.books (h : s.Stays t) (hs : base.Books s) : base.Books t :=
  Becomes.books 0 h hs rfl rfl

end State

theorem Performs.books {step : Step} (h : Performs lent s step m) (hs : base.Books s) :
    m.control = .halt .malformed ∨ base.Books m.state := by
  have hset (o : ObjectId) (contents : Contents) :
      (s.heap.setContents o contents).objects.length = s.heap.objects.length := by
    simp [Heap.setContents, Heap.updateObject]
  cases h with
  | halts => exact .inl rfl
  | drops => exact .inr ⟨hs.faults, hs.allocations, hs.deallocations⟩
  | looks action answer t looks stays => exact .inr (stays.books hs)
  | creates handle kind literal os rest v t takes absent value children becomes =>
    exact .inr (becomes.books 1 hs (by simp) (goneCount_append _ _ _ _))
  | clones handle copy o t found absent becomes =>
    exact .inr (becomes.books 0 hs rfl rfl)
  | assigns step answer handle literal o size v v' t mode found unique value updated becomes =>
    exact .inr (becomes.books 0 hs (hset _ _) (goneCount_setContents value _))
  | pushes handle child o c size label children t found unique foundChild value becomes =>
    exact .inr (becomes.books 0 hs (hset _ _) (goneCount_setContents value _))
  | lends handle name o t found becomes => exact .inr (becomes.books 0 hs rfl rfl)
  | adopts name handle o t found mem absent becomes =>
    exact .inr (becomes.books 0 hs rfl rfl)
  | copies handle literal o size v t found shared value becomes =>
    exact .inr (becomes.books 1 hs (by simp) (goneCount_append _ _ _ _))

/-- Not even a step that ends the script changes how faults are handled. -/
theorem Performs.faults {step : Step} (h : Performs lent s step m) : m.state.faults = s.faults := by
  cases h with
  | halts step t faults => exact faults
  | drops => rfl
  | looks action answer t looks stays => exact stays.faults
  | creates handle kind literal os rest v t takes absent value children becomes =>
    exact becomes.faults
  | clones handle copy o t found absent becomes => exact becomes.faults
  | assigns step answer handle literal o size v v' t mode found unique value updated becomes =>
    exact becomes.faults
  | pushes handle child o c size label children t found unique foundChild value becomes =>
    exact becomes.faults
  | lends handle name o t found becomes => exact becomes.faults
  | adopts name handle o t found mem absent becomes => exact becomes.faults
  | copies handle literal o size v t found shared value becomes => exact becomes.faults

theorem Goes.faults (h : Goes lent m m') : m'.state.faults = m.state.faults := by
  have hdropping (t : State) (stack : List Frame) (os : List ObjectId) :
      (Machine.continueDropping none t stack os).state = t := by
    cases os <;> rfl
  cases h with
  | releases s t o stack more stays => exact stays.faults
  | begins s t o stack frames size v cell last finalizer value becomes around =>
    rw [hdropping]
    exact becomes.faults
  | continues s answer rest stack => rw [hdropping]
  | assigns s answer fresh literal stack =>
    cases ha : s.assign fresh literal with
    | none => simp [Machine.assigned, ha, State.given, Machine.settle]
    | some t =>
      obtain ⟨v, _, hmap⟩ := Option.bind_eq_some_iff.1 ha
      obtain ⟨v', _, rfl⟩ := Option.map_eq_some_iff.1 hmap
      simp only [Machine.assigned, ha]
      rfl
  | _ => rfl

theorem Goes.books (h : Goes lent m m') (howned : m.Owned lent) (hs : base.Books m.state) :
    m'.control = .halt .malformed ∨ base.Books m'.state := by
  have hset (h : Heap) (o : ObjectId) (f : Object → Object) :
      (h.updateObject o f).objects.length = h.objects.length := by
    simp [Heap.updateObject]
  have hdropping {t : State} (ht : base.Books t) (stack : List Frame) (os : List ObjectId) :
      base.Books (Machine.continueDropping none t stack os).state := by
    cases os <;> exact ht
  cases h with
  | releases s t o stack more stays => exact .inr (stays.books hs)
  | begins s t o stack frames size v cell last finalizer value becomes around =>
    refine .inr (hdropping ?_ _ _)
    exact becomes.books 0 hs (hset _ _ _) (goneCount_setContents value _)
  | finishes s o answer stack =>
    obtain ⟨_, _, hobject, _⟩ := howned.keeps.going List.mem_cons_self
    have hgone : goneCount (s.heap.bury ⟨o, o⟩).objects = goneCount s.heap.objects + 1 :=
      goneCount_modify hobject fun object => {object with link := none}
    refine .inr ⟨hs.faults, hs.allocations.trans ?_, ?_⟩
    · exact congrArg (fun n => base.statistics.allocations + UInt64.ofNat n) (hset _ _ _).symm
    · show s.statistics.deallocations + 1 =
        base.statistics.deallocations + UInt64.ofNat (goneCount (s.heap.bury ⟨o, o⟩).objects)
      rw [hgone, UInt64.ofNat_add, ← UInt64.add_assoc, ← hs.deallocations]
      rfl
  | passes s answer stack => exact .inr hs
  | continues s answer rest stack => exact .inr (hdropping hs _ _)
  | assigns s answer fresh literal stack =>
    cases ha : s.assign fresh literal with
    | none =>
      refine .inl ?_
      simp only [Machine.assigned, ha]
      rfl
    | some t =>
      obtain ⟨v, hv, hmap⟩ := Option.bind_eq_some_iff.1 ha
      obtain ⟨v', _, rfl⟩ := Option.map_eq_some_iff.1 hmap
      obtain ⟨object, hobject, _⟩ := Option.bind_eq_some_iff.1 hv
      simp only [Machine.assigned, ha]
      refine .inr ⟨hs.faults, hs.allocations.trans ?_, hs.deallocations.trans ?_⟩
      · exact congrArg (fun n => base.statistics.allocations + UInt64.ofNat n) (hset _ _ _).symm
      · exact congrArg (fun n => base.statistics.deallocations + UInt64.ofNat n)
          (goneCount_setContents hobject _).symm

theorem Machine.Owned.books (h : m.Owned lent) (hp : m.Permitted lent) (hn : m.next? = some m')
    (hs : base.Books m.state) : m'.control = .halt .malformed ∨ base.Books m'.state := by
  rcases h.transition hp hn with ⟨s, step, rfl, _, hbegins⟩ | ⟨_, hgoes, _⟩
  · exact hbegins.1.books hs
  · exact hgoes.books h hs

theorem Machine.Owned.faults (h : m.Owned lent) (hp : m.Permitted lent) (hn : m.next? = some m') :
    m'.state.faults = m.state.faults := by
  rcases h.transition hp hn with ⟨s, step, rfl, _, hbegins⟩ | ⟨_, hgoes, _⟩
  · exact hbegins.1.faults
  · exact hgoes.faults

end Custody
