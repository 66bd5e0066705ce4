import Custody.Proofs.Boundary

/-! Steps on handles that are refused.

The type of a handle rules out that its reference is given away or lost
(`State.Allows`). It does not rule out that a count has no room or that an allocator grants
nothing: then the step ends the process, or unwinds and leaves every object and every handle
as it was (`State.Owned.refused`). A copy on write that fails halfway drops what it has
taken. -/
namespace Custody

variable {lent : List ObjectId} {s t : State} {o : ObjectId} {owners : ObjectId → Nat}

/-! ### What the type of a handle rules out -/

/-- No handle is overwritten, gives its reference away, is made of one that was taken, or is moved
into its own value. Only a node is given children. -/
def State.AllowsAction (s : State) : HandleAction → Prop
  | .create handle kind literal =>
    (s.names.handles.find? handle = none ∨ handle ∈ literal.childNames) ∧
      (kind = .node ∨ literal.childNames = [])
  | .clone _ copy => s.names.handles.find? copy = none
  | .push handle child => handle ≠ child
  | .intoObject _ _ | .fromObject _ _ => False
  | _ => True

def State.Allows (s : State) : Step → Prop
  | .act (.handle action) => s.AllowsAction action
  | .dropHandle _ | .makeUnique _ _ => True
  | _ => False

instance (s : State) (action : HandleAction) : Decidable (s.AllowsAction action) :=
  match action with
  | .create _ _ _ | .clone _ _ | .push _ _ | .intoObject _ _ | .fromObject _ _ | .get _ | .set _ _
  | .count _ | .isUnique _ | .equal _ _ | .sameObject _ _ | .write _ _ | .asObject _ _ => by
    dsimp only [State.AllowsAction]
    infer_instance

instance (s : State) (step : Step) : Decidable (s.Allows step) :=
  match step with
  | .act (.handle action) => inferInstanceAs (Decidable (s.AllowsAction action))
  | .dropHandle _ | .makeUnique _ _ => .isTrue trivial
  | .act (.object _) | .act (.log _) | .act (.setting _) | .act (.panic _) | .allocate _ _ _ _ _
  | .assemble _ _ _ | .reinstall _ _ | .newCell _ _ | .describe _ | .call _ _ _ _
  | .race _ _ _ _ _ | .attempt _ => .isFalse id

namespace State

theorem onHandles_of_allows {step : Step} (h : s.Allows step) : step.onHandles = true := by
  cases step with
  | act action => cases action <;> first | rfl | exact h.elim
  | dropHandle handle => rfl
  | makeUnique handle literal => rfl
  | _ => exact h.elim

theorem lending_of_allows {step : Step} (h : s.Allows step) : s.lending lent step = lent := by
  cases step with
  | act action =>
    cases action with
    | handle action => cases action <;> first | rfl | exact h.elim
    | _ => exact h.elim
  | _ => rfl

/-! ### Refused creations -/

/-- Every kind of value fits into a region. -/
theorem ofPayload?_size (kind : Kind) : Layout.ofPayload? kind.size ≠ none := by
  cases kind <;> decide

/-- A refusal ends the process. -/
theorem halts_hold {v : Value} (h : s.grants v.kind = false) :
    ∃ halt t, s.hold v = .halted halt t := by
  unfold grants at h
  unfold hold allocate
  cases hlayout : Layout.ofPayload? v.kind.size with
  | none => exact absurd hlayout (ofPayload?_size v.kind)
  | some layout =>
    rw [hlayout] at h
    simp only at h ⊢
    cases hr : s.requestRegion s.allocators.installed layout with
    | halted halt t => exact ⟨halt, t, rfl⟩
    | unwound cause t => exact absurd hr (requestRegion_settles _ _ _ cause t)
    | returned granted t =>
      rw [hr] at h
      obtain rfl : granted = false := h
      exact ⟨_, t, rfl⟩

end State

namespace Machine

/-- References that were taken for a copy go back, and the cause goes on. -/
theorem run_cleaning {cause : Cause} (os : List ObjectId)
    (hk : t.heap.Keeps [] fun p => owners p + os.count p) (hos : ∀ o ∈ os, 0 < owners o) :
    ∃ u, (continueDropping none t [.cleaning cause] os).run = ⟨u, .unwind cause, []⟩ ∧
      u.heap.objects = t.heap.objects ∧ u.names.handles = t.names.handles ∧
      u.heap.Keeps [] owners := by
  induction os generalizing t with
  | nil =>
    have hnext : (⟨t, .answer .done, [.cleaning cause]⟩ : Machine).next? =
        some ⟨t, .unwind cause, []⟩ := rfl
    exact ⟨t, (run_of_next? hnext).trans (run_of_rest rfl), rfl, rfl, hk⟩
  | cons o rest ih =>
    have hcount (p : ObjectId) : (o :: rest).count p = rest.count p + if o = p then 1 else 0 := by
      rw [List.count_cons]
      simp only [beq_iff_eq]
    have hpos := hos o List.mem_cons_self
    have hself := hcount o
    rw [if_pos rfl] at hself
    obtain ⟨u, hrelease, hstays, hu⟩ := State.exists_release hk (o := o) (by omega) (by omega)
    have hkeeps : u.heap.Keeps [] fun p => owners p + rest.count p := hu.congr fun p => by
      have := hcount p
      omega
    obtain ⟨w, hrun, hobjects, hhandles, hw⟩ := ih hkeeps fun p hp =>
      hos p (List.mem_cons_of_mem _ hp)
    have hnext : (continueDropping none t [.cleaning cause] (o :: rest)).next? =
        some ⟨u, .answer .done, [.dropping rest none, .cleaning cause]⟩ := by
      show some (Machine.release o t _) = _
      unfold Machine.release
      rw [hrelease]
      rfl
    have hagain : (⟨u, .answer .done, [.dropping rest none, .cleaning cause]⟩ : Machine).next? =
        some (continueDropping none u [.cleaning cause] rest) := rfl
    exact ⟨w, (run_of_next? hnext).trans ((run_of_next? hagain).trans hrun),
      hobjects.trans hstays.objects, hhandles.trans hstays.handles, hw⟩

end Machine

/-! ### Refused steps -/

/-- The machine has stopped the process, or unwinds and has left everything as it was. -/
inductive Refused (lent : List ObjectId) (s : State) (m : Machine) : Prop
  | halts (halt : Halt) (control : m.control = .halt halt)
  | unwinds (cause : Cause) (t : State) (machine : m = ⟨t, .unwind cause, []⟩)
      (objects : t.heap.objects = s.heap.objects) (handles : t.names.handles = s.names.handles)
      (owned : t.Owned lent)

namespace State

/-- Objects and handles stay, and so do their owners. -/
theorem Owned.of_objects (h : s.Owned lent) (hobjects : t.heap.objects = s.heap.objects)
    (hhandles : t.names.handles = s.names.handles) (hk : t.heap.Keeps [] (s.owners lent)) :
    t.Owned lent := by
  refine ⟨hk.congr fun p => ?_, hhandles ▸ h.distinct⟩
  unfold owners
  rw [hhandles, Heap.holds_congr hobjects]

section Refused

variable (h : s.Owned lent)
include h

theorem Owned.refused_action (action : HandleAction) (ha : s.AllowsAction action)
    (hp : ¬ s.PermitsAction lent action) :
    Refused lent s (Machine.settle (s.performHandle action) []) := by
  cases action with
  | create handle kind literal =>
    have hgrants : s.grants kind = false := by
      by_contra hne
      exact hp ⟨ha.1, ha.2, Bool.of_not_eq_false hne⟩
    simp only [performHandle, createHandle]
    cases htake : s.takeHandles literal.childNames with
    | none => exact .halts .malformed rfl
    | some taken =>
      obtain ⟨os, t⟩ := taken
      obtain ⟨_, _, _, _, hallocators⟩ := takes_of_takeHandles h.distinct htake
      simp only [given]
      cases hv : literal.value? kind os with
      | none => exact .halts .malformed rfl
      | some v =>
        have hrefused : t.grants v.kind = false := by
          rw [Literal.kind_value? hv, grants_congr hallocators]
          exact hgrants
        obtain ⟨halt, u, hhold⟩ := halts_hold hrefused
        simp only [hhold]
        exact .halts halt rfl
  | clone handle copy =>
    simp only [performHandle, withHandle]
    cases ho : s.names.handles.find? handle with
    | none => exact .halts .malformed rfl
    | some o =>
      have hfull : ¬ s.owners lent o < maxCount.toNat := fun hroom =>
        hp ⟨ha, fun p hp => by rw [Option.mem_def, ho] at hp; cases hp; exact hroom⟩
      simp only [given]
      rcases retain_full h.keeps (Owned.pos ho) hfull with
        ⟨cause, t, hretain, hheap, hnames⟩ | ⟨halt, t, hretain⟩
      · simp only [hretain]
        refine .unwinds cause t rfl (by rw [hheap]) (by rw [hnames]) ?_
        exact h.of_objects (by rw [hheap]) (by rw [hnames]) (hheap ▸ h.keeps)
      · simp only [hretain]
        exact .halts halt rfl
  | fromObject name handle => exact ha.elim
  | _ => exact absurd trivial hp

/-- A copy that cannot be had leaves the old value to the handle. -/
theorem Owned.refused_copy {handle : String} (hf : s.names.handles.find? handle = some o)
    (literal : Literal) (hp : ¬ s.Permits lent (.makeUnique handle literal)) :
    Refused lent s (Machine.copyOnWrite handle o literal s []).run := by
  have hpos : 0 < s.owners lent o := Owned.pos hf
  obtain ⟨size, v, count, hobject, _⟩ := h.keeps.live hpos
  have hvalue := Heap.value?_of_object? hobject
  have hchildren : ∀ c ∈ v.children, 0 < s.owners lent c :=
    fun c hc => State.owners_pos_of_child hvalue hc
  have hcases := retainEach_cases h.keeps v.children hchildren
  simp only [Machine.copyOnWrite, hvalue]
  generalize s.retainEach v.children = out at hcases
  cases hcases with
  | none retained halt t full => exact .halts halt (by rw [Machine.run_of_rest rfl])
  | some retained cause t full sub objects handles keeps =>
    obtain ⟨u, hrun, hobjects, hhandles, hu⟩ :=
      Machine.run_cleaning retained keeps fun c hc => hchildren c (sub c hc)
    refine .unwinds cause u hrun (hobjects.trans objects) (hhandles.trans handles) ?_
    exact h.of_objects (hobjects.trans objects) (hhandles.trans handles) hu
  | all t stays allocators keeps =>
    -- The counts had room, so it is the allocator that refuses.
    have hroom : ∀ c ∈ v.children, s.owners lent c + v.children.count c ≤ maxCount.toNat := by
      intro c hc
      have := hchildren c hc
      obtain ⟨cell, _, hcount⟩ := keeps.opens (o := c) (by omega)
      have := cell.count.toNat_lt
      have hmax : maxCount.toNat = 4294967295 := rfl
      omega
    have hgrants : t.grants v.kind = false := by
      rw [grants_congr allocators]
      by_contra hne
      refine hp fun p hp _ w hw => ?_
      rw [Option.mem_def, hf] at hp
      cases hp
      rw [Option.mem_def, hvalue] at hw
      cases hw
      exact ⟨Bool.of_not_eq_false hne, hroom⟩
    obtain ⟨halt, u, hhold⟩ := halts_hold hgrants
    simp only [hhold]
    exact .halts halt (by rw [Machine.run_of_rest rfl])

/-- **A step that is refused leaves every object and every handle as it was**, if the process goes
on at all. -/
theorem Owned.refused (step : Step) (ha : s.Allows step) (hp : ¬ s.Permits lent step) :
    Refused lent s (Machine.start step s).run := by
  have hstart : (Machine.start step s).run = (Machine.perform s [] step).run :=
    Machine.run_of_next? rfl
  rw [hstart]
  cases step with
  | act action =>
    cases action with
    | handle action =>
      have hrest : (Machine.perform s [] (.act (.handle action))).next? = none := by
        show (Machine.settle (s.performHandle action) []).next? = none
        cases s.performHandle action <;> rfl
      rw [Machine.run_of_rest hrest]
      exact h.refused_action action ha hp
    | _ => exact ha.elim
  | dropHandle handle => exact absurd trivial hp
  | makeUnique handle literal =>
    cases ho : s.names.handles.find? handle with
    | none =>
      refine absurd (fun o hmem => ?_) hp
      rw [Option.mem_def, ho] at hmem
      cases hmem
    | some o =>
      have hshared : s.owners lent o ≠ 1 := by
        intro hone
        refine hp fun p hmem hne => ?_
        rw [Option.mem_def, ho] at hmem
        cases hmem
        exact absurd hone hne
      have hperform : Machine.perform s [] (.makeUnique handle literal) =
          Machine.copyOnWrite handle o literal s [] := by
        simp only [Machine.perform, ho, Machine.makeUnique,
          isUnique_of_keeps h.keeps (Owned.pos ho), hshared, decide_false]
      rw [hperform]
      exact h.refused_copy ho literal hp
  | _ => exact ha.elim

end Refused
end State
end Custody
