import Custody.Proofs.Outlay

/-! What an allocation charges.

A process whose objects all come from the system allocator has three counts of them: the
allocator's bytes, which are checked, the bytes of the statistics, which may wrap around, and the
objects that are there. Each allocation charges the allocator for the payload and the slot in front
of it, and since that sum never leaves 64 bits, neither does the smaller one of the statistics
(`Outlay.Exact`). Whatever is done to the objects afterwards charges nothing, so what has been
charged never goes down. -/
namespace Custody

/-- Whether a step makes an object in memory of the global allocator. -/
def Step.allocates : Step → Bool
  | .allocate _ _ _ none _ | .makeUnique _ _ | .act (.handle (.create _ _ _)) => true
  | _ => false

/-- Whether a step makes an object by hand or in other memory, or changes the global allocator. -/
def Step.evades : Step → Bool
  | .assemble _ _ _ | .allocate _ _ _ (some _) _ | .act (.setting (.installAllocator _)) => true
  | _ => false

namespace Outlay

/-- The outlay with an object more. -/
def spent (e : Outlay) (size : UInt64) : Outlay :=
  { e with
    bytes := e.bytes + (size + 8)
    regions := e.regions + 1
    allocations := e.allocations + 1
    payloadBytes := e.payloadBytes + size
    sizes := e.sizes ++ [size] }

/-- A region for a payload of this size can be, and its bytes can be counted. -/
structure Affords (e : Outlay) (size : UInt64) : Prop where
  small : size.toNat ≤ (1 <<< 63) - 24
  fits : e.bytes.toNat + (size + 8).toNat < UInt64.size

/-- An object more, or none. -/
inductive Grows : Outlay → Outlay → Prop where
  | same (e : Outlay) : Grows e e
  | more {e : Outlay} {size : UInt64} (h : e.Affords size) : Grows e (e.spent size)

theorem Grows.of_eq {e e' : Outlay} (h : e' = e) : e.Grows e' :=
  h ▸ .same e

/-! ### The counts agree -/

theorem toNat_add_slot {size : UInt64} (h : size.toNat ≤ (1 <<< 63) - 24) :
    (size + 8).toNat = size.toNat + 8 :=
  toNat_add_of_lt (Nat.lt_of_le_of_lt (Nat.add_le_add_right h 8) (by decide))

/-- Every object was charged to the system allocator once, with the slot, and nothing has wrapped
around. -/
structure Exact (e : Outlay) : Prop where
  installed : e.installed = none
  small : ∀ size ∈ e.sizes, size.toNat ≤ (1 <<< 63) - 24
  account : Quota.Balances ⟨0, e.bytes, e.regions⟩ (e.sizes.map (· + 8))
  regions : e.regions = e.allocations
  payload : e.payloadBytes.toNat = total UInt64.toNat e.sizes

variable {e e' : Outlay} {size : UInt64}

theorem total_sizes (objects : List Object) :
    total UInt64.toNat (objects.map (·.size)) = total (fun object => object.size.toNat) objects := by
  induction objects with
  | nil => rfl
  | cons object rest ih => exact congrArg (object.size.toNat + ·) ih

theorem total_slots {sizes : List UInt64} (h : ∀ size ∈ sizes, size.toNat ≤ (1 <<< 63) - 24) :
    total UInt64.toNat (sizes.map (· + 8)) = total UInt64.toNat sizes + 8 * sizes.length := by
  induction sizes with
  | nil => rfl
  | cons size rest ih =>
    obtain ⟨hsize, hrest⟩ := List.forall_mem_cons.1 h
    have := ih hrest
    have := toNat_add_slot hsize
    simp only [List.map_cons, total_cons, List.length_cons]
    omega

namespace Exact

theorem bytes_eq (h : e.Exact) :
    e.bytes.toNat = e.payloadBytes.toNat + 8 * e.allocations.toNat := by
  have hlength : e.allocations.toNat = e.sizes.length := by
    rw [← h.regions]
    exact h.account.allocations.trans (List.length_map ..)
  rw [h.payload, hlength, ← total_slots h.small]
  exact h.account.bytes

theorem spent (h : e.Exact) (hafford : e.Affords size) : (e.spent size).Exact where
  installed := h.installed
  small := by
    intro x hx
    rcases List.mem_append.1 hx with hx | hx
    · exact h.small x hx
    · rw [List.mem_singleton.1 hx]
      exact hafford.small
  account := by
    have hne : size + 8 ≠ 0 := fun hzero => by
      have hslot := toNat_add_slot hafford.small
      rw [hzero] at hslot
      exact absurd hslot.symm (Nat.succ_ne_zero _)
    have hcharged := h.account.charge hne hafford.fits
    show Quota.Balances _ ((e.sizes ++ [size]).map (· + 8))
    rw [List.map_append]
    exact hcharged
  regions := congrArg (· + 1) h.regions
  payload := by
    have hslot := toNat_add_slot hafford.small
    have hfits := hafford.fits
    have hbytes := h.bytes_eq
    have hpayload : (e.payloadBytes + size).toNat = e.payloadBytes.toNat + size.toNat :=
      toNat_add_of_lt (by omega)
    show (e.payloadBytes + size).toNat = total UInt64.toNat (e.sizes ++ [size])
    rw [hpayload, h.payload, total_append, total_cons, total_nil, Nat.add_zero]

theorem grows (h : e.Exact) (hgrows : e.Grows e') : e'.Exact := by
  cases hgrows with
  | same => exact h
  | more hafford => exact h.spent hafford

end Exact

theorem Grows.bytes_le (h : e.Grows e') : e.bytes ≤ e'.bytes := by
  cases h with
  | same => exact UInt64.le_refl _
  | more hafford =>
    have hsum : (e.bytes + (_ + 8)).toNat = e.bytes.toNat + _ := toNat_add_of_lt hafford.fits
    rw [UInt64.le_iff_toNat_le]
    exact Nat.le_trans (Nat.le_add_right _ _) (Nat.le_of_eq hsum.symm)

end Outlay

/-! ### Allocations -/

namespace State

open Outcome

variable {s t : State} {size : UInt64} {contents : Contents} {finalizer : Option Finalizer}

theorem ofPayload?_of_small (h : size.toNat ≤ (1 <<< 63) - 24) :
    Layout.ofPayload? size = some ⟨size + 8, 16⟩ := by
  have hfits : Layout.slotSize + size.toNat ≤ Layout.maxRegion := by
    have : Layout.maxRegion = (1 <<< 63) - 16 := rfl
    have : Layout.slotSize = 8 := rfl
    omega
  have hsize : UInt64.ofNat (Layout.slotSize + size.toNat) = size + 8 := by
    rw [Nat.add_comm, UInt64.ofNat_add, UInt64.ofNat_toNat]
    rfl
  rw [Layout.ofPayload?, if_pos hfits, hsize]
  rfl

theorem ofPayload?_of_large (h : (1 <<< 63) - 24 < size.toNat) :
    Layout.ofPayload? size = none := by
  have hlarge : ¬ Layout.slotSize + size.toNat ≤ Layout.maxRegion := by
    have : Layout.maxRegion = (1 <<< 63) - 16 := rfl
    have : Layout.slotSize = 8 := rfl
    omega
  rw [Layout.ofPayload?, if_neg hlarge]

/-- Whether the system allocator has memory for a payload of this size, with its slot. -/
def supplies (s : State) (size : UInt64) : Bool :=
  (s.allocators.system.request (s.allocators.memory (size + 8)) (size + 8)).1

/-- A fault that throws a finalizer away charges nothing. -/
theorem outlay_dismissed (f : Fault) (finalizer : Option Finalizer) (s : State) :
    ((s.report f).whenUnwinding (·.discard finalizer) : Outcome α).state.outlay = s.outlay := by
  have hreport := outlay_report (α := α) f s
  cases hout : (s.report f : Outcome α) with
  | returned a t | halted halt t =>
    rw [hout] at hreport
    exact hreport
  | unwound cause t =>
    rw [hout] at hreport
    exact (outlay_discard finalizer t).trans hreport

/-- A size that no region can have is a fault, and that is all. -/
theorem allocate_of_large (h : (1 <<< 63) - 24 < size.toNat) (provider : Option AllocatorId) :
    s.allocate provider size contents finalizer =
      (s.report (.layoutOverflow size)).whenUnwinding (·.discard finalizer) := by
  rw [allocate, ofPayload?_of_large h]

theorem requestRegion_system (layout : Layout) (s : State) :
    s.requestRegion none layout =
      let (granted, system) :=
        s.allocators.system.request (s.allocators.memory layout.size) layout.size
      .returned granted {s with allocators := {s.allocators with system}} := rfl

/-- A refusal stops the process as it stands. -/
theorem allocate_of_refused (hsystem : s.allocators.installed = none)
    (h : size.toNat ≤ (1 <<< 63) - 24) (hrefused : s.supplies size = false) :
    s.allocate s.allocators.installed size contents finalizer = .halted .aborted s := by
  have hrequest : s.allocators.system.request (s.allocators.memory (size + 8)) (size + 8) =
      (false, s.allocators.system) := Prod.ext hrefused (Quota.request_of_refused hrefused)
  rw [hsystem]
  simp only [allocate, ofPayload?_of_small h, requestRegion_system, hrequest]
  rfl

/-- A process with an object more, which the system allocator was charged for. -/
def furnish (size : UInt64) (contents : Contents) (finalizer : Option Finalizer) (s : State) :
    State :=
  (({s with
    heap := (s.heap.addObject size contents finalizer).2
    allocators := {s.allocators with system := s.allocators.system.charged (size + 8)}
    }).onStatistics (·.addAllocation size)).trace .created s.heap.objects.length 0

theorem allocate_of_granted (hsystem : s.allocators.installed = none)
    (h : size.toNat ≤ (1 <<< 63) - 24) (hgranted : s.supplies size = true) :
    s.allocate s.allocators.installed size contents finalizer =
      .returned s.heap.objects.length (s.furnish size contents finalizer) := by
  have hrequest : s.allocators.system.request (s.allocators.memory (size + 8)) (size + 8) =
      (true, s.allocators.system.charged (size + 8)) :=
    Prod.ext hgranted (Quota.request_of_granted hgranted)
  rw [hsystem]
  simp only [allocate, ofPayload?_of_small h, requestRegion_system, hrequest]
  rfl

theorem outlay_furnish (size : UInt64) (contents : Contents) (finalizer : Option Finalizer)
    (s : State) : (s.furnish size contents finalizer).outlay = s.outlay.spent size := by
  unfold outlay Outlay.spent
  simp only [furnish, trace, log, onStatistics, Heap.sizes_addObject]
  rfl

theorem affords_of_granted (h : size.toNat ≤ (1 <<< 63) - 24) (hgranted : s.supplies size = true) :
    s.outlay.Affords size :=
  ⟨h, (Quota.granted_iff.1 hgranted).1⟩

theorem grows_allocate (hsystem : s.allocators.installed = none) (size : UInt64)
    (contents : Contents) (finalizer : Option Finalizer) :
    s.outlay.Grows
      (s.allocate s.allocators.installed size contents finalizer).state.outlay := by
  rcases Nat.lt_or_ge ((1 <<< 63) - 24) size.toNat with hlarge | hsmall
  · rw [allocate_of_large hlarge]
    exact .of_eq (outlay_dismissed _ finalizer s)
  · cases hgranted : s.supplies size with
    | false =>
      rw [allocate_of_refused hsystem hsmall hgranted]
      exact .same _
    | true =>
      rw [allocate_of_granted hsystem hsmall hgranted]
      show s.outlay.Grows (s.furnish size contents finalizer).outlay
      rw [outlay_furnish]
      exact .more (affords_of_granted hsmall hgranted)

theorem grows_andThen {out : Outcome α} {next : α → State → Outcome β}
    (h : s.outlay.Grows out.state.outlay)
    (hnext : ∀ a t, (next a t).state.outlay = t.outlay) :
    s.outlay.Grows (out.andThen next).state.outlay := by
  cases out with
  | returned a t =>
    rw [andThen_returned, hnext]
    exact h
  | unwound cause t => exact h
  | halted halt t => exact h

theorem grows_hold (hsystem : s.allocators.installed = none) (v : Value) :
    s.outlay.Grows (s.hold v).state.outlay :=
  grows_andThen (grows_allocate hsystem _ _ _) fun o t => outlay_map (outlay_retain o t) _

theorem grows_createHandle (hsystem : s.allocators.installed = none) (handle : String)
    (kind : Kind) (literal : Literal) :
    s.outlay.Grows (s.createHandle handle kind literal).state.outlay := by
  unfold createHandle
  cases htaken : s.takeHandles literal.childNames with
  | none => exact .same _
  | some taken =>
    obtain ⟨os, t⟩ := taken
    have hsame : t.outlay = s.outlay := outlay_takeHandles htaken
    have hsystem' : t.allocators.installed = none := (congrArg Outlay.installed hsame).trans hsystem
    rw [← hsame]
    simp only [given]
    split
    · exact grows_andThen (grows_hold hsystem' _) fun _ _ => rfl
    · exact .same _

end State

/-! ### Transitions -/

namespace Machine

open State Outcome

variable {m m' : Machine} {s : State} {stack : List Frame}

theorem grows_copyOnWrite (hsystem : s.allocators.installed = none) (handle : String)
    (o : ObjectId) (literal : Literal) (stack : List Frame) :
    s.outlay.Grows (copyOnWrite handle o literal s stack).state.outlay := by
  unfold copyOnWrite
  split
  · exact .same _
  · next v _ =>
    have hretain := outlay_retainEach v.children s
    split
    · next retained cause u hout =>
      rw [hout] at hretain
      exact .of_eq ((outlay_continueDropping _ _ _ _).trans hretain)
    · next halt u hout =>
      rw [hout] at hretain
      exact .of_eq hretain
    · next retained _ u hout =>
      rw [hout] at hretain
      have hsystem' : u.allocators.installed = none :=
        (congrArg Outlay.installed hretain).trans hsystem
      have hhold := grows_hold hsystem' v
      have hsame : u.outlay = s.outlay := hretain
      rw [hsame] at hhold
      split
      · next fresh w hfresh =>
        rw [hfresh] at hhold
        exact hhold
      · next cause w hfresh =>
        rw [hfresh] at hhold
        exact hhold
      · next halt w hfresh =>
        rw [hfresh] at hhold
        exact hhold

theorem grows_makeUnique (hsystem : s.allocators.installed = none) (handle : String)
    (o : ObjectId) (literal : Literal) (stack : List Frame) :
    s.outlay.Grows (makeUnique handle o literal s stack).state.outlay := by
  have hunique := outlay_isUnique o s
  unfold makeUnique
  split
  · next u hout =>
    rw [hout] at hunique
    exact .of_eq ((outlay_settle (outlay_assigned o literal false u) stack).trans hunique)
  · next u hout =>
    rw [hout] at hunique
    have hsame : u.outlay = s.outlay := hunique
    have hsystem' : u.allocators.installed = none := (congrArg Outlay.installed hsame).trans hsystem
    rw [← hsame]
    exact grows_copyOnWrite hsystem' handle o literal stack
  · next cause u hout =>
    rw [hout] at hunique
    exact .of_eq hunique
  · next halt u hout =>
    rw [hout] at hunique
    exact .of_eq hunique

/-- A step that makes no object and leaves the global allocator alone charges nothing. -/
theorem outlay_perform {step : Step} (hallocates : step.allocates = false)
    (hevades : step.evades = false) (s : State) (stack : List Frame) :
    (perform s stack step).state.outlay = s.outlay := by
  cases step with
  | allocate name size routine provider via => cases provider <;> [cases hallocates; cases hevades]
  | assemble name size routine => cases hevades
  | makeUnique handle literal => cases hallocates
  | reinstall name routine =>
    refine outlay_settle (outlay_given rfl fun o _ => ?_) stack
    exact outlay_setLink o _ (s.onHeap fun h => (h.addCell (routine.map .routine)).2)
  | newCell name routine => rfl
  | describe routine => exact outlay_discard _ s
  | call c name times via => exact outlay_repeatCall c name via s stack times
  | race name threads retains releases rounds =>
    unfold perform
    dsimp only
    split
    · exact outlay_runThreads _ s stack _ _
    · rfl
  | dropHandle handle =>
    unfold perform
    dsimp only
    split <;> rfl
  | attempt step => rfl
  | act action =>
    refine outlay_settle ?_ stack
    cases action with
    | object action => exact outlay_performObject action s
    | log action => exact outlay_performLog action s
    | setting action =>
      refine outlay_performSetting s fun name heq => ?_
      rw [heq] at hevades
      cases hevades
    | handle action =>
      refine outlay_performHandle s fun handle kind literal heq => ?_
      rw [heq] at hallocates
      cases hallocates
    | panic message => rfl

/-- A step charges for one object at most. -/
theorem grows_perform {step : Step} (hsystem : s.allocators.installed = none)
    (hevades : step.evades = false) (stack : List Frame) :
    s.outlay.Grows (perform s stack step).state.outlay := by
  cases hallocates : step.allocates with
  | false => exact .of_eq (outlay_perform hallocates hevades s stack)
  | true =>
    cases step with
    | allocate name size routine provider via =>
      cases provider with
      | some provider => cases hevades
      | none =>
        unfold perform
        rw [state_settle, state_through]
        exact grows_andThen (grows_allocate hsystem size _ _) fun _ _ => rfl
    | makeUnique handle literal =>
      unfold perform
      dsimp only
      split
      · exact grows_makeUnique hsystem handle _ literal stack
      · exact .same _
    | act action =>
      unfold perform
      rw [state_settle]
      cases action with
      | handle action =>
        cases action with
        | create handle kind literal => exact grows_createHandle hsystem handle kind literal
        | _ => cases hallocates
      | _ => cases hallocates
    | _ => cases hallocates

/-- **Nothing is charged but for an object that a step makes**: not by what goes on the count, not by
a teardown, and not on the way out of one. -/
theorem outlay_next (hidle : ∀ step, m.control = .perform step →
      step.allocates = false ∧ step.evades = false) (hn : m.next? = some m') :
    m'.state.outlay = m.state.outlay := by
  obtain ⟨s, control, stack⟩ := m
  cases control with
  | perform step =>
    cases hn
    exact outlay_perform (hidle step rfl).1 (hidle step rfl).2 s stack
  | release o =>
    cases hn
    exact outlay_started o s stack
  | halt halt => cases hn
  | answer answer =>
    cases stack with
    | nil => cases hn
    | cons frame stack =>
      cases hn
      exact outlay_resume answer s stack frame
  | unwind cause =>
    cases stack with
    | nil => cases hn
    | cons frame stack =>
      cases hn
      exact outlay_unwind cause s stack frame

theorem grows_next (hsystem : m.state.allocators.installed = none)
    (hevades : ∀ step, m.control = .perform step → step.evades = false)
    (hn : m.next? = some m') : m.state.outlay.Grows m'.state.outlay := by
  by_cases hperform : ∃ step, m.control = .perform step
  · obtain ⟨step, hcontrol⟩ := hperform
    obtain ⟨s, control, stack⟩ := m
    cases hcontrol
    cases hn
    exact grows_perform hsystem (hevades step rfl) stack
  · exact .of_eq (outlay_next (fun step hstep => absurd ⟨step, hstep⟩ hperform) hn)

end Machine
/-! ### Sessions -/

/-- A state in which nothing has been handed out and nothing has been counted. -/
structure State.Unspent (s : State) : Prop where
  bytes : s.allocators.system.bytes = 0
  regions : s.allocators.system.allocations = 0
  allocations : s.statistics.allocations = 0
  payloadBytes : s.statistics.payloadBytes = 0
  installed : s.allocators.installed = none

theorem State.Unspent.exact {s : State} (h : s.Unspent) (hfresh : s.Fresh) : s.outlay.Exact := by
  have houtlay : s.outlay = ⟨0, 0, 0, 0, [], none⟩ := by
    unfold State.outlay
    rw [h.bytes, h.regions, h.allocations, h.payloadBytes, h.installed, hfresh.heap]
    rfl
  rw [houtlay]
  exact ⟨rfl, fun size hsize => absurd hsize List.not_mem_nil, .start 0, rfl, rfl⟩

namespace Session

open State

variable {session : Session} {s : State}

theorem outlay_record (session : Session) (result : Result) (s : State) :
    (session.record result true s).2.outlay = s.outlay := by
  unfold record
  dsimp only
  split <;> rfl

/-- What a transition charges. -/
theorem outlay_stage_succ (hfresh : s.Fresh)
    (hsteps : ∀ step ∈ session.steps, step.every (!·.evades) = true) (n : Nat)
    (hexact : (session.stage s n).state.outlay.Exact) :
    (session.stage s n).state.outlay.Grows (session.stage s (n + 1)).state.outlay ∧
      ((∀ m step, (session.stage s n).position = .during m → m.control = .perform step →
          step.allocates = false) →
        (session.stage s (n + 1)).state.outlay = (session.stage s n).state.outlay) := by
  have of_same {st : Stage} (h : st.state.outlay = (session.stage s n).state.outlay) :
      (session.stage s n).state.outlay.Grows st.state.outlay ∧
        ((∀ m step, (session.stage s n).position = .during m → m.control = .perform step →
          step.allocates = false) → st.state.outlay = (session.stage s n).state.outlay) :=
    ⟨.of_eq h, fun _ => h⟩
  cases hn : session.next? (session.stage s n) with
  | none =>
    rw [stage_succ_of_rest hn]
    exact of_same rfl
  | some st =>
    rw [stage_succ_of_next? hn]
    generalize hst : session.stage s n = st' at hn hexact of_same
    cases advances_of_next? hn with
    | begins records rest t step => exact of_same rfl
    | answers records rest t answer => exact of_same (outlay_record session _ t)
    | fails records rest t cause => exact of_same (outlay_record session _ t)
    | @moves records rest m m' hm =>
      have hd : (session.stage s n).position = .during m := by rw [hst]
      have hevades : ∀ step, m.control = .perform step → step.evades = false := fun step hstep => by
        simpa using performs_every hfresh hsteps hd hstep
      exact ⟨Machine.grows_next hexact.installed hevades hm, fun hidle =>
        Machine.outlay_next (fun step hstep => ⟨hidle m step rfl hstep, hevades step hstep⟩) hm⟩

theorem exact_stage (hfresh : s.Fresh) (hunspent : s.Unspent)
    (hsteps : ∀ step ∈ session.steps, step.every (!·.evades) = true) (n : Nat) :
    (session.stage s n).state.outlay.Exact := by
  induction n with
  | zero => exact hunspent.exact hfresh
  | succ n ih => exact ih.grows (outlay_stage_succ hfresh hsteps n ih).1

/-- What an allocation does in a state, for every size. -/
structure Allocates (s : State) (size : UInt64) (contents : Contents)
    (finalizer : Option Finalizer) : Prop where
  /-- A size that no region can have is a fault with that size, and nothing is charged. -/
  overflows (large : (1 <<< 63) - 24 < size.toNat) :
    s.allocate s.allocators.installed size contents finalizer =
        (s.report (.layoutOverflow size)).whenUnwinding (·.discard finalizer) ∧
      ((s.report (.layoutOverflow size)).whenUnwinding (·.discard finalizer) :
        Outcome ObjectId).state.outlay = s.outlay
  /-- Otherwise the payload and its slot are asked for, aligned to 16 bytes. -/
  requests (small : size.toNat ≤ (1 <<< 63) - 24) :
    Layout.ofPayload? size = some ⟨size + 8, 16⟩ ∧ (size + 8).toNat = size.toNat + 8
  /-- The request is granted where the account can be charged for it and there is memory. -/
  grants (small : size.toNat ≤ (1 <<< 63) - 24) :
    (s.allocators.system.request (s.allocators.memory (size + 8)) (size + 8)).1 = true ↔
      s.allocators.system.bytes.toNat + (size.toNat + 8) < UInt64.size ∧
        (s.allocators.system.limit = 0 ∨
          s.allocators.system.bytes.toNat + (size.toNat + 8) ≤
            s.allocators.system.limit.toNat) ∧
        s.allocators.memory (size + 8) = true
  /-- A refusal stops the process: no fault is counted and no object appears. -/
  refused (small : size.toNat ≤ (1 <<< 63) - 24)
    (refusal : (s.allocators.system.request (s.allocators.memory (size + 8)) (size + 8)).1 = false) :
    s.allocate s.allocators.installed size contents finalizer = .halted .aborted s
  /-- A grant makes an object with count 0, and both accounts know of it. -/
  granted (small : size.toNat ≤ (1 <<< 63) - 24)
    (grant : (s.allocators.system.request (s.allocators.memory (size + 8)) (size + 8)).1 = true) :
    ∃ t, s.allocate s.allocators.installed size contents finalizer =
        .returned s.heap.objects.length t ∧
      t.heap.objects = s.heap.objects ++ [⟨size, some s.heap.cells.length, contents⟩] ∧
      t.heap.count? s.heap.objects.length = some 0 ∧
      t.allocators = {s.allocators with system := s.allocators.system.charged (size + 8)} ∧
      t.statistics = s.statistics.addAllocation size ∧ t.faults = s.faults

theorem allocates (hsystem : s.allocators.installed = none) (size : UInt64) (contents : Contents)
    (finalizer : Option Finalizer) : Allocates s size contents finalizer where
  overflows large := ⟨allocate_of_large large _, outlay_dismissed _ finalizer s⟩
  requests small := ⟨ofPayload?_of_small small, Outlay.toNat_add_slot small⟩
  grants small := by
    rw [Quota.granted_iff, Outlay.toNat_add_slot small]
  refused small refusal := allocate_of_refused hsystem small refusal
  granted small grant :=
    have hcount : (s.heap.addObject size contents finalizer).2.count? s.heap.objects.length =
        some 0 := by
      exact congrArg (Option.map (·.count))
        (Heap.governing?_addObject_self size contents finalizer)
    ⟨_, allocate_of_granted hsystem small grant, rfl, hcount, rfl, rfl, rfl⟩

/-- What holds of the accounts all through a session. -/
structure ChargesExactly (session : Session) (s : State) : Prop where
  /-- The allocator and the statistics have counted the same objects. -/
  agree (n : Nat) :
    (session.stage s n).state.allocators.system.allocations =
        (session.stage s n).state.statistics.allocations ∧
      (session.stage s n).state.allocators.system.bytes.toNat =
        (session.stage s n).state.statistics.payloadBytes.toNat +
          8 * (session.stage s n).state.statistics.allocations.toNat
  /-- They have counted the objects there are, and no counter has wrapped around. -/
  exact (n : Nat) :
    (session.stage s n).state.statistics.allocations.toNat =
        (session.stage s n).state.heap.objects.length ∧
      (session.stage s n).state.statistics.payloadBytes.toNat = (session.stage s n).state.heap.bytes
  allocates (n : Nat) (size : UInt64) (contents : Contents) (finalizer : Option Finalizer) :
    Allocates (session.stage s n).state size contents finalizer
  /-- Each transition charges for one object, its payload and its slot, or for none. -/
  grows (n : Nat) :
    (session.stage s n).state.outlay.Grows (session.stage s (n + 1)).state.outlay
  /-- Counting, tearing down and unwinding charge nothing. -/
  steady (n : Nat)
    (idle : ∀ m step, (session.stage s n).position = .during m → m.control = .perform step →
      step.allocates = false) :
    (session.stage s (n + 1)).state.outlay = (session.stage s n).state.outlay
  /-- What has been charged never goes down. -/
  monotone (n k : Nat) :
    (session.stage s n).state.allocators.system.bytes ≤
      (session.stage s (n + k)).state.allocators.system.bytes

/-- **The allocator's account is that of the statistics and the slots**, at every point of a session
whose objects all come from the system allocator. -/
theorem chargesExactly (hfresh : s.Fresh) (hunspent : s.Unspent)
    (hsteps : ∀ step ∈ session.steps, step.every (!·.evades) = true) :
    session.ChargesExactly s where
  agree n :=
    have h := exact_stage hfresh hunspent hsteps n
    ⟨h.regions, h.bytes_eq⟩
  exact n := by
    have h := exact_stage hfresh hunspent hsteps n
    have hregions := h.account.allocations
    rw [List.length_map] at hregions
    exact ⟨(congrArg UInt64.toNat h.regions.symm).trans (hregions.trans (List.length_map ..)),
      h.payload.trans (Outlay.total_sizes _)⟩
  allocates n size contents finalizer :=
    Session.allocates (exact_stage hfresh hunspent hsteps n).installed size contents finalizer
  grows n := (outlay_stage_succ hfresh hsteps n (exact_stage hfresh hunspent hsteps n)).1
  steady n idle :=
    (outlay_stage_succ hfresh hsteps n (exact_stage hfresh hunspent hsteps n)).2 idle
  monotone n k := by
    induction k with
    | zero => exact UInt64.le_refl _
    | succ k ih =>
      have hexact := exact_stage hfresh hunspent hsteps (n + k)
      exact UInt64.le_trans ih (outlay_stage_succ hfresh hsteps (n + k) hexact).1.bytes_le

/-- An allocation that no region could hold, and an object whose closure panics while it is torn
down. -/
def charged : Session where
  steps :=
    [.allocate "a" 0xFFFFFFFFFFFFFFFF none none .native,
      .allocate "b" 24 (some ⟨.native, "b", [.act (.panic "no")]⟩) none .native,
      .call .retain (some "b") 1 .native, .call .release (some "b") 1 .native]

theorem chargesExactly_charged :
    (charged.stage .embedded 20).state.allocators.system.bytes = 32 ∧
      (charged.stage .embedded 20).state.statistics.deallocations = 1 ∧
      (charged.stage .embedded 20).state.faults.count = 1 ∧
      (charged.stage .embedded 20).state.statistics.payloadBytes.toNat + 8 * 1 = 32 := by
  have h : charged.ChargesExactly .embedded :=
    chargesExactly State.fresh_embedded ⟨rfl, rfl, rfl, rfl, rfl⟩ (by decide)
  refine ⟨rfl, rfl, rfl, (h.agree 20).2.symm⟩

end Session
end Custody
