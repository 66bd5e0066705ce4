import Custody.Proofs.Interchange
import Custody.Proofs.Ledger

/-! Neighbouring allocations trade places.

The two objects then have each other's numbers, so the states are not the same any more. They
resemble each other (`State.Resembles`): under every name there is the same, and nothing but numbers
tells them apart later. The allocators do not mind the order either, since a region that is granted
after another one would have been granted before it (`Arrival.Charges.swap`). -/
namespace Custody

/-! ### Two requests -/

namespace Quota

variable {q : Quota} {size size' : UInt64} {backed backed' : Bool}

theorem charged_comm (q : Quota) (size size' : UInt64) :
    (q.charged size).charged size' = (q.charged size').charged size := by
  have hbytes : q.bytes + size + size' = q.bytes + size' + size := by
    rw [UInt64.add_assoc, UInt64.add_comm size, ← UInt64.add_assoc]
  simp only [charged, hbytes]

/-- What is granted after something else is granted without it, and the other way round. -/
theorem granted_swap (h : (q.request backed size).1 = true)
    (h' : ((q.charged size).request backed' size').1 = true) :
    (q.request backed' size').1 = true ∧ ((q.charged size').request backed size).1 = true := by
  obtain ⟨hfits, hlimit, hbacked⟩ := granted_iff.1 h
  obtain ⟨hfits', hlimit', hbacked'⟩ := granted_iff.1 h'
  have hcharged : (q.charged size).bytes.toNat = q.bytes.toNat + size.toNat :=
    toNat_add_of_lt hfits
  have hlimits : (q.charged size).limit = q.limit := rfl
  rw [hcharged] at hfits' hlimit'
  rw [hlimits] at hlimit'
  have hfirst : q.bytes.toNat + size'.toNat < UInt64.size := by omega
  have hcharged' : (q.charged size').bytes.toNat = q.bytes.toNat + size'.toNat :=
    toNat_add_of_lt hfirst
  have hlimits' : (q.charged size').limit = q.limit := rfl
  rw [granted_iff, granted_iff, hcharged', hlimits']
  exact ⟨⟨hfirst, hlimit'.imp_right (by omega), hbacked'⟩, by omega,
    hlimit'.imp_right (by omega), hbacked⟩

end Quota

namespace Allocators

variable {a : Allocators} {provider other : Option AllocatorId} {q q' : Quota}

theorem quota?_setQuota_self (h : a.quota? provider = some q) (q' : Quota) :
    (a.setQuota q' provider).quota? provider = some q' := by
  cases provider with
  | none => rfl
  | some i =>
    obtain ⟨allocator, hallocator, -⟩ := Option.map_eq_some_iff.1 h
    simp [quota?, setQuota, hallocator]

theorem quota?_setQuota_of_ne (hne : provider ≠ other) :
    (a.setQuota q provider).quota? other = a.quota? other := by
  cases provider with
  | none =>
    cases other with
    | none => exact absurd rfl hne
    | some j => rfl
  | some i =>
    cases other with
    | none => rfl
    | some j =>
      have hij : i ≠ j := fun h => hne (congrArg some h)
      simp only [quota?, setQuota, List.getElem?_modify_ne _ _ hij]

theorem setQuota_setQuota : (a.setQuota q provider).setQuota q' provider =
    a.setQuota q' provider := by
  cases provider with
  | none => rfl
  | some i =>
    simp only [setQuota, List.modify_modify_eq]
    rfl

theorem setQuota_comm (hne : provider ≠ other) :
    (a.setQuota q provider).setQuota q' other = (a.setQuota q' other).setQuota q provider := by
  cases provider with
  | none =>
    cases other with
    | none => exact absurd rfl hne
    | some j => rfl
  | some i =>
    cases other with
    | none => rfl
    | some j =>
      have hij : i ≠ j := fun h => hne (congrArg some h)
      simp only [setQuota, List.modify_modify_ne _ _ _ hij]

/-- The same allocators over the same memory, whatever their accounts say. -/
structure SameNames (a b : Allocators) : Prop where
  installed : b.installed = a.installed
  memory : b.memory = a.memory
  name? (provider : Option AllocatorId) : b.name? provider = a.name? provider

theorem sameNames_setQuota : a.SameNames (a.setQuota q provider) where
  installed := by cases provider <;> rfl
  memory := by cases provider <;> rfl
  name? _ := name?_setQuota

theorem SameNames.rfl : a.SameNames a := ⟨.refl _, .refl _, fun _ => .refl _⟩

theorem SameNames.symm {b : Allocators} (h : a.SameNames b) : b.SameNames a :=
  ⟨h.installed.symm, h.memory.symm, fun provider => (h.name? provider).symm⟩

end Allocators

/-- A request depends on the accounts in no other way than that it charges one of them, if any, and
comes to the same wherever that is granted. -/
inductive Arrival.Charges (f : Allocators → Arrival) (a : Allocators) : Prop where
  | nothing (same : ∀ b : Allocators, a.SameNames b → f b = {f a with allocators := b})
  | region (provider : Option AllocatorId) (size : UInt64) (backed : Bool) (q : Quota)
    (account : a.quota? provider = some q) (granted : (q.request backed size).1 = true)
    (same : ∀ (b : Allocators) (q' : Quota), a.SameNames b → b.quota? provider = some q' →
      (q'.request backed size).1 = true →
        f b = {f a with allocators := b.setQuota (q'.charged size) provider})

namespace Arrival.Charges

variable {f g : Allocators → Arrival} {a : Allocators}

theorem sameNames (h : Charges f a) : a.SameNames (f a).allocators := by
  cases h with
  | nothing same =>
    rw [same a .rfl]
    exact .rfl
  | region provider size backed q account granted same =>
    rw [same a q .rfl account granted]
    exact Allocators.sameNames_setQuota

/-- **Two requests that are granted are granted in either order.** -/
theorem swap (hf : Charges f a) (hg : Charges g (f a).allocators) :
    f (g a).allocators = {f a with allocators := (g (f a).allocators).allocators} ∧
      g a = {g (f a).allocators with allocators := (g a).allocators} := by
  have hnames := hf.sameNames
  cases hg with
  | nothing same' =>
    have hga : g a = {g (f a).allocators with allocators := a} := same' a hnames.symm
    have hgf := congrArg allocators (same' _ .rfl)
    rw [hga, hgf]
    exact ⟨rfl, rfl⟩
  | region provider' size' backed' q' account' granted' same' =>
    have hgf := congrArg allocators (same' _ q' .rfl account' granted')
    cases hf with
    | nothing same =>
      have hfa : (f a).allocators = a := congrArg allocators (same a .rfl)
      rw [hfa] at account' hgf ⊢
      exact ⟨same _ (hgf ▸ Allocators.sameNames_setQuota), rfl⟩
    | region provider size backed q account granted same =>
      have hfa : (f a).allocators = a.setQuota (q.charged size) provider :=
        congrArg allocators (same a q .rfl account granted)
      rw [hgf]
      by_cases hprovider : provider = provider'
      · subst hprovider
        obtain rfl : q.charged size = q' := by
          rw [hfa, Allocators.quota?_setQuota_self account _] at account'
          exact Option.some.inj account'
        obtain ⟨hgranted', hgranted⟩ := Quota.granted_swap granted granted'
        have haccount := Allocators.quota?_setQuota_self account (q.charged size')
        rw [same' a q hnames.symm account hgranted',
          same _ _ Allocators.sameNames_setQuota haccount hgranted, hfa]
        simp only [Allocators.setQuota_setQuota, q.charged_comm size, and_self]
      · have haccount' : a.quota? provider' = some q' := by
          rwa [hfa, Allocators.quota?_setQuota_of_ne hprovider] at account'
        have haccount : (a.setQuota (q'.charged size') provider').quota? provider = some q := by
          rw [Allocators.quota?_setQuota_of_ne (Ne.symm hprovider), account]
        rw [same' a q' hnames.symm haccount' granted',
          same _ _ Allocators.sameNames_setQuota haccount granted, hfa]
        simp only [Allocators.setQuota_comm hprovider, and_self]

end Arrival.Charges

theorem Arrival.charges_arrival {raise : Fault → Cause} {provider : Option AllocatorId}
    {size : UInt64} {finalizer : Option Finalizer} {a : Allocators}
    (h : (a.arrival raise provider size finalizer).ending.result?.isSome = true) :
    Charges (Allocators.arrival raise provider size finalizer) a := by
  cases hlayout : Layout.ofPayload? size with
  | none =>
    refine .nothing fun b _ => ?_
    simp only [Allocators.arrival, hlayout]
  | some layout =>
    simp only [Allocators.arrival, hlayout] at h
    cases hq : a.quota? provider with
    | none =>
      rw [hq] at h
      cases h
    | some q =>
      have hgranted : (q.request (a.memory layout.size) layout.size).1 = true := by
        rw [hq] at h
        simp only at h
        generalize q.request (a.memory layout.size) layout.size = answer at h
        obtain ⟨_ | _, _⟩ := answer
        · cases h
        · rfl
      have harrival {b : Allocators} {q' : Quota} (hnames : a.SameNames b)
          (hb : b.quota? provider = some q')
          (hgrants : (q'.request (a.memory layout.size) layout.size).1 = true) :
          b.arrival raise provider size finalizer =
            { made := some (size, finalizer)
              allocators := b.setQuota (q'.charged layout.size) provider
              gain :=
                { statistics := {allocations := 1, payloadBytes := size}
                  events := b.asked provider layout true }
              ending := .answered (.created (Layout.payloadOf 0 % Layout.regionAlign)) } := by
        have hrequest : q'.request (a.memory layout.size) layout.size =
            (true, q'.charged layout.size) :=
          Prod.ext hgrants (Quota.request_of_granted hgrants)
        simp only [Allocators.arrival, hlayout, hb, hnames.memory, hrequest]
      refine .region provider layout.size (a.memory layout.size) q hq hgranted
        fun b q' hnames hb hgrants => ?_
      rw [harrival hnames hb hgrants, harrival .rfl hq hgranted, Allocators.asked, Allocators.asked,
        hnames.name?]

theorem Ending.isSome_of_through {e : Ending} {via : Convention}
    (h : (e.through via).result?.isSome = true) : e.result?.isSome = true := by
  cases via with
  | native => exact h
  | foreign =>
    cases e with
    | failed cause => rfl
    | _ => exact h

/-- An allocation that comes to a result charges at most one account. -/
theorem Step.charges_arrival {raise : Fault → Cause} {names : Bindings AllocatorId}
    {size : UInt64} {routine : Option (Routine Step)} {provider : Option String}
    {via : Convention} {a : Allocators}
    (h : (Step.arrival raise names size routine provider via a).ending.result?.isSome = true) :
    Arrival.Charges (Step.arrival raise names size routine provider via) a := by
  have hserving {b : Allocators} (hnames : a.SameNames b) :
      b.serving? names provider = a.serving? names provider := by
    cases provider with
    | none => exact congrArg some hnames.installed
    | some name => rfl
  cases hserves : a.serving? names provider with
  | none =>
    simp only [Step.arrival, hserves] at h
    cases h
  | some allocator =>
    have harrival {b : Allocators} (hnames : a.SameNames b) :
        Step.arrival raise names size routine provider via b =
          {b.arrival raise allocator size ((Machine.passedRoutine via routine).map .routine) with
            ending := (b.arrival raise allocator size
              ((Machine.passedRoutine via routine).map .routine)).ending.through via} := by
      simp only [Step.arrival, hserving hnames, hserves]
    rw [harrival .rfl] at h
    cases Arrival.charges_arrival (Ending.isSome_of_through h) with
    | nothing same =>
      refine .nothing fun b hnames => ?_
      rw [harrival hnames, harrival .rfl, same b hnames]
    | region provider' size' backed q account granted same =>
      refine .region provider' size' backed q account granted fun b q' hnames hq hgranted => ?_
      rw [harrival hnames, harrival .rfl, same b q' hnames hq hgranted]

/-! ### What is found under a name -/

/-- What belongs to the object of a name, whatever its number. -/
def State.found? (name : String) (s : State) : Option Own :=
  ((s.names.objects.find? name).bind s.heap.own?).map (·.numbered 0)

/-- Under every name there is the same, and what all objects share is the same. -/
structure State.Resembles (s t : State) : Prop where
  found (name : String) : t.found? name = s.found? name
  suppliers : t.names.allocators = s.names.allocators
  allocators : t.allocators = s.allocators
  statistics : t.statistics = s.statistics
  faults : t.faults = s.faults

/-- The new object, whatever its number. -/
def Arrival.found? (r : Arrival) : Option Own :=
  r.made.map fun (size, finalizer) => ⟨⟨size, some 0, .bytes []⟩, some {finalizer}⟩

section Resembles

variable {raise : Fault → Cause} {name other : String} {o p : ObjectId} {w v : Own} {s t : State}

theorem State.found?_of_shows (h : s.Shows raise name o w) :
    s.found? name = some (w.numbered 0) := by
  rw [found?, h.named, Option.bind_some, h.own, Option.map_some]

theorem State.found?_eq_none (h : s.names.objects.find? name = none) : s.found? name = none := by
  rw [found?, h]
  rfl

theorem State.find?_eq_none (hs : s.Orderly raise) (h : s.found? name = none) :
    s.names.objects.find? name = none := by
  cases hfind : s.names.objects.find? name with
  | none => rfl
  | some o =>
    obtain ⟨w, hshows, -⟩ := hs.exists_shows hfind
    rw [found?_of_shows hshows] at h
    cases h

theorem State.exists_shows_of_found? (hs : s.Orderly raise)
    (h : s.found? name = some (w.numbered 0)) : ∃ p, s.Shows raise name p (w.numbered p) := by
  cases hfind : s.names.objects.find? name with
  | none =>
    rw [found?_eq_none hfind] at h
    cases h
  | some p =>
    obtain ⟨v, hshows, hv⟩ := hs.exists_shows hfind
    have hsame : v.numbered 0 = w.numbered 0 :=
      Option.some.inj ((found?_of_shows hshows).symm.trans h)
    refine ⟨p, ?_⟩
    rwa [← Own.numbered_numbered (o := 0), ← hsame, Own.numbered_numbered, hv.numbered_self]

theorem State.found?_on_effect (hs : s.Orderly raise) (h : s.Shows raise name o w) (e : Effect) :
    (e.on o s).found? other =
      if other = name then some (e.own.numbered 0) else s.found? other := by
  have hput : (e.on o s).heap = s.heap.put o e.own := rfl
  have hnames : (e.on o s).names = s.names := rfl
  unfold found?
  rw [hput, hnames]
  split
  · next heq => rw [heq, h.named, Option.bind_some, Heap.own?_put_self h.own, Option.map_some]
  · next hne =>
    cases hfind : s.names.objects.find? other with
    | none => rfl
    | some p =>
      have hp : o ≠ p := fun hop => hne (hs.distinct other name o (hop ▸ hfind) h.named)
      rw [Option.bind_some, Option.bind_some, Heap.own?_put_of_ne hp]

theorem State.found?_on_arrival (hs : s.Orderly raise) (r : Arrival) :
    (r.on name s).found? other =
      ((if other = name then r.found? else none).or (s.found? other)) := by
  unfold Arrival.on Arrival.found?
  cases hmade : r.made with
  | none =>
    rw [Option.map_none, ite_self]
    rfl
  | some made =>
    obtain ⟨size, finalizer⟩ := made
    have hown {p : ObjectId} := Heap.own?_addObject (p := p) hs.paired size (.bytes []) finalizer
    show ((((s.names.objects.bind name s.heap.objects.length).find? other).bind
      (s.heap.addObject size (.bytes []) finalizer).2.own?).map (·.numbered 0)) = _
    split
    · next heq =>
      rw [heq, Bindings.find?_bind_self, Option.bind_some, hown, if_pos rfl]
      rfl
    · next hne =>
      rw [Bindings.find?_bind_of_ne _ _ hne, Option.none_or, found?]
      cases hfind : s.names.objects.find? other with
      | none => rfl
      | some p =>
        have hp : p ≠ s.heap.objects.length := Nat.ne_of_lt (hs.named other p hfind)
        rw [Option.bind_some, Option.bind_some, hown, if_neg hp]

namespace State.Resembles

theorem of_bare {s' t' : State} (h : s.Resembles t) (hs : s'.bare = s.bare)
    (ht : t'.bare = t.bare) : s'.Resembles t' where
  found name := by
    have hfound := h.found name
    unfold found? at hfound ⊢
    rwa [heap_eq_of_bare hs, heap_eq_of_bare ht, names_eq_of_bare hs, names_eq_of_bare ht]
  suppliers := by rw [names_eq_of_bare hs, names_eq_of_bare ht, h.suppliers]
  allocators := by rw [allocators_eq_of_bare hs, allocators_eq_of_bare ht, h.allocators]
  statistics := by
    have hs' := congrArg State.statistics hs
    have ht' := congrArg State.statistics ht
    exact ht'.trans (h.statistics.trans hs'.symm)
  faults := by rw [faults_eq_of_bare hs, faults_eq_of_bare ht, h.faults]

/-- The same effect on the objects of a name. -/
theorem on_effect {e : ObjectId → Effect} (h : s.Resembles t) (hs : s.Orderly raise)
    (ht : t.Orderly raise) (hshows : s.Shows raise name o w) (hshows' : t.Shows raise name p v)
    (he : Effect.Uniform e) : ((e o).on o s).Resembles ((e p).on p t) where
  found other := by
    have hown : (e p).own.numbered 0 = (e o).own.numbered 0 :=
      congrArg Effect.own ((he.same p).trans (he.same o).symm)
    rw [found?_on_effect hs hshows, found?_on_effect ht hshows', hown, h.found]
  suppliers := h.suppliers
  allocators := h.allocators
  statistics := by
    have hgain : (e p).gain.statistics = (e o).gain.statistics :=
      congrArg (·.gain.statistics) ((he.same p).trans (he.same o).symm)
    show t.statistics + (e p).gain.statistics = s.statistics + (e o).gain.statistics
    rw [hgain, h.statistics]
  faults := by
    have hgain : (e p).gain.faults = (e o).gain.faults :=
      congrArg (·.gain.faults) ((he.same p).trans (he.same o).symm)
    show ({t.faults with count := t.faults.count + (e p).gain.faults} : FaultHandling) =
      {s.faults with count := s.faults.count + (e o).gain.faults}
    rw [hgain, h.faults]

/-- The same arrival under a name. -/
theorem on_arrival (h : s.Resembles t) (hs : s.Orderly raise) (ht : t.Orderly raise) (r : Arrival)
    (name : String) : (r.on name s).Resembles (r.on name t) where
  found other := by rw [found?_on_arrival hs, found?_on_arrival ht, h.found]
  suppliers := by rw [Arrival.suppliers_on, Arrival.suppliers_on, h.suppliers]
  allocators := by rw [Arrival.allocators_on, Arrival.allocators_on]
  statistics := by rw [Arrival.statistics_on, Arrival.statistics_on, h.statistics]
  faults := by rw [Arrival.faults_on, Arrival.faults_on, h.faults]

/-- Two arrivals under different names, in either order and with the accounts as they turn out. -/
theorem on_arrivals (hs : s.Orderly raise) {r r' q q' : Arrival} (hr : (r.on name s).Orderly raise)
    (hq : (q.on other s).Orderly raise) (hq' : q' = {r with allocators := r'.allocators})
    (hqr : q = {r' with allocators := q.allocators}) (hne : other ≠ name) :
    (r'.on other (r.on name s)).Resembles (q'.on name (q.on other s)) where
  found x := by
    have hfound : q'.found? = r.found? := by
      rw [hq']
      rfl
    have hfound' : q.found? = r'.found? := by
      rw [hqr]
      rfl
    rw [found?_on_arrival hr, found?_on_arrival hs, found?_on_arrival hq, found?_on_arrival hs,
      hfound, hfound']
    by_cases hx : x = name
    · have hx' : x ≠ other := fun h => hne (h.symm.trans hx)
      simp only [hx, hx ▸ hx', if_true, if_false, Option.none_or]
    · simp only [hx, if_false, Option.none_or]
  suppliers := by simp only [Arrival.suppliers_on]
  allocators := by rw [Arrival.allocators_on, Arrival.allocators_on, hq']
  statistics := by
    simp only [Arrival.statistics_on]
    rw [hq', hqr]
    exact Statistics.add_right_comm _ _ _
  faults := by
    have hcount : s.faults.count + r'.gain.faults + r.gain.faults =
        s.faults.count + r.gain.faults + r'.gain.faults := by
      rw [UInt64.add_assoc, UInt64.add_comm r'.gain.faults, ← UInt64.add_assoc]
    simp only [Arrival.faults_on]
    rw [hq', hqr, hcount]

end State.Resembles

end Resembles

/-! ### Whole sessions -/

def Result.unnumbered : Result → Result
  | answered answer => answered answer.unnumbered
  | failed cause => failed cause.unnumbered
  | died => died

/-- What a step reports, but for the numbers of objects. -/
def Leg.unnumbered (face : Option Result × List Event) : Option Result × List Event :=
  (face.1.map Result.unnumbered, face.2.map Event.unnumbered)

namespace Session

variable {session : Session} {raise : Fault → Cause} {s t : State} {a b step : Step}

/-- The states resemble each other, and both are in order. -/
structure SameNamed (raise : Fault → Cause) (s t : State) : Prop where
  orderly : s.Orderly raise
  orderly' : t.Orderly raise
  resembles : s.Resembles t

theorem unnumbered_face_eq {e : ObjectId → Effect} {o p : ObjectId} (he : Effect.Uniform e) :
    ((e p).ending.control.exit = (e o).ending.control.exit) ∧
      Leg.unnumbered ((e p).ending.result?, (e p).gain.events.reverse) =
        Leg.unnumbered ((e o).ending.result?, (e o).gain.events.reverse) := by
  have hsame : (e p).unnumbered = (e o).unnumbered := (he.same p).trans (he.same o).symm
  have hending : (e p).ending.unnumbered = (e o).ending.unnumbered :=
    congrArg Effect.ending hsame
  have hevents : (e p).gain.events.map Event.unnumbered =
      (e o).gain.events.map Event.unnumbered := congrArg (·.gain.events) hsame
  have hresult (ending : Ending) : ending.result?.map Result.unnumbered =
      ending.unnumbered.result? := by
    cases ending <;> rfl
  have hexit (ending : Ending) : ending.control.exit = ending.unnumbered.control.exit := by
    cases ending <;> rfl
  refine ⟨by rw [hexit, hending, ← hexit], Prod.ext ?_ ?_⟩
  · exact (hresult _).trans ((congrArg Ending.result? hending).trans (hresult _).symm)
  · simp only [Leg.unnumbered, List.map_reverse, hevents]

/-- **Numbers make no difference to any step.** -/
theorem carries_sameNamed (raise : Fault → Cause) : Carries Leg.unnumbered (SameNamed raise) where
  isSome h := by
    have hfirst := congrArg (·.1.isSome) h
    simpa [Leg.unnumbered] using hfirst
  congr h hs ht := ⟨h.orderly.of_bare hs, h.orderly'.of_bare ht, h.resembles.of_bare hs ht⟩
  turn := by
    intro s t step h hstep
    obtain ⟨hs, ht, hresembles⟩ := h
    cases hname : step.name? with
    | none =>
      unfold Step.solitary at hstep
      split at hstep
      · next name size routine provider via =>
        have hsupplies : s.Supplies raise s.allocators s.names.allocators := ⟨hs.raises, rfl, rfl⟩
        have hsupplies' : t.Supplies raise s.allocators s.names.allocators :=
          ⟨ht.raises, hresembles.allocators, hresembles.suppliers⟩
        exact ⟨_, _, _, _, _, _, hsupplies.yields_allocate name size routine provider via,
          hsupplies'.yields_allocate name size routine provider via,
          ⟨hs.on_arrival fun _ _ => Step.detached_of_made hstep,
            ht.on_arrival fun _ _ => Step.detached_of_made hstep,
            hresembles.on_arrival hs ht _ name⟩, rfl, rfl⟩
      · rw [hname] at hstep
        cases hstep
    | some name =>
      cases hfind : s.names.objects.find? name with
      | none =>
        have hfind' : t.names.objects.find? name = none :=
          State.find?_eq_none ht ((hresembles.found name).trans (State.found?_eq_none hfind))
        obtain ⟨e, hyields⟩ := step.exists_yields_of_unnamed hname
        exact ⟨e, e, [], [], s, t, hyields s hfind, hyields t hfind', ⟨hs, ht, hresembles⟩, rfl,
          rfl⟩
      | some o =>
        obtain ⟨w, hshows, hw⟩ := hs.exists_shows hfind
        obtain ⟨p, hshows'⟩ := State.exists_shows_of_found? ht
          ((hresembles.found name).trans (State.found?_of_shows hshows))
        obtain ⟨e, huniform, -, hyields⟩ := step.exists_yields_uniformly hs.raises hname hw
        have hyields_s := hyields o s (hw.numbered_self.symm ▸ hshows)
        have hyields_t := hyields p t hshows'
        obtain ⟨hexit, hface⟩ := unnumbered_face_eq (o := o) (p := p) huniform
        exact ⟨_, _, _, _, _, _, hyields_s, hyields_t,
          ⟨hs.on_effect hshows.own (huniform.settled o),
            ht.on_effect hshows'.own (huniform.settled p),
            hresembles.on_effect hs ht hshows hshows' huniform⟩, hexit, hface⟩

/-- **Two allocations come to the same in either order**, but for the numbers of the new objects. -/
theorem trades_of_given (hs : s.Orderly raise) (ha : a.solitary = true) (hb : b.solitary = true)
    {name other : String} (one : a.given? = some name) (next : b.given? = some other)
    (hne : other ≠ name) (hresult : (leg s a).result?.isSome = true)
    (hresult' : (leg (session.past s a) b).result?.isSome = true) :
    session.Trades Leg.unnumbered (SameNamed raise) s a b := by
  obtain ⟨size, routine, provider, via, rfl⟩ := Step.eq_allocate_of_given one
  obtain ⟨size', routine', provider', via', rfl⟩ := Step.eq_allocate_of_given next
  -- What the two come to, as functions of the accounts they find.
  let names := s.names.allocators
  let f := Step.arrival raise names size routine provider via
  let g := Step.arrival raise names size' routine' provider' via'
  have hf (c : Allocators) : (Step.allocate name size routine provider via).Acts
      (·.Supplies raise c names) (f c).ending (f c).gain.events ((f c).on name) :=
    .of_allocate raise c names name size routine provider via
  have hg (c : Allocators) : (Step.allocate other size' routine' provider' via').Acts
      (·.Supplies raise c names) (g c).ending (g c).gain.events ((g c).on other) :=
    .of_allocate raise c names other size' routine' provider' via'
  have hsupplies : s.Supplies raise s.allocators names := ⟨hs.raises, rfl, rfl⟩
  have hya := (hf s.allocators).yields s hsupplies
  have hyb := (hg s.allocators).yields s hsupplies
  have hpast : (session.past s (.allocate name size routine provider via)).bare =
      ((f s.allocators).on name s).bare := bare_past hya
  have hpast' : (session.past s (.allocate other size' routine' provider' via')).bare =
      ((g s.allocators).on other s).bare := bare_past hyb
  have hyb' := (hg (f s.allocators).allocators).yields _
    ((hsupplies.on_arrival (f s.allocators) name).congr hpast)
  have hya' := (hf (g s.allocators).allocators).yields _
    ((hsupplies.on_arrival (g s.allocators) other).congr hpast')
  have hcharges : Arrival.Charges f s.allocators :=
    Step.charges_arrival (hya.result? ▸ hresult)
  have hcharges' : Arrival.Charges g (f s.allocators).allocators :=
    Step.charges_arrival (hyb'.result? ▸ hresult')
  obtain ⟨hfirst, hsecond⟩ := hcharges.swap hcharges'
  refine ⟨?_, ?_, ⟨orderly_past (orderly_past hs ha) hb, orderly_past (orderly_past hs hb) ha, ?_⟩⟩
  · rw [face_eq hya', face_eq hya, hfirst]
  · rw [face_eq hyb, face_eq hyb', hsecond]
  · have hresembles := State.Resembles.on_arrivals hs
      (hs.on_arrival fun _ _ => Step.detached_of_made ha)
      (hs.on_arrival fun _ _ => Step.detached_of_made hb) hfirst hsecond hne
    exact hresembles.of_bare
      ((bare_past hyb').trans ((hg _).bare_eq hpast))
      ((bare_past hya').trans ((hf _).bare_eq hpast'))

end Session
end Custody
