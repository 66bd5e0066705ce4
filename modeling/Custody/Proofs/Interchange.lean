import Custody.Proofs.Independence

/-! Neighbouring steps on different objects trade places.

What a step does follows from its object or from the allocators (`Step.Acts`), and a step on another
object changes neither. So either of two neighbours comes to the same before the other as after it,
and both orders leave the same state, but for what is written down. If both orders leave states
between which later steps make no difference (`Session.Carries`), nothing later tells the orders
apart (`Session.faces_trade`). -/
namespace Custody

/-- What a step reports: what came of it, and what was told meanwhile. -/
def Leg.face (leg : Leg) : Option Result × List Event :=
  (leg.result?, leg.told)

/-- The name that an allocation gives to its object. -/
def Step.given? : Step → Option String
  | .allocate name _ _ _ _ => some name
  | _ => none

/-- Two legs on different objects. An allocation is on an object that nobody else goes by yet. -/
inductive Leg.Apart (first second : Leg) : Prop where
  | objects {o p : ObjectId} (one : first.object? = some o) (other : second.object? = some p)
    (ne : o ≠ p)
  | arrival {name : String} {p : ObjectId} (one : first.step.given? = some name)
    (other : second.object? = some p) (ne : second.step.name? ≠ some name)
  | beforeArrival {name : String} {o : ObjectId} (one : first.object? = some o)
    (other : second.step.given? = some name) (ne : first.step.name? ≠ some name)

/-- A list in which the members at a place and behind it have traded places. -/
def trade : Nat → List α → List α
  | 0, x :: y :: rest => y :: x :: rest
  | n + 1, x :: rest => x :: trade n rest
  | _, rest => rest

/-! ### What steps do -/

/-- Wherever a condition holds that does not depend on what is written down, the step ends the same,
tells the same and makes the same change. -/
structure Step.Acts (step : Step) (P : State → Prop) (e : Ending) (told : List Event)
    (f : State → State) : Prop where
  yields (s : State) (h : P s) : step.Yields s e told (f s)
  bare (s : State) : (f s.bare).bare = (f s).bare
  congr (s t : State) (ht : t.bare = s.bare) (h : P s) : P t

section Acts

variable {raise : Fault → Cause} {name : String} {o p : ObjectId} {w v : Own} {s t : State}
  {step : Step}

theorem Step.Acts.bare_eq {P : State → Prop} {e : Ending} {told : List Event} {f : State → State}
    (h : step.Acts P e told f) (ht : t.bare = s.bare) : (f t).bare = (f s).bare := by
  rw [← h.bare t, ht, h.bare s]

theorem State.Shows.congr (h : s.Shows raise name o w) (ht : t.bare = s.bare) :
    t.Shows raise name o w where
  raises := faults_eq_of_bare ht ▸ h.raises
  named := names_eq_of_bare ht ▸ h.named
  own := heap_eq_of_bare ht ▸ h.own

theorem State.Supplies.congr {a : Allocators} {names : Bindings AllocatorId}
    (h : s.Supplies raise a names) (ht : t.bare = s.bare) : t.Supplies raise a names where
  raises := faults_eq_of_bare ht ▸ h.raises
  allocators := allocators_eq_of_bare ht ▸ h.allocators
  names := names_eq_of_bare ht ▸ h.names

theorem Step.exists_acts_of_named (hs : s.Orderly raise) (hname : step.name? = some name)
    (hfind : s.names.objects.find? name = some o) :
    ∃ (w : Own) (e : Effect), s.Shows raise name o w ∧ e.own.Settled o ∧
      (step.lasting = true → e.ending.result?.isSome) ∧
      step.Acts (·.Shows raise name o w) e.ending e.gain.events (e.on o) := by
  obtain ⟨w, hshows, hw⟩ := hs.exists_shows hfind
  obtain ⟨e, hsettled, hlasting, hyields⟩ := step.exists_yields_of_named hs.raises hname hw
  exact ⟨w, e, hshows, hsettled, hlasting, hyields, fun _ => rfl, fun _ _ ht h => h.congr ht⟩

/-- An allocation acts the same wherever the allocators are the same. -/
theorem Step.Acts.of_allocate (raise : Fault → Cause) (a : Allocators)
    (names : Bindings AllocatorId) (name : String) (size : UInt64)
    (routine : Option (Routine Step)) (provider : Option String) (via : Convention) :
    (Step.allocate name size routine provider via).Acts (·.Supplies raise a names)
      (Step.arrival raise names size routine provider via a).ending
      (Step.arrival raise names size routine provider via a).gain.events
      ((Step.arrival raise names size routine provider via a).on name) where
  yields _ h := h.yields_allocate name size routine provider via
  bare s := Arrival.bare_on _ name s
  congr _ _ ht h := h.congr ht

theorem Step.eq_allocate_of_given (h : step.given? = some name) :
    ∃ size routine provider via, step = .allocate name size routine provider via := by
  unfold given? at h
  split at h
  · next name' size routine provider via =>
    cases h
    exact ⟨size, routine, provider, via, rfl⟩
  · cases h

theorem Step.exists_acts_of_given (hs : s.Orderly raise) (hstep : step.solitary = true)
    (hgiven : step.given? = some name) :
    ∃ r : Arrival, s.Supplies raise s.allocators s.names.allocators ∧
      (∀ size f, r.made = some (size, f) → Finalizer.detached f = true) ∧
      step.Acts (·.Supplies raise s.allocators s.names.allocators) r.ending r.gain.events
        (r.on name) := by
  obtain ⟨size, routine, provider, via, rfl⟩ := Step.eq_allocate_of_given hgiven
  exact ⟨_, ⟨hs.raises, rfl, rfl⟩, fun _ _ => Step.detached_of_made hstep,
    .of_allocate raise _ _ name size routine provider via⟩

/-- **Every step of an orderly session does what it does wherever the same is found.** -/
theorem Step.exists_acts (hs : s.Orderly raise) (hstep : step.solitary = true) :
    ∃ (P : State → Prop) (e : Ending) (told : List Event) (f : State → State),
      step.Acts P e told f ∧ P s ∧ (f s).Orderly raise := by
  cases hgiven : step.given? with
  | some name =>
    obtain ⟨r, hsupplies, hmade, hacts⟩ := step.exists_acts_of_given hs hstep hgiven
    exact ⟨_, _, _, _, hacts, hsupplies, hs.on_arrival hmade⟩
  | none =>
    obtain ⟨name, hname⟩ : ∃ name, step.name? = some name := by
      cases step with
      | allocate _ _ _ _ _ => cases hgiven
      | _ => exact Option.isSome_iff_exists.1 hstep
    cases hfind : s.names.objects.find? name with
    | none =>
      obtain ⟨e, hyields⟩ := step.exists_yields_of_unnamed hname
      exact ⟨fun s => s.names.objects.find? name = none, e, [], id, ⟨hyields, fun _ => rfl,
        fun s t ht h => State.names_eq_of_bare ht ▸ h⟩, hfind, hs⟩
    | some o =>
      obtain ⟨w, e, hshows, hsettled, -, hacts⟩ := step.exists_acts_of_named hs hname hfind
      exact ⟨_, _, _, _, hacts, hshows, hs.on_effect hshows.own hsettled⟩

/-! ### Changes come out the same in either order -/

theorem Effect.on_comm (e e' : Effect) (hne : o ≠ p) (s : State) :
    (e'.on p (e.on o s)).bare = (e.on o (e'.on p s)).bare := by
  have hheap : (s.heap.put o e.own).put p e'.own = (s.heap.put p e'.own).put o e.own :=
    Heap.put_comm hne
  have hfaults : s.faults.count + e.gain.faults + e'.gain.faults =
      s.faults.count + e'.gain.faults + e.gain.faults := by
    rw [UInt64.add_assoc, UInt64.add_comm e.gain.faults, ← UInt64.add_assoc]
  simp only [Effect.on, Gain.on, State.onHeap, State.bare, hheap, hfaults,
    Statistics.add_right_comm s.statistics e.gain.statistics]

theorem Heap.put_addObject {h : Heap} (hw : h.own? o = some w) (size : UInt64) (contents : Contents)
    (finalizer : Option Finalizer) :
    (h.addObject size contents finalizer).2.put o v =
      ((h.put o v).addObject size contents finalizer).2 := by
  obtain ⟨hobject, hcell⟩ := own?_eq_some_iff.1 hw
  have hlo := (List.getElem?_eq_some_iff.1 hobject).1
  have hlc := (List.getElem?_eq_some_iff.1 hcell).1
  simp only [put, addObject, addCell, List.length_set, List.set_append_left _ _ hlo,
    List.set_append_left _ _ hlc]

theorem Arrival.on_comm (r : Arrival) (name : String) (e : Effect) (hw : s.heap.own? o = some w) :
    (e.on o (r.on name s)).bare = (r.on name (e.on o s)).bare := by
  have hfaults : s.faults.count + r.gain.faults + e.gain.faults =
      s.faults.count + e.gain.faults + r.gain.faults := by
    rw [UInt64.add_assoc, UInt64.add_comm r.gain.faults, ← UInt64.add_assoc]
  unfold Arrival.on
  split
  · simp only [Effect.on, Gain.on, State.onHeap, State.bare, hfaults,
      Statistics.add_right_comm s.statistics r.gain.statistics]
  · simp only [Effect.on, Gain.on, State.onHeap, State.bare, hfaults, Heap.put_addObject hw,
      Heap.length_objects_put, Statistics.add_right_comm s.statistics r.gain.statistics]

/-! ### What others find -/

theorem State.Shows.on_effect_of_ne (h : s.Shows raise name o w) (e : Effect) (hne : p ≠ o) :
    (e.on p s).Shows raise name o w :=
  ⟨h.raises, h.named, (Heap.own?_put_of_ne hne).trans h.own⟩

theorem State.Supplies.on_effect {a : Allocators} {names : Bindings AllocatorId}
    (h : s.Supplies raise a names) (e : Effect) (o : ObjectId) :
    (e.on o s).Supplies raise a names :=
  ⟨h.raises, h.allocators, h.names⟩

theorem State.Supplies.on_arrival {a : Allocators} {names : Bindings AllocatorId}
    (h : s.Supplies raise a names) (r : Arrival) (name : String) :
    (r.on name s).Supplies raise r.allocators names where
  raises := by
    rw [Arrival.faults_on]
    exact h.raises
  allocators := Arrival.allocators_on
  names := Arrival.suppliers_on.trans h.names

theorem Arrival.find?_on_of_ne (r : Arrival) {name other : String} (hne : other ≠ name)
    (s : State) :
    (r.on name s).names.objects.find? other = s.names.objects.find? other := by
  unfold on
  split
  · rfl
  · exact Bindings.find?_bind_of_ne _ _ hne

theorem State.Shows.on_arrival (h : s.Shows raise name o w) (hs : s.Orderly raise) (r : Arrival)
    {other : String} (hne : name ≠ other) : (r.on other s).Shows raise name o w := by
  have hraises : (r.on other s).faults.raises = some raise := by
    unfold Arrival.on
    split <;> exact h.raises
  have hown : (r.on other s).heap.own? o = some w := by
    unfold Arrival.on
    split
    · exact h.own
    · have hlt : o ≠ s.heap.objects.length := Nat.ne_of_lt (Heap.lt_of_own? h.own)
      exact (Heap.own?_addObject hs.paired _ _ _).trans ((if_neg hlt).trans h.own)
  exact ⟨hraises, (r.find?_on_of_ne hne s).trans h.named, hown⟩

end Acts

/-! ### Two steps -/

namespace Session

variable {session : Session} {raise : Fault → Cause} {s t : State} {a b step : Step}

theorem face_eq {e : Ending} {told : List Event} {u : State} (h : step.Yields s e told u) :
    (leg s step).face = (e.result?, told.reverse) :=
  Prod.ext h.result? (congrArg List.reverse h.told)

/-- Between related states no step makes a difference, as far as is looked at, and it leaves related
states again. -/
structure Carries {β : Type} (look : Option Result × List Event → β) (R : State → State → Prop) :
    Prop where
  isSome {face face' : Option Result × List Event} (h : look face' = look face) :
    face'.1.isSome = face.1.isSome
  congr {s t s' t' : State} (h : R s t) (hs : s'.bare = s.bare) (ht : t'.bare = t.bare) : R s' t'
  turn {s t : State} {step : Step} (h : R s t) (hstep : step.solitary = true) :
    ∃ (e e' : Ending) (told told' : List Event) (u v : State), step.Yields s e told u ∧
      step.Yields t e' told' v ∧ R u v ∧ e'.control.exit = e.control.exit ∧
      look (e'.result?, told'.reverse) = look (e.result?, told.reverse)

/-- Two steps come to the same in either order, as far as is looked at, and leave related states. -/
structure Trades {β : Type} (session : Session) (look : Option Result × List Event → β)
    (R : State → State → Prop) (s : State) (a b : Step) : Prop where
  first : look (leg (session.past s b) a).face = look (leg s a).face
  second : look (leg s b).face = look (leg (session.past s a) b).face
  state : R (session.past (session.past s a) b) (session.past (session.past s b) a)

/-- The states agree but for what is written down. -/
def SameBare (raise : Fault → Cause) (s t : State) : Prop :=
  s.Orderly raise ∧ t.bare = s.bare

theorem carries_sameBare (raise : Fault → Cause) : Carries id (SameBare raise) where
  isSome h := congrArg (·.1.isSome) h
  congr h hs ht := ⟨h.1.of_bare hs, ht.trans (h.2.trans hs.symm)⟩
  turn h hstep := by
    obtain ⟨hs, ht⟩ := h
    obtain ⟨P, e, told, f, hacts, hP, horderly⟩ := Step.exists_acts hs hstep
    exact ⟨e, e, told, told, _, _, hacts.yields _ hP, hacts.yields _ (hacts.congr _ _ ht hP),
      ⟨horderly, hacts.bare_eq ht⟩, rfl, rfl⟩

theorem orderly_past (hs : s.Orderly raise) (hstep : step.solitary = true) :
    (session.past s step).Orderly raise := by
  obtain ⟨P, e, told, f, hacts, hP, horderly⟩ := step.exists_acts hs hstep
  exact horderly.of_bare (bare_past (hacts.yields s hP))

theorem trades_of_acts {P Q : State → Prop} {e e' : Ending} {told told' : List Event}
    {f g : State → State} (ha : a.Acts P e told f) (hb : b.Acts Q e' told' g) (hP : P s) (hQ : Q s)
    (hP' : P (g s)) (hQ' : Q (f s)) (hcomm : (f (g s)).bare = (g (f s)).bare)
    (horderly : (session.past (session.past s a) b).Orderly raise) :
    session.Trades id (SameBare raise) s a b := by
  have hya := ha.yields s hP
  have hyb := hb.yields s hQ
  have hpasta : (session.past s a).bare = (f s).bare := bare_past hya
  have hpastb : (session.past s b).bare = (g s).bare := bare_past hyb
  have hyb' := hb.yields _ (hb.congr _ _ hpasta hQ')
  have hya' := ha.yields _ (ha.congr _ _ hpastb hP')
  refine ⟨(face_eq hya').trans (face_eq hya).symm, (face_eq hyb).trans (face_eq hyb').symm,
    horderly, ?_⟩
  calc (session.past (session.past s b) a).bare
      = (f (session.past s b)).bare := bare_past hya'
    _ = (f (g s)).bare := ha.bare_eq hpastb
    _ = (g (f s)).bare := hcomm
    _ = (g (session.past s a)).bare := (hb.bare_eq hpasta).symm
    _ = (session.past (session.past s a) b).bare := (bare_past hyb').symm

/-- **Two steps on different objects come to the same in either order.** -/
theorem trades_of_apart (hs : s.Orderly raise) (ha : a.solitary = true) (hb : b.solitary = true)
    (h : (leg s a).Apart (leg (session.past s a) b)) :
    session.Trades id (SameBare raise) s a b := by
  have horderly : (session.past (session.past s a) b).Orderly raise :=
    orderly_past (orderly_past hs ha) hb
  cases h with
  | @objects o p one other ne =>
    obtain ⟨name, hname, hfind⟩ := Option.bind_eq_some_iff.1 one
    obtain ⟨name', hname', hfind'⟩ := Option.bind_eq_some_iff.1 other
    obtain ⟨w, e, hshows, -, -, hacts⟩ := a.exists_acts_of_named hs hname hfind
    have hnames : (session.past s a).names = (e.on o s).names :=
      State.names_eq_of_bare (bare_past (hacts.yields s hshows))
    have hfound : s.names.objects.find? name' = some p :=
      (congrArg (fun n : Names => n.objects.find? name') hnames).symm.trans hfind'
    obtain ⟨w', e', hshows', -, -, hacts'⟩ := b.exists_acts_of_named hs hname' hfound
    exact trades_of_acts hacts hacts' hshows hshows' (hshows.on_effect_of_ne e' ne.symm)
      (hshows'.on_effect_of_ne e ne) (Effect.on_comm e e' ne s).symm horderly
  | @arrival name p one other ne =>
    obtain ⟨r, hsupplies, -, hacts⟩ := a.exists_acts_of_given hs ha one
    obtain ⟨name', hname', hfind'⟩ := Option.bind_eq_some_iff.1 other
    have hne : name' ≠ name := fun h => ne (hname'.trans (congrArg some h))
    have hnames : (session.past s a).names = (r.on name s).names :=
      State.names_eq_of_bare (bare_past (hacts.yields s hsupplies))
    have hfound : s.names.objects.find? name' = some p := by
      rw [← r.find?_on_of_ne hne s, ← hnames]
      exact hfind'
    obtain ⟨w', e', hshows', -, -, hacts'⟩ := b.exists_acts_of_named hs hname' hfound
    exact trades_of_acts hacts hacts' hsupplies hshows' (hsupplies.on_effect e' p)
      (hshows'.on_arrival hs r hne) (r.on_comm name e' hshows'.own).symm horderly
  | @beforeArrival name o one other ne =>
    obtain ⟨name', hname', hfind'⟩ := Option.bind_eq_some_iff.1 one
    have hne : name' ≠ name := fun h => ne (hname'.trans (congrArg some h))
    obtain ⟨w, e, hshows, -, -, hacts⟩ := a.exists_acts_of_named hs hname' hfind'
    obtain ⟨r, hsupplies, -, hacts'⟩ := b.exists_acts_of_given hs hb other
    exact trades_of_acts hacts hacts' hshows hsupplies (hshows.on_arrival hs r hne)
      (hsupplies.on_effect e o) (r.on_comm name e hshows.own) horderly

/-! ### Whole sessions -/

section Carried

variable {β : Type} {look : Option Result × List Event → β} {R : State → State → Prop}

/-- **From related states the same steps come to the same**, as far as is looked at. -/
theorem faces_of_carries (session : Session) {steps : List Step} (hcarries : Carries look R)
    (h : R s t) (hsteps : ∀ step ∈ steps, step.solitary = true) :
    (session.legs t steps).map (fun leg => look leg.face) =
        (session.legs s steps).map (fun leg => look leg.face) ∧
      (session.runFrom t steps).2.1 = (session.runFrom s steps).2.1 ∧
      R (session.runFrom s steps).2.2 (session.runFrom t steps).2.2 := by
  induction steps generalizing s t with
  | nil => exact ⟨rfl, rfl, h⟩
  | cons step rest ih =>
    obtain ⟨hstep, hrest⟩ := List.forall_mem_cons.1 hsteps
    obtain ⟨e, e', told, told', u, v, hys, hyt, hrelated, hexit, hlook⟩ := hcarries.turn h hstep
    have hface : look (leg t step).face = look (leg s step).face := by
      rw [face_eq hyt, face_eq hys, hlook]
    have hresult : (runStep step t).control.result?.isSome =
        (runStep step s).control.result?.isSome := hcarries.isSome hface
    cases hr : (runStep step s).control.result? with
    | none =>
      have hr' : (runStep step t).control.result? = none := by
        rw [hr] at hresult
        exact Option.isNone_iff_eq_none.1 (Option.isSome_eq_false_iff.1 hresult)
      rw [legs_of_stop hr, legs_of_stop hr', runFrom_of_stop hr, runFrom_of_stop hr']
      refine ⟨congrArg ([·]) hface, ?_, hcarries.congr hrelated hys.state hyt.state⟩
      show (runStep step t).control.exit = (runStep step s).control.exit
      rw [hyt.control, hys.control, hexit]
    | some result =>
      obtain ⟨result', hr'⟩ : ∃ result', (runStep step t).control.result? = some result' := by
        rw [hr] at hresult
        exact Option.isSome_iff_exists.1 hresult
      rw [legs_of_result hr, legs_of_result hr', runFrom_of_result hr, runFrom_of_result hr',
        List.map_cons, List.map_cons, hface]
      obtain ⟨hfaces, hexits, hstates⟩ :=
        ih (hcarries.congr hrelated (bare_past hys) (bare_past hyt)) hrest
      exact ⟨congrArg _ hfaces, hexits, hstates⟩

end Carried

theorem leg_of_legs_zero {steps : List Step} {x : Leg} (h : (session.legs s steps)[0]? = some x) :
    ∃ step rest, steps = step :: rest ∧ x = leg s step := by
  cases steps with
  | nil => cases h
  | cons step rest =>
    rw [legs] at h
    exact ⟨step, rest, rfl, (Option.some.inj h).symm⟩

/-- A later leg is a leg of what comes after the first step, and that has come to a result. -/
theorem legs_of_legs_succ {steps : List Step} {n : Nat} {x : Leg}
    (h : (session.legs s steps)[n + 1]? = some x) :
    ∃ step rest result, steps = step :: rest ∧ (runStep step s).control.result? = some result ∧
      (session.legs (session.past s step) rest)[n]? = some x := by
  cases steps with
  | nil => cases h
  | cons step rest =>
    cases hr : (runStep step s).control.result? with
    | none =>
      rw [legs_of_stop hr] at h
      cases h
    | some result =>
      rw [legs_of_result hr] at h
      exact ⟨step, rest, result, rfl, hr, h⟩

/-- **Neighbours that trade places** both come to what they came to before, and so does every other
step, up to the end of the session and the state it leaves. -/
theorem faces_trade {β : Type} {look : Option Result × List Event → β} {R : State → State → Prop}
    {steps : List Step} {n : Nat} {x y : Leg} (hcarries : Carries look R) (hs : s.Orderly raise)
    (hsteps : ∀ step ∈ steps, step.solitary = true) (hx : (session.legs s steps)[n]? = some x)
    (hy : (session.legs s steps)[n + 1]? = some y) (hresult : y.result?.isSome = true)
    (htrades : ∀ (u : State) (a b : Step), u.Orderly raise → a.solitary = true →
      b.solitary = true → x = leg u a → y = leg (session.past u a) b →
        x.result?.isSome = true → session.Trades look R u a b) :
    (session.legs s (trade n steps)).map (fun leg => look leg.face) =
        trade n ((session.legs s steps).map fun leg => look leg.face) ∧
      (session.runFrom s (trade n steps)).2.1 = (session.runFrom s steps).2.1 ∧
      R (session.runFrom s steps).2.2 (session.runFrom s (trade n steps)).2.2 := by
  induction n generalizing s steps with
  | zero =>
    obtain ⟨a, rest, result, rfl, hra, hy⟩ := legs_of_legs_succ hy
    obtain ⟨b, after, rfl, hyleg⟩ := leg_of_legs_zero hy
    obtain ⟨_, _, heq, hxleg⟩ := leg_of_legs_zero hx
    cases heq
    obtain ⟨ha, hrest⟩ := List.forall_mem_cons.1 hsteps
    obtain ⟨hb, hafter⟩ := List.forall_mem_cons.1 hrest
    have hxresult : x.result?.isSome = true := by
      rw [hxleg]
      exact Option.isSome_iff_exists.2 ⟨result, hra⟩
    obtain ⟨hfirst, hsecond, hstate⟩ := htrades s a b hs ha hb hxleg hyleg hxresult
    rw [hyleg] at hresult
    obtain ⟨result', hrb⟩ := Option.isSome_iff_exists.1 hresult
    obtain ⟨_, hrb'⟩ := Option.isSome_iff_exists.1 ((hcarries.isSome hsecond).trans hresult)
    obtain ⟨_, hra'⟩ := Option.isSome_iff_exists.1
      ((hcarries.isSome hfirst).trans (hxleg ▸ hxresult))
    obtain ⟨hfaces, hexit, hstates⟩ := session.faces_of_carries hcarries hstate hafter
    rw [trade, legs_of_result hrb', legs_of_result hra', legs_of_result hra, legs_of_result hrb,
      runFrom_of_result hrb', runFrom_of_result hra', runFrom_of_result hra, runFrom_of_result hrb]
    refine ⟨?_, hexit, hstates⟩
    simp only [List.map_cons, trade, hfirst, hsecond, hfaces]
  | succ n ih =>
    obtain ⟨c, rest, result, rfl, hrc, hx⟩ := legs_of_legs_succ hx
    obtain ⟨_, _, _, heq, _, hy⟩ := legs_of_legs_succ hy
    cases heq
    obtain ⟨hc, hrest⟩ := List.forall_mem_cons.1 hsteps
    obtain ⟨hfaces, hexit, hstate⟩ := ih (orderly_past hs hc) hrest hx hy
    rw [trade, legs_of_result hrc, legs_of_result hrc, runFrom_of_result hrc,
      runFrom_of_result hrc, List.map_cons, List.map_cons, trade]
    exact ⟨congrArg _ hfaces, hexit, hstate⟩

/-- Every leg starts from an orderly state. -/
theorem exists_start_of_mem {steps : List Step} {x : Leg} (hs : s.Orderly raise)
    (hsteps : ∀ step ∈ steps, step.solitary = true) (hx : x ∈ session.legs s steps) :
    ∃ (u : State) (step : Step), u.Orderly raise ∧ x = leg u step := by
  induction steps generalizing s with
  | nil => cases hx
  | cons step rest ih =>
    obtain ⟨hstep, hrest⟩ := List.forall_mem_cons.1 hsteps
    cases hr : (runStep step s).control.result? with
    | none =>
      rw [legs_of_stop hr] at hx
      exact ⟨s, step, hs, List.mem_singleton.1 hx⟩
    | some result =>
      rw [legs_of_result hr] at hx
      rcases List.mem_cons.1 hx with rfl | hx
      · exact ⟨s, step, hs, rfl⟩
      · exact ih (orderly_past hs hstep) hrest hx

end Session
end Custody
