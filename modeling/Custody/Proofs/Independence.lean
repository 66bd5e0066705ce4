import Custody.Proofs.Solitude

/-! Steps on other objects can be left out.

A session of allocations and of steps on single objects is cut at its steps (`Session.legs`), and
what an object shows is looked at after each of them (`Leg.sight`). Steps on other objects leave no
trace in it, so the others show the same without them (`Session.agreesWithout_of_spares`). -/
namespace Custody

/-! ### The legs of a session -/

/-- A step of a session: where it starts, and the machine once it has come to rest. -/
structure Leg where
  start : State
  step : Step
  stop : Machine

/-- What an object shows after a step: what came of the step and what was told meanwhile, if it was
an allocation or a step on the object, and then the object and the cell that governs it. -/
structure Sight where
  told : Option (Option Result × List Event)
  object : Option Object
  cell : Option Cell

namespace Leg

def result? (leg : Leg) : Option Result :=
  leg.stop.control.result?

/-- What was told, in order, with the answers inside finalizers in outline. -/
def told (leg : Leg) : List Event :=
  (leg.stop.state.events.map Event.outline).reverse

/-- The object that the step is on. -/
def object? (leg : Leg) : Option ObjectId :=
  leg.step.name?.bind leg.start.names.objects.find?

/-- Whether the step is an allocation or a step on the object. -/
def concerns (x : ObjectId) (leg : Leg) : Bool :=
  match leg.step with
  | .allocate _ _ _ _ _ => true
  | _ => leg.object? == some x

/-- Whether the step is on another object. -/
def elsewhere (x : ObjectId) (leg : Leg) : Bool :=
  leg.object?.any (· != x)

def sight (x : ObjectId) (leg : Leg) : Sight where
  told := if leg.concerns x then some (leg.result?, leg.told) else none
  object := leg.stop.state.heap.object? x
  cell := leg.stop.state.heap.governing? x

end Leg

/-- How a process ends that has stopped. -/
def Control.exit : Control → Exit
  | .halt reason => Session.exitOf reason
  | _ => .blocked

theorem Control.exit_ne_finished (control : Control) : control.exit ≠ .finished := by
  rcases control with _ | _ | _ | _ | _ | _ | _ | _ <;> exact nofun

namespace Session

def leg (s : State) (step : Step) : Leg :=
  ⟨s, step, runStep step s⟩

/-- The state after a step, in which the next one starts. -/
def past (session : Session) (s : State) (step : Step) : State :=
  if session.takesLines then (runStep step s).state.onLogger (·.clearCaptured)
  else (runStep step s).state

/-- The steps of a session as far as it comes. -/
def legs (session : Session) (s : State) : List Step → List Leg
  | [] => []
  | step :: rest =>
    leg s step ::
      match (runStep step s).control.result? with
      | some _ => session.legs (session.past s step) rest
      | none => []

/-- The record of a leg, unless the process has stopped and there is nothing to tell. -/
def recorded (session : Session) (leg : Leg) : List Record :=
  match leg.stop.control with
  | .answer answer => [(session.record (.answered answer) true leg.stop.state).1]
  | .unwind cause => [(session.record (.failed cause) true leg.stop.state).1]
  | .halt reason => (session.lastRecord reason leg.stop.state).toList
  | .perform _ | .release _ => []

variable {session : Session} {s t : State} {step : Step} {rest : List Step}

theorem legs_of_result {result : Result} (h : (runStep step s).control.result? = some result) :
    session.legs s (step :: rest) = leg s step ::
      session.legs (session.past s step) rest := by
  rw [legs, h]

theorem legs_of_stop (h : (runStep step s).control.result? = none) :
    session.legs s (step :: rest) = [leg s step] := by
  rw [legs, h]

theorem runFrom_of_result {result : Result} (h : (runStep step s).control.result? = some result) :
    session.runFrom s (step :: rest) =
      ((session.record result true (runStep step s).state).1 ::
          (session.runFrom (session.past s step) rest).1,
        (session.runFrom (session.past s step) rest).2) := by
  rw [runFrom]
  unfold past
  generalize runStep step s = m at h
  obtain ⟨u, control, stack⟩ := m
  cases control <;> cases h <;> rfl

theorem runFrom_of_stop (h : (runStep step s).control.result? = none) :
    session.runFrom s (step :: rest) = (session.recorded (leg s step),
      (runStep step s).control.exit, (runStep step s).state) := by
  rw [runFrom]
  unfold recorded leg
  generalize runStep step s = m at h
  obtain ⟨u, control, stack⟩ := m
  cases control <;> cases h <;> rfl

theorem bare_past {e : Ending} {told : List Event} {u : State} (h : step.Yields s e told u) :
    (session.past s step).bare = u.bare := by
  refine Eq.trans ?_ h.state
  unfold past
  split <;> rfl

/-! ### Leaving steps out -/

/-- What a mask keeps of a list: everything that it does not mark with `false`. -/
def pick : List Bool → List α → List α
  | _, [] => []
  | mask, x :: rest => if mask.headD true then x :: pick mask.tail rest else pick mask.tail rest

/-- Whether a mask leaves out nothing but steps on objects other than this one. -/
def spares (x : ObjectId) : List Bool → List Leg → Bool
  | _, [] => true
  | mask, leg :: rest => (mask.headD true || leg.elsewhere x) && spares x mask.tail rest

/-- Two accounts of an object agree as far as both go. They agree entirely, and so do the exits, if
nothing stops the process halfway; and they agree if both sessions come to their ends. -/
structure Matches (lasting : Prop) (seen seen' : List Sight) (exit exit' : Exit) : Prop where
  prefixes : seen <+: seen' ∨ seen' <+: seen
  entire : lasting → seen' = seen ∧ exit' = exit
  finished : exit = .finished → exit' = .finished → seen' = seen

namespace Matches

variable {lasting : Prop} {seen seen' : List Sight} {exit exit' : Exit}

theorem cons (h : Matches lasting seen seen' exit exit') (sight : Sight) :
    Matches lasting (sight :: seen) (sight :: seen') exit exit' where
  prefixes := h.prefixes.imp (fun h => (List.prefix_cons_inj sight).2 h)
    fun h => (List.prefix_cons_inj sight).2 h
  entire all := by
    obtain ⟨hseen, hexit⟩ := h.entire all
    exact ⟨congrArg _ hseen, hexit⟩
  finished hexit hexit' := congrArg _ (h.finished hexit hexit')

theorem weaken {lasting' : Prop} (h : Matches lasting seen seen' exit exit')
    (hlasting : lasting' → lasting) : Matches lasting' seen seen' exit exit' where
  prefixes := h.prefixes
  entire all := h.entire (hlasting all)
  finished := h.finished

protected theorem refl (lasting : Prop) (seen : List Sight) (exit : Exit) :
    Matches lasting seen seen exit exit :=
  ⟨.inl (List.prefix_refl _), fun _ => ⟨rfl, rfl⟩, fun _ _ => rfl⟩

/-- An account that is cut off. -/
theorem of_stop (hseen : seen <+: seen' ∨ seen' <+: seen) (hlasting : ¬ lasting)
    (hexit : exit ≠ .finished ∨ exit' ≠ .finished) : Matches lasting seen seen' exit exit' where
  prefixes := hseen
  entire all := absurd all hlasting
  finished h h' := by
    rcases hexit with hexit | hexit
    · exact absurd h hexit
    · exact absurd h' hexit

end Matches

section Turns

variable {raise : Fault → Cause} {x : ObjectId} {name : String}

theorem orderly_of_yields {e : Ending} {told : List Event} {u : State}
    (h : step.Yields s e told u) (hu : u.Orderly raise) :
    (session.past s step).Orderly raise :=
  hu.of_bare (bare_past h)

theorem alike_of_yields {e e' : Ending} {told told' : List Event} {u v : State}
    (h : step.Yields s e told u) (h' : step.Yields t e' told' v) (huv : u.Alike x v) :
    (session.past s step).Alike x (session.past t step) :=
  (State.Alike.of_bare (bare_past h)).symm.trans
    (huv.trans (.of_bare (bare_past h')))

/-- Steps that end alike and leave an object alike show the same of it. -/
theorem sight_eq {e e' : Ending} {told told' : List Event} {u v : State}
    (h : step.Yields s e told u) (h' : step.Yields t e' told' v) (hu : u.Orderly raise)
    (halike : s.Alike x t) (huv : u.Alike x v)
    (hsame : (leg s step).concerns x = true → e' = e ∧ told' = told) :
    (leg t step).sight x = (leg s step).sight x := by
  have hobject : (leg t step).object? = (leg s step).object? :=
    congrArg (fun n : Names => step.name?.bind n.objects.find?) halike.names
  have hconcerns : (leg t step).concerns x = (leg s step).concerns x := by
    unfold Leg.concerns
    rw [hobject]
    rfl
  have hheap : (leg s step).stop.state.heap = u.heap := State.heap_eq_of_bare h.state
  have hheap' : (leg t step).stop.state.heap = v.heap := State.heap_eq_of_bare h'.state
  have hlooks := huv.looked_up hu
  unfold Leg.sight
  rw [hconcerns, hheap, hheap', hlooks.1, hlooks.2]
  cases hconcern : (leg s step).concerns x with
  | false => rfl
  | true =>
    obtain ⟨rfl, rfl⟩ := hsame hconcern
    have hresult : (leg t step).result? = (leg s step).result? := h'.result?.trans h.result?.symm
    have htold : (leg t step).told = (leg s step).told :=
      congrArg List.reverse (h'.told.trans h.told.symm)
    rw [hresult, htold]

/-- A step on another object does not show. -/
theorem exists_yields_of_elsewhere (hs : s.Orderly raise)
    (h : (leg s step).elsewhere x = true) :
    ∃ (e : Ending) (told : List Event) (u : State), step.Yields s e told u ∧ u.Orderly raise ∧
      s.Alike x u ∧ step.name?.isSome ∧ (step.lasting = true → e.result?.isSome) := by
  obtain ⟨o, ho, hne⟩ := (Option.any_eq_true _ _).1 h
  obtain ⟨name, hname, hfind⟩ := Option.bind_eq_some_iff.1 ho
  obtain ⟨w, hshows, hw⟩ := hs.exists_shows hfind
  obtain ⟨e, hsettled, hlasting, hyields⟩ := step.exists_yields_of_named hs.raises hname hw
  exact ⟨e.ending, e.gain.events, e.on o s, hyields s hshows, hs.on_effect hshows.own hsettled,
    .on_effect_of_ne e (bne_iff_ne.1 hne) s, hname ▸ rfl, hlasting⟩

/-- What a step comes to in two states that are alike. -/
inductive Turn (raise : Fault → Cause) (x : ObjectId) (step : Step) (s t : State) : Prop where
  | intro {e e' : Ending} {told told' : List Event} {u v : State} (here : step.Yields s e told u)
    (there : step.Yields t e' told' v) (orderly : u.Orderly raise) (orderly' : v.Orderly raise)
    (alike : u.Alike x v)
    (same : (leg s step).concerns x = true → e' = e ∧ told' = told)
    (ends : e' = e ∨ step.name?.isSome ∧
      (step.lasting = true → e.result?.isSome ∧ e'.result?.isSome))

/-- **States that are alike about an object stay so when both take the same step.** -/
theorem turn_of_alike (hs : s.Orderly raise) (ht : t.Orderly raise) (halike : s.Alike x t)
    (hstep : step.solitary = true) : Turn raise x step s t := by
  cases hname : step.name? with
  | none =>
    unfold Step.solitary at hstep
    split at hstep
    · next name size routine provider via =>
      have hsupplies : s.Supplies raise s.allocators s.names.allocators := ⟨hs.raises, rfl, rfl⟩
      have hsupplies' : t.Supplies raise s.allocators s.names.allocators :=
        ⟨ht.raises, halike.allocators, congrArg Names.allocators halike.names⟩
      exact .intro (hsupplies.yields_allocate name size routine provider via)
        (hsupplies'.yields_allocate name size routine provider via)
        (hs.on_arrival fun _ _ => Step.detached_of_made hstep)
        (ht.on_arrival fun _ _ => Step.detached_of_made hstep) (halike.on_arrival hs ht _ name)
        (fun _ => ⟨rfl, rfl⟩) (.inl rfl)
    · rw [hname] at hstep
      cases hstep
  | some name =>
    cases hfind : s.names.objects.find? name with
    | none =>
      obtain ⟨e, hyields⟩ := step.exists_yields_of_unnamed hname
      exact .intro (hyields s hfind) (hyields t (by rw [halike.names, hfind])) hs ht halike
        (fun _ => ⟨rfl, rfl⟩) (.inl rfl)
    | some o =>
      obtain ⟨w, hshows, hw⟩ := hs.exists_shows hfind
      have hnames : t.names.objects.find? name = s.names.objects.find? name := by
        rw [halike.names]
      obtain ⟨w', hshows', hw'⟩ := ht.exists_shows (hnames.trans hfind)
      obtain ⟨e, hsettled, hlasting, hyields⟩ := step.exists_yields_of_named hs.raises hname hw
      by_cases ho : o = x
      · subst ho
        obtain rfl : w' = w := Option.some.inj
          (hshows'.own.symm.trans (halike.own.trans hshows.own))
        exact .intro (hyields s hshows) (hyields t hshows') (hs.on_effect hshows.own hsettled)
          (ht.on_effect hshows'.own hsettled) (halike.on_effect e hshows.own)
          (fun _ => ⟨rfl, rfl⟩) (.inl rfl)
      · obtain ⟨e', hsettled', hlasting', hyields'⟩ :=
          step.exists_yields_of_named hs.raises hname hw'
        refine .intro (hyields s hshows) (hyields' t hshows') (hs.on_effect hshows.own hsettled)
          (ht.on_effect hshows'.own hsettled')
          ((State.Alike.on_effect_of_ne e ho s).symm.trans
            (halike.trans (.on_effect_of_ne e' ho t)))
          (fun hconcerns => ?_) (.inr ⟨hname ▸ rfl, fun h => ⟨hlasting h, hlasting' h⟩⟩)
        -- The step is on another object, so it does not concern this one.
        have hobject : (leg s step).object? = some o :=
          Option.bind_eq_some_iff.2 ⟨name, hname, hfind⟩
        unfold Leg.concerns at hconcerns
        split at hconcerns
        · next hallocate =>
          have hallocate' : step = _ := hallocate
          rw [hallocate'] at hname
          cases hname
        · rw [hobject] at hconcerns
          exact absurd (Option.some.inj (beq_iff_eq.1 hconcerns)) ho

/-- One session from one state, and from another state what a mask keeps of its steps: what they
show of an object agrees. -/
def AgreesWithout (session : Session) (x : ObjectId) (mask : List Bool) (s t : State)
    (steps : List Step) : Prop :=
  Matches (∀ step ∈ steps, step.name?.isSome = true → step.lasting = true)
    (pick mask ((session.legs s steps).map (Leg.sight x)))
    ((session.legs t (pick mask steps)).map (Leg.sight x))
    (session.runFrom s steps).2.1 (session.runFrom t (pick mask steps)).2.1

theorem pick_cons_of_kept {mask : List Bool} (h : mask.headD true = true) (a : α) (l : List α) :
    pick mask (a :: l) = a :: pick mask.tail l := by
  rw [pick, if_pos h]

theorem pick_cons_of_leftOut {mask : List Bool} (h : ¬ mask.headD true = true) (a : α)
    (l : List α) : pick mask (a :: l) = pick mask.tail l := by
  rw [pick, if_neg h]

/-- Only a step that does not last can stop one of two sessions and not the other. -/
theorem not_lasting_of_stop {e : Ending} (hnamed : step.name?.isSome = true)
    (hends : step.lasting = true → e.result?.isSome = true) (hstop : e.result? = none) :
    ¬ ∀ step' ∈ step :: rest, step'.name?.isSome = true → step'.lasting = true := by
  intro hlasting
  have hsome := hends (hlasting step List.mem_cons_self hnamed)
  rw [hstop] at hsome
  cases hsome

/-- A step that both sessions take. -/
theorem agreesWithout_of_kept {mask : List Bool} (hkeep : mask.headD true = true)
    (halike : s.Alike x t) (hturn : Turn raise x step s t)
    (hrest : ∀ result, (runStep step s).control.result? = some result →
      (session.past s step).Orderly raise → (session.past t step).Orderly raise →
      (session.past s step).Alike x (session.past t step) →
        session.AgreesWithout x mask.tail (session.past s step) (session.past t step) rest) :
    session.AgreesWithout x mask s t (step :: rest) := by
  obtain ⟨here, there, orderly, orderly', alike, same, ends⟩ := hturn
  have hsight := sight_eq here there orderly halike alike same
  unfold AgreesWithout
  rw [pick_cons_of_kept hkeep]
  cases hr : (runStep step s).control.result? with
  | none =>
    rw [legs_of_stop hr, runFrom_of_stop hr, List.map_singleton, pick_cons_of_kept hkeep, pick]
    rcases ends with rfl | ⟨hnamed, hends⟩
    · have hr' : (runStep step t).control.result? = none := by
        rw [there.result?, ← here.result?, hr]
      have hcontrol : (runStep step t).control = (runStep step s).control :=
        there.control.trans here.control.symm
      rw [legs_of_stop hr', runFrom_of_stop hr', List.map_singleton, hsight, hcontrol]
      exact .refl _ _ _
    · refine .of_stop (.inl ?_) ?_ (.inl (Control.exit_ne_finished _))
      · rw [legs, List.map_cons, hsight]
        exact (List.prefix_cons_inj _).2 List.nil_prefix
      · exact not_lasting_of_stop hnamed (fun h => (hends h).1) (here.result?.symm.trans hr)
  | some result =>
    rw [legs_of_result hr, runFrom_of_result hr, List.map_cons, pick_cons_of_kept hkeep]
    cases hr' : (runStep step t).control.result? with
    | none =>
      rw [legs_of_stop hr', runFrom_of_stop hr', List.map_singleton, hsight]
      refine .of_stop (.inr ?_) ?_ (.inr (Control.exit_ne_finished _))
      · exact (List.prefix_cons_inj _).2 List.nil_prefix
      · rcases ends with rfl | ⟨hnamed, hends⟩
        · rw [here.result?, ← there.result?, hr'] at hr
          cases hr
        · exact not_lasting_of_stop hnamed (fun h => (hends h).2) (there.result?.symm.trans hr')
    | some result' =>
      rw [legs_of_result hr', runFrom_of_result hr', List.map_cons, hsight]
      have hmatches := hrest result hr (orderly_of_yields here orderly)
        (orderly_of_yields there orderly') (alike_of_yields here there alike)
      exact (hmatches.weaken fun h step' hstep' =>
        h step' (List.mem_cons_of_mem _ hstep')).cons _

/-- A step on another object that only the first session takes. -/
theorem agreesWithout_of_leftOut {mask : List Bool} (hkeep : ¬ mask.headD true = true)
    (hs : s.Orderly raise) (helsewhere : (leg s step).elsewhere x = true)
    (hrest : ∀ result, (runStep step s).control.result? = some result →
      (session.past s step).Orderly raise → s.Alike x (session.past s step) →
        session.AgreesWithout x mask.tail (session.past s step) t rest) :
    session.AgreesWithout x mask s t (step :: rest) := by
  obtain ⟨e, told, u, hyields, hu, hsu, hnamed, hends⟩ := exists_yields_of_elsewhere hs helsewhere
  unfold AgreesWithout
  rw [pick_cons_of_leftOut hkeep]
  cases hr : (runStep step s).control.result? with
  | none =>
    rw [legs_of_stop hr, runFrom_of_stop hr, List.map_singleton, pick_cons_of_leftOut hkeep, pick]
    exact .of_stop (.inl List.nil_prefix)
      (not_lasting_of_stop hnamed hends (hyields.result?.symm.trans hr))
      (.inl (Control.exit_ne_finished _))
  | some result =>
    rw [legs_of_result hr, runFrom_of_result hr, List.map_cons, pick_cons_of_leftOut hkeep]
    have hmatches := hrest result hr (orderly_of_yields hyields hu)
      (hsu.trans (.of_bare (bare_past hyields)))
    exact hmatches.weaken fun h step' hstep' => h step' (List.mem_cons_of_mem _ hstep')

/-- **Steps on other objects can be left out without a trace.** -/
theorem agreesWithout_of_spares {steps : List Step} {mask : List Bool} (hs : s.Orderly raise)
    (ht : t.Orderly raise) (halike : s.Alike x t) (hsteps : ∀ step ∈ steps, step.solitary = true)
    (hspares : spares x mask (session.legs s steps) = true) :
    session.AgreesWithout x mask s t steps := by
  induction steps generalizing s t mask with
  | nil => exact .refl _ _ _
  | cons step rest ih =>
    obtain ⟨hstep, hrest⟩ := List.forall_mem_cons.1 hsteps
    rw [legs, spares, Bool.and_eq_true, Bool.or_eq_true] at hspares
    obtain ⟨hfirst, hlater⟩ := hspares
    by_cases hkeep : mask.headD true = true
    · refine agreesWithout_of_kept hkeep halike (turn_of_alike hs ht halike hstep)
        fun result hr hs' ht' halike' => ih hs' ht' halike' hrest ?_
      rwa [hr] at hlater
    · refine agreesWithout_of_leftOut hkeep hs (hfirst.resolve_left hkeep)
        fun result hr hs' hskipped => ih hs' ht (hskipped.symm.trans halike) hrest ?_
      rwa [hr] at hlater

end Turns

end Session
end Custody
