import Custody.Proofs.Renumbering

/-! Objects keep apart.

What has been said of steps that are left out, of neighbours that trade places and of steps that
last, put together for every session of allocations and of steps on single objects. -/
namespace Custody
namespace Session

variable {session : Session} {raise : Fault → Cause} {s : State}

/-- **Objects are independent.** What one object shows is not touched by what is done to others, and
nothing that is done to different objects depends on its order. -/
structure KeepsApart (session : Session) (s : State) : Prop where
  /-- Steps on other objects can be left out: the results of the steps on an object and what its
  finalizer tells, and after every other step its count, slot, payload and finalizer, are the same,
  as far as both sessions go. If calls are native, they go equally far and end alike. -/
  spared (x : ObjectId) (mask : List Bool)
    (others : spares x mask (session.legs s session.steps) = true) :
    Matches (∀ step ∈ session.steps, step.name?.isSome = true → step.lasting = true)
      (pick mask ((session.legs s session.steps).map (Leg.sight x)))
      ((session.legs s (pick mask session.steps)).map (Leg.sight x))
      (session.runFrom s session.steps).2.1 (session.runFrom s (pick mask session.steps)).2.1
  /-- Neighbouring steps on different objects can trade places, faults and teardowns among them:
  results and what is told go with the steps, and the session ends alike, in the same heap and with
  the same statistics and the same number of faults. -/
  traded (n : Nat) (x y : Leg) (first : (session.legs s session.steps)[n]? = some x)
    (second : (session.legs s session.steps)[n + 1]? = some y) (apart : x.Apart y)
    (survived : y.result?.isSome = true) :
    (session.legs s (trade n session.steps)).map Leg.face =
        trade n ((session.legs s session.steps).map Leg.face) ∧
      (session.runFrom s (trade n session.steps)).2.1 = (session.runFrom s session.steps).2.1 ∧
      (session.runFrom s (trade n session.steps)).2.2.bare =
        (session.runFrom s session.steps).2.2.bare
  /-- Neighbouring allocations can trade places as well. The two objects then have each other's
  numbers, and that is all: whatever a step reports is the same but for numbers, the session ends
  alike, under every name there are the same count, slot, payload and finalizer in the end, and the
  statistics and the number of faults are the same. -/
  tradedArrivals (n : Nat) (x y : Leg) (name other : String)
    (first : (session.legs s session.steps)[n]? = some x)
    (second : (session.legs s session.steps)[n + 1]? = some y) (one : x.step.given? = some name)
    (next : y.step.given? = some other) (apart : other ≠ name)
    (survived : y.result?.isSome = true) :
    (session.legs s (trade n session.steps)).map (fun leg => Leg.unnumbered leg.face) =
        trade n ((session.legs s session.steps).map fun leg => Leg.unnumbered leg.face) ∧
      (session.runFrom s (trade n session.steps)).2.1 = (session.runFrom s session.steps).2.1 ∧
      (session.runFrom s session.steps).2.2.Resembles
        (session.runFrom s (trade n session.steps)).2.2
  /-- A native step on an object always comes to a result. -/
  survives (x : Leg) (leg : x ∈ session.legs s session.steps) (named : x.object?.isSome = true)
    (lasting : x.step.lasting = true) : x.result?.isSome = true

/-- **In a session of allocations, retains, releases, queries, reads and writes every object goes
its own way**, as long as faults unwind and no finalizer touches an object. -/
theorem keepsApart (hfresh : s.Fresh) (hraise : s.faults.raises = some raise)
    (hsteps : ∀ step ∈ session.steps, step.solitary = true) : session.KeepsApart s where
  spared x mask others :=
    agreesWithout_of_spares (hfresh.orderly hraise) (hfresh.orderly hraise) (.refl x s) hsteps
      others
  traded n x y first second apart survived := by
    obtain ⟨hfaces, hexit, -, hstate⟩ := faces_trade (carries_sameBare raise)
      (hfresh.orderly hraise) hsteps first second survived
      fun u a b hu ha hb hx hy _ => trades_of_apart hu ha hb (hx ▸ hy ▸ apart)
    exact ⟨hfaces, hexit, hstate⟩
  tradedArrivals n x y name other first second one next apart survived := by
    obtain ⟨hfaces, hexit, hstate⟩ := faces_trade (carries_sameNamed raise)
      (hfresh.orderly hraise) hsteps first second survived
      fun u a b hu ha hb hx hy hresult => by
        subst hx hy
        exact trades_of_given hu ha hb one next apart hresult survived
    exact ⟨hfaces, hexit, hstate.resembles⟩
  survives x hx named lasting := by
    obtain ⟨u, step, hu, rfl⟩ := exists_start_of_mem (hfresh.orderly hraise) hsteps hx
    obtain ⟨o, ho⟩ := Option.isSome_iff_exists.1 named
    obtain ⟨name, hname, hfind⟩ := Option.bind_eq_some_iff.1 ho
    obtain ⟨w, e, hshows, -, hlasting, hacts⟩ := step.exists_acts_of_named hu hname hfind
    have hresult : (leg u step).result? = e.ending.result? := (hacts.yields u hshows).result?
    rw [hresult]
    exact hlasting lasting

/-- Two objects side by side. The first one's closure panics, and it is used after it is gone; the
second one's foreign routine writes to the log. -/
def sideBySide : Session where
  steps :=
    [.allocate "a" 8 (some ⟨.native, "a", [.act (.panic "no")]⟩) none .native,
      .allocate "b" 8 (some ⟨.foreign, "b", [.act (.object .statistics)]⟩) none .foreign,
      .call .retain (some "a") 1 .native, .call .retain (some "b") 2 .foreign,
      .call .release (some "a") 1 .native, .act (.object (.write "b" 0 [7])),
      .call .retain (some "a") 1 .native, .act (.object (.read "b" 0 2)),
      .call .release (some "b") 2 .foreign, .call .release (some "a") 1 .native]

/-- Without the first object's steps the second one shows the same, its teardown can trade places
with the use of the first one after its end, and it can be allocated first. -/
theorem keepsApart_sideBySide :
    let s : State := {State.embedded with faults := {reporter := some .unwinding}}
    let mask := [true, true, false, true, false, true, false, true, true, false]
    (sideBySide.runFrom s sideBySide.steps).2.1 = .finished ∧
      (sideBySide.runFrom s sideBySide.steps).2.2.faults.count = 2 ∧
      (sideBySide.legs s (pick mask sideBySide.steps)).map (Leg.sight 1) =
        pick mask ((sideBySide.legs s sideBySide.steps).map (Leg.sight 1)) ∧
      (sideBySide.legs s (trade 8 sideBySide.steps)).map Leg.face =
        trade 8 ((sideBySide.legs s sideBySide.steps).map Leg.face) ∧
      (sideBySide.runFrom s sideBySide.steps).2.2.Resembles
        (sideBySide.runFrom s (trade 0 sideBySide.steps)).2.2 := by
  intro s mask
  have h : sideBySide.KeepsApart s := keepsApart ⟨rfl, rfl, rfl⟩ rfl (by decide)
  refine ⟨by decide, by decide, ?_, ?_, ?_⟩
  · exact (h.spared 1 mask (by decide)).finished (by decide) (by decide)
  · have hfirst : (sideBySide.legs s sideBySide.steps)[8]?.bind Leg.object? = some 1 := by
      decide +kernel
    have hsecond : (sideBySide.legs s sideBySide.steps)[9]?.bind Leg.object? = some 0 := by
      decide +kernel
    have hsurvived : ((sideBySide.legs s sideBySide.steps)[9]?.bind Leg.result?).isSome = true := by
      decide +kernel
    obtain ⟨x, hx, hone⟩ := Option.bind_eq_some_iff.1 hfirst
    obtain ⟨y, hy, hother⟩ := Option.bind_eq_some_iff.1 hsecond
    rw [hy, Option.bind_some] at hsurvived
    exact (h.traded 8 x y hx hy (.objects hone hother (by decide)) hsurvived).1
  · have hfirst : (sideBySide.legs s sideBySide.steps)[0]?.bind (·.step.given?) = some "a" := by
      decide +kernel
    have hsecond : (sideBySide.legs s sideBySide.steps)[1]?.bind (·.step.given?) = some "b" := by
      decide +kernel
    have hsurvived : ((sideBySide.legs s sideBySide.steps)[1]?.bind Leg.result?).isSome = true := by
      decide +kernel
    obtain ⟨x, hx, hone⟩ := Option.bind_eq_some_iff.1 hfirst
    obtain ⟨y, hy, hother⟩ := Option.bind_eq_some_iff.1 hsecond
    rw [hy, Option.bind_some] at hsurvived
    exact (h.tradedArrivals 0 x y "a" "b" hx hy hone hother (by decide) hsurvived).2.2

end Session
end Custody
