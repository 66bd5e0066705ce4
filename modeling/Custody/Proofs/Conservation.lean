import Custody.Proofs.Life

/-! Finalizers are conserved.

A routine that a script supplies is run or thrown away, once at most and never both.
It is run by the release that takes the last reference to the object whose cell holds
it, and by no other transition; for an object whose slot is left alone it has run just
if there was such a release (`conserves`). Two measures carry this: what can still be
told of a label together with what was told already never grows, and a finalizer that
has left its cell does not come back. -/
namespace Custody

/-! ### What can still be told -/

theorem View.supply_begin_le {v : View} {t : Teardown} {cell : Cell}
    (hc : v.cell? t.cell = some cell) (label : String) :
    (v.begin t cell.finalizer).supply label + bodySupply label (Machine.bodyOf cell.finalizer) ≤
      v.supply label := by
  have hcell := supply_updateCell label t.cell (fun _ => {locked := true}) v
  rw [hc] at hcell
  have hempty : cellSupply label ((some cell).map fun _ => ({locked := true} : Cell)) = 0 := rfl
  have hbegin : (v.begin t cell.finalizer).supply label =
      (v.updateCell t.cell fun _ => {locked := true}).supply label +
        (entered t.object cell.finalizer).countP (·.tellsOf label) := by
    simp [supply, begin, updateCell, List.countP_append]
    omega
  -- The routine's own label is told of as it is entered, the rest waits in its steps.
  have hsplit : (entered t.object cell.finalizer).countP (·.tellsOf label) +
      bodySupply label (Machine.bodyOf cell.finalizer) = cellSupply label (some cell) := by
    show _ = routineSupply label cell.routine?
    unfold Cell.routine?
    cases cell.finalizer with
    | none => rfl
    | some finalizer =>
      cases finalizer with
      | dropValue => rfl
      | routine r =>
        obtain ⟨convention, own, body⟩ := r
        show ([Event.entered own t.object (some true)].countP (·.tellsOf label)) +
          bodySupply label body = (if own = label then 1 else 0) + bodySupply label body
        by_cases h : own = label <;> simp [Event.tellsOf, h]
  omega

theorem View.supply_finish_le (t : Teardown) (v : View) (label : String) :
    (v.finish t).supply label ≤ v.supply label := by
  rw [finish_eq]
  exact supply_freeCell_le

namespace Stage

variable {st st' : Stage}

/-- What was told of routines, in order. -/
def told (st : Stage) : List Event :=
  st.events.filter (·.tellsRoutine)

def supply (label : String) (st : Stage) : Nat :=
  st.view.supply label + st.pending label

theorem supply_le_of_moves (hm : st.Moves st') (label : String) :
    st'.supply label ≤ st.supply label := by
  unfold supply
  cases hm with
  | shifts rs hshifts _ hsupply _ =>
    have := hshifts.supply_le label
    have := hsupply label
    omega
  | begins o c cell hlast hview _ hsupply =>
    obtain ⟨_, hfound, _⟩ := hlast.opens
    have hbegin := View.supply_begin_le (t := ⟨o, c⟩) hfound label
    have := hsupply label
    rw [hview]
    omega
  | finishes t hview _ hsupply _ =>
    have := View.supply_finish_le t st.view label
    have := hsupply label
    rw [hview]
    omega

theorem countP_le_supply (label : String) (st : Stage) :
    st.events.countP (·.tellsOf label) ≤ st.supply label := by
  have htold : st.view.told.countP (·.tellsOf label) = st.events.countP (·.tellsOf label) := by
    show (st.events.filter (·.tellsRoutine)).reverse.countP _ = _
    rw [List.countP_reverse, List.countP_filter]
    refine List.countP_congr fun event _ => ?_
    rw [Bool.and_eq_true]
    exact ⟨fun h => h.1, fun h => ⟨h, Event.tellsRoutine_of_tellsOf h⟩⟩
  rw [← htold]
  exact Nat.le_trans (Nat.le_add_left _ _) (Nat.le_add_right _ _)

/-! ### What is told by a transition -/

/-- A transition tells that routines were thrown away, or it is a last release and tells that the
finalizer runs. -/
theorem told_of_moves (hm : st.Moves st') (hsound : Sound st.view (teardowns st.stack)) :
    ∃ new, st'.told = st.told ++ new ∧ ∀ label o locked, .entered label o locked ∈ new →
      ∃ c cell, st.Releases o c cell ∧ (∃ r, cell.finalizer = some (.routine r) ∧ r.label = label) ∧
        st'.view.cell? c = some {locked := true} := by
  have hview (new : List Event) (h : st'.view.told = new ++ st.view.told) :
      st'.told = st.told ++ new.reverse := by
    have : st'.told.reverse = new ++ st.told.reverse := h
    rw [← List.reverse_inj, this]
    simp
  cases hm with
  | shifts rs hshifts _ _ _ =>
    obtain ⟨new, hnew, hdiscarded⟩ : ∃ new, st'.view.told = new ++ st.view.told ∧
        ∀ event ∈ new, ∃ label, event = .discarded label := by
      refine hshifts.kept (P := fun v => ∃ new, v.told = new ++ st.view.told ∧
        ∀ event ∈ new, ∃ label, event = .discarded label) (fun _ v w hs ⟨new, hnew, hall⟩ => ?_)
        ⟨[], rfl, nofun⟩
      obtain ⟨newer, hnewer, hall'⟩ := hs.told_eq
      refine ⟨newer ++ new, by rw [hnewer, hnew, List.append_assoc], fun event h => ?_⟩
      exact (List.mem_append.1 h).elim (hall' event) (hall event)
    refine ⟨_, hview new hnew, fun label o locked h => ?_⟩
    obtain ⟨_, heq⟩ := hdiscarded _ (List.mem_reverse.1 h)
    cases heq
  | begins o c cell hlast hbegin _ _ =>
    obtain ⟨_, hfound, _⟩ := hlast.opens
    refine ⟨_, hview (View.entered o cell.finalizer) (by rw [hbegin]; rfl),
      fun label p locked h => ?_⟩
    obtain ⟨rfl, -, r, hr, rfl⟩ := View.mem_entered.1 (List.mem_reverse.1 h)
    refine ⟨c, cell, hlast, ⟨r, hr, rfl⟩, ?_⟩
    rw [hbegin]
    exact View.cell?_begin_self hfound
  | finishes t hfinish hunder _ _ =>
    rw [hunder] at hsound
    refine ⟨_, hview [] ?_, nofun⟩
    rw [hfinish]
    exact hsound.told_finish

/-! ### Finalizers in their cells -/

/-- The cells of a view hold no finalizer that they did not hold before. -/
def Spends (v w : View) : Prop :=
  v.cells.length ≤ w.cells.length ∧ ∀ c cell, c < v.cells.length → w.cell? c = some cell →
    ∃ before, v.cell? c = some before ∧
      (cell.finalizer = before.finalizer ∨ cell.finalizer = none)

theorem Spends.refl (v : View) : Spends v v :=
  ⟨Nat.le_refl _, fun _ cell _ hc => ⟨cell, hc, .inl rfl⟩⟩

theorem Spends.trans {u v w : View} (h : Spends u v) (h' : Spends v w) : Spends u w := by
  refine ⟨Nat.le_trans h.1 h'.1, fun c cell hlt hc => ?_⟩
  obtain ⟨mid, hmid, hcell⟩ := h'.2 c cell (Nat.lt_of_lt_of_le hlt h.1) hc
  obtain ⟨before, hbefore, hfinalizer⟩ := h.2 c mid hlt hmid
  refine ⟨before, hbefore, ?_⟩
  rcases hcell with hcell | hcell
  · rw [hcell]
    exact hfinalizer
  · exact .inr hcell

theorem spends_of_shift {edits : ObjectId → Prop} {r : Option (Routine Step)} {v w : View}
    (hs : Shift edits r v w) : Spends v w := by
  refine ⟨hs.length_le, fun c cell hlt hc => ?_⟩
  obtain ⟨count, hv⟩ := hs.cell_of_some hlt hc
  exact ⟨_, hv, .inl rfl⟩

theorem spends_of_moves (hm : st.Moves st') : Spends st.view st'.view := by
  cases hm with
  | shifts rs hshifts _ _ _ =>
    exact hshifts.kept (P := Spends st.view) (fun _ _ _ hs h => h.trans (spends_of_shift hs))
      (.refl _)
  | begins o c cell _ hview _ _ =>
    rw [hview]
    refine ⟨by simp [View.begin, View.updateCell], fun d after _ hd => ?_⟩
    rw [View.cell?_begin] at hd
    split at hd
    · obtain ⟨before, hbefore, rfl⟩ := Option.map_eq_some_iff.1 hd
      exact ⟨before, hbefore, .inr rfl⟩
    · exact ⟨after, hd, .inl rfl⟩
  | finishes t hview _ _ _ =>
    rw [hview]
    refine ⟨by simp [View.finish_eq, View.freeCell, View.unlink, View.discard], ?_⟩
    intro d after _ hd
    rw [View.cell?_finish] at hd
    split at hd
    · cases hd
    · exact ⟨after, hd, .inl rfl⟩

end Stage

/-! ### Sessions -/

namespace Session

variable {session : Session} {s : State}

theorem supply_stage_le (session : Session) (h : s.Fresh) (label : String) (n : Nat) :
    (session.stage s n).supply label ≤ bodySupply label session.steps := by
  induction n with
  | zero =>
    have hview : (session.stage s 0).view.supply label = 0 := by
      have hcells : (session.stage s 0).view.cells = [] := by
        show s.heap.cells = []
        rw [h.heap]
      have htold : (session.stage s 0).view.told = [] := rfl
      simp [View.supply, hcells, htold]
    have hpending : (session.stage s 0).pending label = bodySupply label session.steps + 0 := rfl
    unfold Stage.supply
    omega
  | succ n ih => exact Nat.le_trans (Stage.supply_le_of_moves (session.moves_stage s n) label) ih

theorem spends_stage (session : Session) (s : State) {i j : Nat} (hij : i ≤ j) :
    Stage.Spends (session.stage s i).view (session.stage s j).view := by
  induction hij with
  | refl => exact .refl _
  | @step j _ ih => exact ih.trans (Stage.spends_of_moves (session.moves_stage s j))

/-- What the transition after `n` others tells of routines. -/
def tells (session : Session) (s : State) (n : Nat) : List Event :=
  (session.stage s (n + 1)).told.drop (session.stage s n).told.length

/-- What becomes of the finalizers that a session supplies. -/
structure Conserves (session : Session) (s : State) : Prop where
  /-- Of a label no more is told, be it that a routine ran or that it was thrown away, than there
  are routines that carry it. -/
  once (n : Nat) (label : String) :
    (session.stage s n).events.countP (·.tellsOf label) ≤ bodySupply label session.steps
  told_succ (n : Nat) :
    (session.stage s (n + 1)).told = (session.stage s n).told ++ session.tells s n
  /-- A routine runs for the object that is being released, out of that object's cell, as its count
  falls from one to zero. -/
  entered (n : Nat) (label : String) (o : ObjectId) (locked : Option Bool)
    (told : .entered label o locked ∈ session.tells s n) :
    ∃ c cell, (session.stage s n).Releases o c cell ∧
      (∃ r, cell.finalizer = some (.routine r) ∧ r.label = label) ∧
      (session.stage s (n + 1)).state.heap.cell? c =
        some {count := 0, locked := true, finalizer := none}
  /-- A finalizer that has left its cell does not come back. -/
  spent (i j : Nat) (later : i ≤ j) (c : CellId) (cell : Cell)
    (known : c < (session.stage s i).state.heap.cells.length)
    (found : (session.stage s j).state.heap.cell? c = some cell) :
    ∃ before, (session.stage s i).state.heap.cell? c = some before ∧
      (cell.finalizer = before.finalizer ∨ cell.finalizer = none)
  /-- A routine of an object whose slot is left alone has run just if the object's last reference
  has been released. -/
  ran_iff (i n : Nat) (later : i ≤ n) (o : ObjectId) (untouched : session.Untouched s o n)
    (c : CellId) (link : (session.stage s i).state.heap.link? o = some c) (cell : Cell)
    (found : (session.stage s i).state.heap.cell? c = some cell) (r : Routine Step)
    (holds : cell.finalizer = some (.routine r)) :
    (∃ locked, .entered r.label o locked ∈ (session.stage s n).events) ↔ session.Released s o 0 n
  /-- Once that release is through, the object is deallocated for good. -/
  deallocated (k j n : Nat) (began : k < j) (later : j ≤ n) (o : ObjectId)
    (untouched : session.Untouched s o n) (c : CellId) (cell : Cell)
    (last : (session.stage s k).Releases o c cell)
    (through : (session.stage s j).stack <:+ (session.stage s k).stack) :
    (session.stage s n).state.heap.link? o = none ∧ (session.stage s n).state.heap.cell? c = none

theorem ran_iff_released (h : s.Fresh) {i n : Nat} (hle : i ≤ n) {o : ObjectId}
    (huntouched : session.Untouched s o n) {c : CellId}
    (hlink : (session.stage s i).state.heap.link? o = some c) {cell : Cell}
    (hfound : (session.stage s i).state.heap.cell? c = some cell) {r : Routine Step}
    (hr : cell.finalizer = some (.routine r)) :
    (∃ locked, .entered r.label o locked ∈ (session.stage s n).events) ↔
      session.Released s o 0 n := by
  have hview : (session.stage s i).view.link o = some c ∧
      (session.stage s i).view.cell? c = some cell := ⟨hlink, hfound⟩
  -- While its cell holds the routine, the object can only be waiting.
  obtain ⟨hwaiting, hearlier⟩ : Waiting (session.stage s i).view o c (some (.routine r)) ∧
      ¬ session.Released s o 0 i := by
    rcases life h (huntouched.mono hle) with ⟨hunborn | ⟨d, f, hw⟩, hnone⟩ | ⟨⟨d, f, hover⟩, _⟩
    · have := (session.sound_stage h i).known o c hview.1
      exact absurd this (Nat.not_lt.2 hunborn.size)
    · obtain rfl : c = d := Option.some.inj (hview.1.symm.trans hw.link)
      obtain ⟨before, hbefore, _, rfl⟩ := hw.cell
      obtain rfl : cell = before := Option.some.inj (hview.2.symm.trans hbefore)
      exact ⟨hr ▸ hw, hnone⟩
    · rcases hover.ended with hgoing | hgone
      · obtain rfl : c = d := Option.some.inj (hview.1.symm.trans hgoing.link)
        obtain ⟨taken, htaken, hnone⟩ := (session.sound_stage h i).taken _ hgoing.mem
        obtain rfl : cell = taken := Option.some.inj (hview.2.symm.trans htaken)
        rw [hr] at hnone
        cases hnone
      · have := hview.1.symm.trans hgone.link
        cases this
  have hsplit : session.Released s o 0 n ↔ session.Released s o i n := by
    constructor
    · rintro ⟨k, _, hkn, hlast⟩
      refine ⟨k, Nat.le_of_not_lt fun hki => hearlier ⟨k, Nat.zero_le k, hki, hlast⟩, hkn, hlast⟩
    · rintro ⟨k, _, hkn, hlast⟩
      exact ⟨k, Nat.zero_le k, hkn, hlast⟩
  have htold (locked : Option Bool) : .entered r.label o locked ∈ (session.stage s n).events ↔
      .entered r.label o locked ∈ (session.stage s n).view.told := by
    simp [Stage.view, Event.tellsRoutine]
  rw [hsplit]
  rcases life_from h hle huntouched hwaiting with ⟨hw, hnone⟩ | ⟨hover, hreleased⟩
  · refine ⟨?_, fun hreleased => absurd hreleased hnone⟩
    rintro ⟨locked, hmem⟩
    exact absurd ((htold locked).1 hmem) (hw.silent r.label locked)
  · exact ⟨fun _ => hreleased, fun _ => ⟨some true, (htold _).2 hover.entered⟩⟩

theorem gone_of_through (h : s.Fresh) {k j n : Nat} (hkj : k < j) (hjn : j ≤ n) {o : ObjectId}
    (huntouched : session.Untouched s o n) {c : CellId} {cell : Cell}
    (hlast : (session.stage s k).Releases o c cell)
    (hthrough : (session.stage s j).stack <:+ (session.stage s k).stack) :
    Gone (session.stage s n).view o c := by
  obtain ⟨_, hfound, hunlocked⟩ := hlast.opens
  obtain ⟨f, hover⟩ := over_of_releases h hkj (huntouched.mono hjn) hlast
  -- The teardown is off the stack, since the stack is no more than it was before.
  have hgone : Gone (session.stage s j).view o c := by
    refine hover.ended.resolve_left fun hgoing => ?_
    have hmem : (⟨o, c⟩ : Teardown) ∈ teardowns (session.stage s k).stack :=
      (hthrough.filterMap _).subset hgoing.mem
    have := ((session.sound_stage h k).locked c cell hfound).2 ⟨_, hmem, rfl⟩
    rw [hunlocked] at this
    cases this
  exact gone_stage hjn huntouched hgone

/-- **Finalizers are conserved.** -/
theorem conserves (session : Session) {s : State} (h : s.Fresh) : session.Conserves s where
  once n label :=
    Nat.le_trans (Stage.countP_le_supply label _) (session.supply_stage_le h label n)
  told_succ n := by
    obtain ⟨new, hnew, _⟩ := Stage.told_of_moves (session.moves_stage s n) (session.sound_stage h n)
    rw [tells, hnew, List.drop_left]
  entered n label o locked told := by
    obtain ⟨new, hnew, hentered⟩ :=
      Stage.told_of_moves (session.moves_stage s n) (session.sound_stage h n)
    rw [tells, hnew, List.drop_left] at told
    exact hentered label o locked told
  spent i j later c cell known found := (session.spends_stage s later).2 c cell known found
  ran_iff i n later o untouched c link cell found r holds :=
    ran_iff_released h later untouched link found holds
  deallocated k j n began later o untouched c cell last through := by
    have hgone := gone_of_through h began later untouched last through
    exact ⟨hgone.link, hgone.freed⟩

/-- The finalizer in the middle has run. Its unwinding has left the object deallocated, and nothing
more will be told of the routine. -/
theorem conserves_nested :
    (∃ locked, .entered "middle" 1 locked ∈ (nested.stage .embedded 37).events) ∧
      ((nested.stage .embedded 37).state.heap.link? 1 = none ∧
        (nested.stage .embedded 37).state.heap.cell? 1 = none) ∧
      (nested.stage .embedded 37).events.countP (·.tellsOf "middle") ≤ 1 := by
  have h := nested.conserves State.fresh_embedded
  have huntouched : nested.Untouched .embedded 1 37 := by
    unfold Untouched
    decide
  have hlast : (nested.stage .embedded 17).Releases 1 1 _ := ⟨_, rfl, rfl, ⟨rfl, rfl, rfl⟩, rfl⟩
  refine ⟨?_, h.deallocated 17 33 37 (by decide) (by decide) 1 huntouched 1 _ hlast ?_,
    h.once 37 "middle"⟩
  · exact (h.ran_iff 13 37 (by decide) 1 huntouched 1 rfl _ rfl _ rfl).2
      ⟨17, by decide, by decide, 1, _, hlast⟩
  · exact ⟨[.repeating .release (some "middle") 0 .native, .attempt], rfl⟩

end Session
end Custody
