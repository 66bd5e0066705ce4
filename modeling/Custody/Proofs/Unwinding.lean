import Custody.Proofs.Life
import Custody.Proofs.StackDiscipline

/-! What an unwinding does on its way.

An unwinding leaves frame after frame up to the one that stops it, and all that it does
on its way is to finish the teardowns that it meets (`unwinds`). What it left is gone:
the objects are deallocated, and no further step of their finalizers is performed. What
it did not reach stands as before. It ends as the result of an attempt or of a step, with
the cause that it began with; where it would leave a foreign call the process stops. -/
namespace Custody

/-- An unwinding leaves the frame and goes on. -/
def Frame.passes : Frame → Bool
  | .repeating _ _ _ _ | .routine _ _ | .teardown _ | .assigning _ _ => true
  | _ => false

/-- The frames that an unwinding leaves. -/
def crossed (stack : List Frame) : List Frame :=
  stack.takeWhile Frame.passes

/-- The frames that an unwinding does not leave, from the one on that stops it. -/
def uncrossed (stack : List Frame) : List Frame :=
  stack.dropWhile Frame.passes

/-! ### Teardowns that are finished -/

namespace Heap

variable {h : Heap} {ts : List Teardown}

/-- What burying one of the teardowns brings about, and no other undoes, holds in the end. -/
theorem buried_of_mem {P : Heap → Prop} {t : Teardown} (hmem : t ∈ ts)
    (hbury : ∀ h : Heap, P (h.bury t))
    (hkept : ∀ (h : Heap) u, P h → P (h.bury u)) : P (ts.foldl bury h) := by
  obtain ⟨before, after, rfl⟩ := List.append_of_mem hmem
  rw [List.foldl_append, List.foldl_cons]
  exact List.foldlRecOn after bury (hbury _) fun h hh u _ => hkept h u hh

theorem link?_buried {o : ObjectId} (hmem : ∃ t ∈ ts, t.object = o) :
    (ts.foldl bury h).link? o = none := by
  obtain ⟨t, ht, rfl⟩ := hmem
  refine buried_of_mem (P := fun h => h.link? t.object = none) ht (fun h => ?_) fun h u hnone => ?_
  · rw [link?_bury, if_pos rfl]
  · rw [link?_bury, hnone, ite_self]

theorem cell?_buried {c : CellId} (hmem : ∃ t ∈ ts, t.cell = c) :
    (ts.foldl bury h).cell? c = none := by
  obtain ⟨t, ht, rfl⟩ := hmem
  refine buried_of_mem (P := fun h => h.cell? t.cell = none) ht (fun h => ?_) fun h u hnone => ?_
  · rw [cell?_bury, if_pos rfl]
  · rw [cell?_bury, hnone, ite_self]

theorem object?_buried_of_ne {o : ObjectId} (hne : ∀ t ∈ ts, t.object ≠ o) :
    (ts.foldl bury h).object? o = h.object? o :=
  List.foldlRecOn (motive := fun h' => h'.object? o = h.object? o) ts bury rfl
    fun _ hkept t ht => (object?_updateObject_of_ne _ (hne t ht)).trans hkept

theorem cell?_buried_of_ne {c : CellId} (hne : ∀ t ∈ ts, t.cell ≠ c) :
    (ts.foldl bury h).cell? c = h.cell? c :=
  List.foldlRecOn (motive := fun h' => h'.cell? c = h.cell? c) ts bury rfl fun _ hkept t ht => by
    rw [cell?_bury, if_neg (hne t ht), hkept]

end Heap

namespace State

/-- The state once teardowns are finished whose finalizers were taken out before: nothing else has
changed. -/
def buried (ts : List Teardown) (s : State) : State :=
  {s with
    heap := ts.foldl Heap.bury s.heap
    statistics := {s.statistics with
      deallocations := s.statistics.deallocations + UInt64.ofNat ts.length}}

theorem buried_nil (s : State) : s.buried [] = s := by
  simp [buried]

theorem buried_append (ts us : List Teardown) (s : State) :
    (s.buried ts).buried us = s.buried (ts ++ us) := by
  simp [buried, List.foldl_append, UInt64.ofNat_add, UInt64.add_assoc]

end State

namespace Session

variable {session : Session} {s t : State} {n : Nat} {records : List Record} {rest : List Step}
  {cause : Cause}

/-! ### On the way -/

/-- A frame that an unwinding passes is left; if it is a teardown's, the teardown is finished. -/
theorem next?_passes {frame : Frame} (hframe : frame.passes = true) (outer : List Frame) :
    session.next? ⟨records, rest, .during ⟨t, .unwind cause, frame :: outer⟩⟩ =
      some ⟨records, rest, .during ⟨(teardowns [frame]).foldl (fun t u => t.finish u) t,
        .unwind cause, outer⟩⟩ := by
  refine next?_during ?_
  cases frame <;> cases hframe <;> rfl

theorem stage_of_passes (h : s.Fresh) (passed outer : List Frame)
    (hpassed : ∀ frame ∈ passed, frame.passes = true)
    (hn : session.stage s n = ⟨records, rest, .during ⟨t, .unwind cause, passed ++ outer⟩⟩) :
    session.stage s (n + passed.length) =
      ⟨records, rest, .during ⟨t.buried (teardowns passed), .unwind cause, outer⟩⟩ := by
  induction passed generalizing n t with
  | nil =>
    rw [teardowns_nil, State.buried_nil]
    exact hn
  | cons frame passed ih =>
    have hnext : session.stage s (n + 1) =
        ⟨records, rest, .during ⟨t.buried (teardowns [frame]), .unwind cause, passed ++ outer⟩⟩ := by
      refine stage_succ_of_next? ?_
      rw [hn, List.cons_append, next?_passes (hpassed frame List.mem_cons_self)]
      cases hframe : frame.teardown? with
      | none =>
        rw [teardowns_cons hframe, teardowns_nil, State.buried_nil]
        rfl
      | some u =>
        -- The teardown's cell is still there, and its finalizer was taken out.
        obtain rfl : frame = .teardown u := by
          cases frame <;> cases hframe
          rfl
        have hsound := session.sound_stage h n
        rw [hn] at hsound
        obtain ⟨cell, hc, hnone⟩ := hsound.taken u List.mem_cons_self
        have hfinish : t.finish u = t.buried [u] := State.finish_of_taken hc hnone
        rw [teardowns_teardown, teardowns_nil, ← hfinish]
        rfl
    have hrest := ih (fun f hf => hpassed f (List.mem_cons_of_mem _ hf)) hnext
    have hsplit : teardowns (frame :: passed) = teardowns [frame] ++ teardowns passed :=
      List.filterMap_append (l := [frame])
    rw [State.buried_append, ← hsplit] at hrest
    rw [List.length_cons, Nat.add_comm passed.length 1, ← Nat.add_assoc]
    exact hrest

/-! ### The end of a session -/

/-- A session comes to rest once. -/
theorem stage_eq_of_rest {i j : Nat} (hi : session.next? (session.stage s i) = none)
    (hj : session.next? (session.stage s j) = none) : session.stage s i = session.stage s j := by
  have hlater {i j : Nat} (hi : session.next? (session.stage s i) = none) (hij : i ≤ j) :
      session.stage s j = session.stage s i := by
    obtain ⟨k, rfl⟩ := Nat.exists_eq_add_of_le hij
    rw [stage_add, after_of_rest hi]
  rcases Nat.le_total i j with hij | hji
  · exact (hlater hi hij).symm
  · exact hlater hj hji

theorem exit_of_rest (hn : session.next? (session.stage s n) = none) :
    (session.runFrom s session.steps).2.1 = (session.ending (session.stage s n)).2.1 := by
  obtain ⟨k, hk, hrun⟩ := session.exists_ending s
  rw [hrun, stage_eq_of_rest hk hn]

/-- A session that does not leave a step is not finished. -/
theorem exit_ne_finished (hn : ∀ k, n ≤ k → ∃ m, (session.stage s k).position = .during m) :
    (session.runFrom s session.steps).2.1 ≠ .finished := by
  obtain ⟨k, hk, hrun⟩ := session.exists_ending s
  obtain ⟨m, hm⟩ := hn (k + n) (Nat.le_add_left n k)
  rw [stage_add, after_of_rest hk] at hm
  rw [hrun]
  unfold ending
  rw [hm]
  obtain ⟨t, control, stack⟩ := m
  cases control with
  | halt halt => cases halt <;> exact nofun
  | _ => exact nofun

/-! ### The release that came before -/

theorem statistics_finalize (u : Teardown) (finalizer : Option Finalizer) (t : State)
    (stack : List Frame) :
    (Machine.finalize u finalizer t stack).state.statistics = t.statistics := by
  have hdropping (v : State) (stack : List Frame) (os : List ObjectId) :
      (Machine.continueDropping none v stack os).state = v := by
    cases os <;> rfl
  unfold Machine.finalize
  split
  · rfl
  · next r =>
    simp only
    cases r.body <;> rfl
  · unfold Machine.dropValue
    simp only
    split
    · rw [hdropping]
      rfl
    · rfl

/-- The release of a last reference is counted as it happens. -/
theorem statistics_of_releases {o : ObjectId} {c : CellId} {cell : Cell}
    (hlast : (session.stage s n).Releases o c cell) :
    (session.stage s (n + 1)).state.statistics =
      (session.stage s n).state.statistics.addRelease := by
  obtain ⟨m, hm, hlast⟩ := hlast
  have hnext : m.next? =
      some (Machine.finalize ⟨o, c⟩ cell.finalizer (m.state.begin ⟨o, c⟩) m.stack) := by
    rw [← Machine.release_of_last hlast.opens hlast.last]
    simp [Machine.next?, hlast.control]
  cases hst : session.stage s n with
  | mk records rest position =>
    rw [hst] at hm
    obtain rfl : position = .during m := hm
    rw [stage_succ_of_next? (hst ▸ next?_during hnext)]
    exact statistics_finalize _ _ _ _

/-- A teardown under way began with a release that came once. -/
theorem exists_releases (h : s.Fresh) {u : Teardown} (huntouched : session.Untouched s u.object n)
    (hmem : u ∈ teardowns (session.stage s n).stack) :
    ∃ k < n, ∃ cell, (session.stage s k).Releases u.object u.cell cell ∧
      ∀ i < n, ∀ c cell', (session.stage s i).Releases u.object c cell' → i = k := by
  have hsound := session.sound_stage h n
  have hlink := tied_stage h huntouched u hmem rfl
  rcases life h huntouched with ⟨hunborn | ⟨c, f, hw⟩, _⟩ | ⟨_, k, _, hk, c, cell, hlast⟩
  · exact absurd (hsound.present u hmem) (Nat.not_lt.2 hunborn.size)
  · obtain rfl : u.cell = c := Option.some.inj (hlink.symm.trans hw.link)
    obtain ⟨cell, hc, hunlocked, _⟩ := hw.cell
    have := (hsound.locked u.cell cell hc).2 ⟨u, hmem, rfl⟩
    rw [hunlocked] at this
    cases this
  · obtain ⟨f, hover⟩ := over_of_releases h hk huntouched hlast
    have hc : u.cell = c := by
      rcases hover.ended with hgoing | hgone
      · exact Option.some.inj (hlink.symm.trans hgoing.link)
      · have := hlink.symm.trans hgone.link
        cases this
    subst hc
    exact ⟨k, hk, cell, hlast, fun i hi d cell' hother =>
      releases_unique h huntouched hi hk hother hlast⟩

/-! ### Teardowns under way -/

/-- A teardown under way has the object's slot and the lock of its cell. -/
theorem held_of_mem (h : s.Fresh) {u : Teardown} (huntouched : session.Untouched s u.object n)
    (hmem : u ∈ teardowns (session.stage s n).stack) :
    (session.stage s n).state.heap.link? u.object = some u.cell ∧
      (session.stage s n).state.Locked u.cell := by
  have hsound := session.sound_stage h n
  obtain ⟨cell, hc, _⟩ := hsound.taken u hmem
  exact ⟨tied_stage h huntouched u hmem rfl, cell, hc,
    (hsound.locked u.cell cell hc).2 ⟨u, hmem, rfl⟩⟩

/-- Two teardowns of one object would be in one cell, since the slot links to both. -/
theorem nodup_objects (h : s.Fresh) (huntouched : ∀ o, session.Untouched s o n) :
    ((teardowns (session.stage s n).stack).map (·.object)).Nodup := by
  have hcells := (session.sound_stage h n).nodup
  rw [List.Nodup, List.pairwise_map] at hcells ⊢
  refine hcells.imp_of_mem fun {u v} hu hv hne huv => hne ?_
  have hulink := tied_stage h (huntouched v.object) u hu huv
  have hvlink := tied_stage h (huntouched v.object) v hv rfl
  exact Option.some.inj (hulink.symm.trans hvlink)

/-! ### The whole way -/

/-- What becomes of an unwinding that is under way at the stage `n`, in the state `t`. The frames
`passed` are those that it leaves, `outer` those from the one on that stops it. -/
structure Unwinds (session : Session) (s : State) (n : Nat) (records : List Record)
    (rest : List Step) (t : State) (cause : Cause) (passed outer : List Frame) : Prop where
  /-- It leaves one frame after the other, and nothing happens but that teardowns are finished. -/
  passing (i : Nat) (within : i ≤ passed.length) : session.stage s (n + i) =
    ⟨records, rest, .during
      ⟨t.buried (teardowns (passed.take i)), .unwind cause, passed.drop i ++ outer⟩⟩
  /-- Each teardown that is finished is that of another object, -/
  distinct : ((teardowns passed).map (·.object)).Nodup
  /-- whose slot is null now and whose cell is freed, -/
  deallocated (u : Teardown) (left : u ∈ teardowns passed) :
    (t.buried (teardowns passed)).heap.link? u.object = none ∧
      (t.buried (teardowns passed)).heap.cell? u.cell = none
  /-- and whose last release came once and was counted once. -/
  released (u : Teardown) (left : u ∈ teardowns passed) :
    ∃ k < n, (∃ cell, (session.stage s k).Releases u.object u.cell cell) ∧
      (session.stage s (k + 1)).state.statistics =
        (session.stage s k).state.statistics.addRelease ∧
      ∀ i < n, ∀ c cell, (session.stage s i).Releases u.object c cell → i = k
  /-- The teardowns further out are still under way. -/
  standing (u : Teardown) (outside : u ∈ teardowns outer) :
    (t.buried (teardowns passed)).heap.link? u.object = some u.cell ∧
      (t.buried (teardowns passed)).Locked u.cell
  spared_object (o : ObjectId) (other : ∀ u ∈ teardowns passed, u.object ≠ o) :
    (t.buried (teardowns passed)).heap.object? o = t.heap.object? o
  spared_cell (c : CellId) (other : ∀ u ∈ teardowns passed, u.cell ≠ c) :
    (t.buried (teardowns passed)).heap.cell? c = t.heap.cell? c
  /-- It ends the step, as its result, -/
  concluded (bottom : outer = []) : session.stage s (n + passed.length + 1) =
    session.conclude records rest (.failed cause) (t.buried (teardowns passed))
  /-- or it ends at an attempt, as the answer of that, -/
  caught (below : List Frame) (attempt : outer = .attempt :: below) :
    session.stage s (n + passed.length + 1) = ⟨records, rest, .during
      ⟨t.buried (teardowns passed), .answer (.failed cause), below⟩⟩
  /-- or with a call of a thread, which goes no further, -/
  joined (calls : List CountCall) (o : ObjectId) (waiting : List (List CountCall))
    (ended : List Bool) (below : List Frame)
    (thread : outer = .thread calls o waiting ended :: below) :
    session.stage s (n + passed.length + 1) = ⟨records, rest, .during
      (Machine.runThreads o (t.buried (teardowns passed)) below waiting (ended ++ [false]))⟩
  /-- or the process stops where it would leave a foreign call, -/
  aborted (frame : Frame) (below : List Frame) (stands : outer = frame :: below)
    (braces : frame.braces = true) (k : Nat) (later : n + passed.length < k) :
    session.stage s k = ⟨records, rest, .during
      ⟨t.buried (teardowns passed), .halt .aborted, below⟩⟩ ∧
      (session.runFrom s session.steps).2.1 = .aborted
  /-- or it meets handles being dropped. Then the foreign call that drops them is never left. -/
  doomed (os : List ObjectId) (earlier : Option Cause) (below : List Frame)
    (drops : outer = .dropping os earlier :: below) (k : Nat) (later : n + passed.length < k) :
    BracedBy below ∧ During (Machine.Doomed below) (session.stage s k) ∧
      (session.runFrom s session.steps).2.1 ≠ .finished

theorem next?_uncrossed {frame : Frame} {outer : List Frame} :
    session.next? ⟨records, rest, .during ⟨t, .unwind cause, frame :: outer⟩⟩ =
      some ⟨records, rest, .during (Machine.unwind cause t outer frame)⟩ :=
  next?_during rfl

/-- A halted machine stays as it is, and so does the session. -/
theorem stage_of_halted {halt : Halt} {stack : List Frame}
    (hn : session.stage s n = ⟨records, rest, .during ⟨t, .halt halt, stack⟩⟩) {k : Nat}
    (hk : n ≤ k) : session.stage s k = session.stage s n ∧
      (session.runFrom s session.steps).2.1 = exitOf halt := by
  have hrest : session.next? (session.stage s n) = none := by
    rw [hn]
    simp [next?, Machine.next?]
  obtain ⟨i, rfl⟩ := Nat.exists_eq_add_of_le hk
  refine ⟨by rw [stage_add, after_of_rest hrest], ?_⟩
  rw [exit_of_rest hrest, hn]
  rfl

/-- An unwinding is under way at the stage `n`, in the state `t`, with the frames `passed` to leave
and `outer` further out. Up to here no slot was edited. -/
structure UnderWay (session : Session) (s : State) (n : Nat) (records : List Record)
    (rest : List Step) (t : State) (cause : Cause) (passed outer : List Frame) : Prop where
  fresh : s.Fresh
  unedited : ∀ k < n, (session.stage s k).edited? = none
  passes : ∀ frame ∈ passed, frame.passes = true
  raised : session.stage s n = ⟨records, rest, .during ⟨t, .unwind cause, passed ++ outer⟩⟩

namespace UnderWay

variable {passed outer : List Frame} {u : Teardown}
  (h : session.UnderWay s n records rest t cause passed outer)
include h

/-- It leaves one frame after the other. -/
theorem passing {i : Nat} (hi : i ≤ passed.length) : session.stage s (n + i) =
    ⟨records, rest, .during
      ⟨t.buried (teardowns (passed.take i)), .unwind cause, passed.drop i ++ outer⟩⟩ := by
  have hraised : session.stage s n = ⟨records, rest, .during
      ⟨t, .unwind cause, passed.take i ++ (passed.drop i ++ outer)⟩⟩ := by
    rw [← List.append_assoc, List.take_append_drop]
    exact h.raised
  have hstage := stage_of_passes h.fresh _ _
    (fun frame hframe => h.passes frame (List.mem_of_mem_take hframe)) hraised
  rwa [List.length_take, Nat.min_eq_left hi] at hstage

/-- It comes to the frame that stops it. -/
theorem arrives : session.stage s (n + passed.length) =
    ⟨records, rest, .during ⟨t.buried (teardowns passed), .unwind cause, outer⟩⟩ :=
  stage_of_passes h.fresh passed outer h.passes h.raised

/-- No slot is edited on the way either. -/
theorem untouched (o : ObjectId) : session.Untouched s o (n + passed.length) := by
  intro k hk
  rcases Nat.lt_or_ge k n with hkn | hnk
  · simp [Stage.Edits, h.unedited k hkn]
  · obtain ⟨i, rfl⟩ := Nat.exists_eq_add_of_le hnk
    rw [h.passing (by omega)]
    exact nofun

theorem untouched_before (o : ObjectId) : session.Untouched s o n :=
  (h.untouched o).mono (Nat.le_add_right n _)

theorem teardowns_eq :
    teardowns (session.stage s n).stack = teardowns passed ++ teardowns outer := by
  rw [h.raised]
  exact List.filterMap_append

theorem distinct : ((teardowns passed).map (·.object)).Nodup := by
  have hnodup := nodup_objects h.fresh h.untouched_before
  rw [h.teardowns_eq, List.map_append] at hnodup
  exact hnodup.sublist (List.sublist_append_left _ _)

theorem released (hu : u ∈ teardowns passed) :
    ∃ k < n, (∃ cell, (session.stage s k).Releases u.object u.cell cell) ∧
      (session.stage s (k + 1)).state.statistics = (session.stage s k).state.statistics.addRelease ∧
      ∀ i < n, ∀ c cell, (session.stage s i).Releases u.object c cell → i = k := by
  have hmem : u ∈ teardowns (session.stage s n).stack := by
    rw [h.teardowns_eq]
    exact List.mem_append_left _ hu
  obtain ⟨k, hk, cell, hrelease, hunique⟩ :=
    exists_releases h.fresh (h.untouched_before u.object) hmem
  exact ⟨k, hk, ⟨cell, hrelease⟩, statistics_of_releases hrelease, hunique⟩

theorem standing (hu : u ∈ teardowns outer) :
    (t.buried (teardowns passed)).heap.link? u.object = some u.cell ∧
      (t.buried (teardowns passed)).Locked u.cell := by
  have hheld := held_of_mem h.fresh (h.untouched u.object) (u := u)
  rw [h.arrives] at hheld
  exact hheld hu

omit h in
theorem concluded (h : session.UnderWay s n records rest t cause passed []) :
    session.stage s (n + passed.length + 1) =
      session.conclude records rest (.failed cause) (t.buried (teardowns passed)) := by
  refine stage_succ_of_next? ?_
  rw [h.arrives]
  simp [next?, Machine.next?]

end UnderWay

/-! ### The frame that stops it -/

namespace UnderWay

variable {passed below : List Frame} {frame : Frame}

/-- The frame that stops an unwinding says what comes of it. -/
theorem stopped (h : session.UnderWay s n records rest t cause passed (frame :: below)) :
    session.stage s (n + passed.length + 1) =
      ⟨records, rest, .during (Machine.unwind cause (t.buried (teardowns passed)) below frame)⟩ := by
  refine stage_succ_of_next? ?_
  rw [h.arrives]
  exact next?_uncrossed

/-- The process stops where a foreign call would be left. -/
theorem aborted (h : session.UnderWay s n records rest t cause passed (frame :: below))
    (hbraces : frame.braces = true) {k : Nat} (hk : n + passed.length < k) :
    session.stage s k = ⟨records, rest, .during
      ⟨t.buried (teardowns passed), .halt .aborted, below⟩⟩ ∧
      (session.runFrom s session.steps).2.1 = .aborted := by
  have hhalted : session.stage s (n + passed.length + 1) = ⟨records, rest, .during
      ⟨t.buried (teardowns passed), .halt .aborted, below⟩⟩ := by
    rw [h.stopped]
    cases frame <;> cases hbraces <;> rfl
  obtain ⟨hstage, hexit⟩ := stage_of_halted hhalted hk
  exact ⟨hstage.trans hhalted, hexit⟩

/-- A foreign call in which handles are being dropped is never left. -/
theorem doomed {os : List ObjectId} {earlier : Option Cause}
    (h : session.UnderWay s n records rest t cause passed (.dropping os earlier :: below)) {k : Nat}
    (hk : n + passed.length < k) :
    BracedBy below ∧ During (Machine.Doomed below) (session.stage s k) ∧
      (session.runFrom s session.steps).2.1 ≠ .finished := by
  have hbraced : BracedBy below := by
    have hstack := session.braced_stage s (n + passed.length)
    rw [h.arrives] at hstack
    exact hstack os earlier below List.suffix_rfl
  have hdoomed : During (Machine.Doomed below) (session.stage s (n + passed.length + 1)) := by
    rw [h.stopped]
    cases earlier with
    | none => exact ⟨_, rfl, Machine.doomed_continueDropping cause _ below os⟩
    | some earlier => exact ⟨_, rfl, .stopped .aborted rfl⟩
  refine ⟨hbraced, doomed_stage hbraced hk hdoomed, ?_⟩
  refine exit_ne_finished (n := n + passed.length + 1) fun k hk => ?_
  obtain ⟨m, hm, _⟩ := doomed_stage hbraced hk hdoomed
  exact ⟨m, hm⟩

end UnderWay

/-- **An unwinding finishes the teardowns that it crosses, and does nothing else.** -/
theorem unwinds (session : Session) {s : State} (h : s.Fresh) {n : Nat}
    (huntouched : ∀ k < n, (session.stage s k).edited? = none) {records : List Record}
    {rest : List Step} {t : State} {cause : Cause} {stack : List Frame}
    (hraised : session.stage s n = ⟨records, rest, .during ⟨t, .unwind cause, stack⟩⟩) :
    session.Unwinds s n records rest t cause (crossed stack) (uncrossed stack) := by
  have hsplit : crossed stack ++ uncrossed stack = stack := List.takeWhile_append_dropWhile
  have hunder : session.UnderWay s n records rest t cause (crossed stack) (uncrossed stack) := {
    fresh := h
    unedited := huntouched
    passes := List.all_eq_true.1 List.all_takeWhile
    raised := hsplit.symm ▸ hraised }
  generalize crossed stack = passed at *
  generalize uncrossed stack = outer at *
  exact {
    passing := fun _ => hunder.passing
    distinct := hunder.distinct
    deallocated := fun u hu => ⟨Heap.link?_buried ⟨u, hu, rfl⟩, Heap.cell?_buried ⟨u, hu, rfl⟩⟩
    released := fun _ => hunder.released
    standing := fun _ => hunder.standing
    spared_object := fun _ => Heap.object?_buried_of_ne
    spared_cell := fun _ => Heap.cell?_buried_of_ne
    concluded := fun hbottom => (hbottom ▸ hunder).concluded
    caught := fun _ hattempt => (hattempt ▸ hunder).stopped
    joined := fun _ _ _ _ _ hthread => (hthread ▸ hunder).stopped
    aborted := fun _ _ hframe hbraces _ hk => (hframe ▸ hunder).aborted hbraces hk
    doomed := fun _ _ _ hdropping _ hk => (hdropping ▸ hunder).doomed hk }

/-- The panic of the innermost finalizer leaves two objects deallocated and comes to the attempt of
the third, which stays under way. -/
theorem unwinds_nested :
    (nested.stage .embedded 33).position = .during
      ⟨(nested.stage .embedded 26).state.buried [⟨2, 2⟩, ⟨1, 1⟩], .answer (.failed (.panic "stop")),
        (nested.stage .embedded 33).stack⟩ ∧
      ((nested.stage .embedded 26).state.buried [⟨2, 2⟩, ⟨1, 1⟩]).heap.link? 0 = some 0 ∧
      ((nested.stage .embedded 26).state.buried [⟨2, 2⟩, ⟨1, 1⟩]).Locked 0 := by
  have hraised : nested.stage .embedded 26 = ⟨_, _, .during ⟨_, .unwind (.panic "stop"), _⟩⟩ := rfl
  have h := nested.unwinds State.fresh_embedded (by decide) hraised
  exact ⟨congrArg Stage.position (h.caught _ rfl), h.standing ⟨0, 0⟩ (by decide)⟩

end Session
end Custody
