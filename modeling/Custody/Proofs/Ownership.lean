import Custody.Proofs.Books
import Custody.Proofs.Life

/-! Handles own the objects that they stand for.

In a session of steps on handles the retain count of an object is the number of its owners:
the handles in the table, those inside of values, and the references that were lent and not
taken back. So no step reports a fault, an object goes when its last owner goes, and a
handle finds itself alone exactly when it is (`Session.ownsHandles`). -/
namespace Custody

variable {session : Session} {base s t : State} {st st' : Stage} {o : ObjectId} {m m' : Machine}

/-! ### Stages -/

section Stages

variable {lent : List ObjectId}

/-- What the state owns is not told from what was observed, or from what is logged. -/
theorem State.Owned.congr (h : s.Owned lent) (hheap : t.heap = s.heap)
    (hhandles : t.names.handles = s.names.handles) : t.Owned lent := by
  obtain ⟨hkeeps, hdistinct⟩ := h
  refine ⟨?_, hhandles ▸ hdistinct⟩
  rw [hheap]
  refine hkeeps.congr fun p => ?_
  unfold State.owners
  rw [hheap, hhandles]

theorem State.Books.congr (h : base.Books s) (hheap : t.heap = s.heap)
    (hfaults : t.faults = s.faults) (hstatistics : t.statistics = s.statistics) : base.Books t := by
  refine ⟨hfaults.trans h.faults, ?_, ?_⟩
  · rw [hstatistics, hheap]
    exact h.allocations
  · rw [hstatistics, hheap]
    exact h.deallocations

namespace Stage

/-- The references that are lent after the next transition. -/
def lending (lent : List ObjectId) (st : Stage) : List ObjectId :=
  match st.position with
  | .between _ => lent
  | .during m => m.lending lent

/-- What the next transition asks for. -/
def Permitted (lent : List ObjectId) (st : Stage) : Prop :=
  match st.position with
  | .between _ => True
  | .during m => m.Permitted lent

instance (lent : List ObjectId) (st : Stage) : Decidable (st.Permitted lent) := by
  unfold Permitted
  split <;> infer_instance

/-- Every object keeps to its owners, and the books are right, unless the script has ended. -/
def Tidy (lent : List ObjectId) (base : State) (st : Stage) : Prop :=
  match st.position with
  | .between s => s.Owned lent ∧ base.Books s
  | .during m => m.control = .halt .malformed ∨ m.Owned lent ∧ base.Books m.state

/-- A stage of a session on handles. -/
structure Handles (lent : List ObjectId) (base : State) (st : Stage) : Prop where
  rest : ∀ step ∈ st.rest, step.onHandles = true
  tidy : st.Tidy lent base
  faults : st.state.faults = base.faults
  answered : ∀ record ∈ st.records, ∃ answer, record.result = .answered answer

theorem Handles.next (h : st.Handles lent base) (hp : st.Permitted lent)
    (hn : session.next? st = some st') : st'.Handles (st.lending lent) base := by
  obtain ⟨hrest, htidy, hfaults, hanswered⟩ := h
  cases Session.advances_of_next? hn with
  | begins records rest s step =>
    obtain ⟨howned, hbooks⟩ := htidy
    refine ⟨fun step' hmem => hrest step' (List.mem_cons_of_mem _ hmem), .inr ⟨?_, ?_⟩, hfaults,
      hanswered⟩
    · refine ⟨howned.keeps, howned.distinct, ⟨hrest step List.mem_cons_self, rfl⟩, nofun, nofun, ?_⟩
      exact .nil
    · exact hbooks.congr rfl rfl rfl
  | @moves records rest m m' hm =>
    rcases htidy with hhalt | ⟨howned, hbooks⟩
    · have hnone : m.next? = none := by simp [Machine.next?, hhalt]
      rw [hm] at hnone
      cases hnone
    · refine ⟨hrest, ?_, (howned.faults hp hm).trans hfaults, hanswered⟩
      rcases howned.next hp hm with hhalt | howned'
      · exact .inl hhalt
      · exact (howned.books hp hm hbooks).imp_right fun hbooks' => ⟨howned', hbooks'⟩
  | answers records rest s answer =>
    rcases htidy with hhalt | ⟨howned, hbooks⟩
    · cases hhalt
    · have hstate : (session.record (.answered answer) true s).2.heap = s.heap ∧
          (session.record (.answered answer) true s).2.names = s.names ∧
          (session.record (.answered answer) true s).2.faults = s.faults ∧
          (session.record (.answered answer) true s).2.statistics = s.statistics := by
        unfold Session.record
        split <;> exact ⟨rfl, rfl, rfl, rfl⟩
      obtain ⟨hheap, hnames, hfaults', hstatistics⟩ := hstate
      have howned' : s.Owned lent := ⟨howned.keeps, howned.distinct⟩
      refine ⟨hrest, ⟨howned'.congr hheap (by rw [hnames]),
        hbooks.congr hheap hfaults' hstatistics⟩, hfaults'.trans hfaults, fun record hmem => ?_⟩
      rcases List.mem_append.1 hmem with hmem | hmem
      · exact hanswered record hmem
      · obtain rfl := List.mem_singleton.1 hmem
        exact ⟨answer, rfl⟩
  | fails records rest s cause =>
    rcases htidy with hhalt | ⟨howned, _⟩
    · cases hhalt
    · exact howned.plain.elim

/-- At rest no step is about to begin. -/
theorem rest_asks_nothing (h : session.next? st = none) :
    st.lending lent = lent ∧ st.Permitted lent := by
  obtain ⟨records, rest, position⟩ := st
  cases position with
  | between s => exact ⟨rfl, trivial⟩
  | during m =>
    obtain ⟨s, control, stack⟩ := m
    cases control with
    | perform step =>
      have hperform : (⟨s, .perform step, stack⟩ : Machine).next? =
          some (Machine.perform s stack step) := rfl
      rw [Session.next?_during hperform] at h
      cases h
    | _ => exact ⟨rfl, trivial⟩

end Stage

end Stages

/-! ### Sessions -/

/-- A state without objects, cells and handles. -/
structure State.Bare (s : State) : Prop where
  fresh : s.Fresh
  handles : s.names.handles = []

theorem State.Bare.owned (h : s.Bare) : s.Owned [] := by
  have hheap := h.fresh.heap
  have hholds (p : ObjectId) : s.heap.holds p = 0 := by rw [hheap]; rfl
  refine ⟨⟨by rw [hheap]; rfl, fun p => ?_⟩, by rw [h.handles]; exact .nil⟩
  refine .unborn (by rw [hheap]; rfl) (by rw [hheap]; rfl) List.not_mem_nil ?_
  unfold State.owners
  rw [h.handles, hholds]
  rfl

theorem State.bare_embedded : State.embedded.Bare :=
  ⟨State.fresh_embedded, rfl⟩

namespace Session

/-- The references that were lent up to a stage and not taken back. -/
def lent (session : Session) (s : State) : Nat → List ObjectId
  | 0 => []
  | n + 1 => (session.stage s n).lending (session.lent s n)

/-- A session of steps on handles, each of which finds what it asks for. -/
structure Orderly (session : Session) (s : State) : Prop where
  handles : ∀ step ∈ session.steps, step.onHandles = true
  permitted (n : Nat) : (session.stage s n).Permitted (session.lent s n)

theorem lent_of_rest {N : Nat} (hrest : session.next? (session.stage s N) = none) (k : Nat) :
    session.stage s (N + k) = session.stage s N ∧
      session.lent s (N + k) = session.lent s N := by
  induction k with
  | zero => exact ⟨rfl, rfl⟩
  | succ k ih =>
    obtain ⟨hstage, hlent⟩ := ih
    constructor
    · rw [← Nat.add_assoc, stage_succ_of_rest (by rw [hstage]; exact hrest), hstage]
    · show (session.stage s (N + k)).lending (session.lent s (N + k)) = _
      rw [hstage, hlent, (Stage.rest_asks_nothing hrest).1]

/-- Whether a session is orderly shows before it rests. -/
theorem Orderly.of_rest {N : Nat} (hsteps : ∀ step ∈ session.steps, step.onHandles = true)
    (hrest : session.next? (session.stage s N) = none)
    (h : ∀ n < N, (session.stage s n).Permitted (session.lent s n)) : session.Orderly s := by
  refine ⟨hsteps, fun n => ?_⟩
  rcases Nat.lt_or_ge n N with hn | hn
  · exact h n hn
  · obtain ⟨k, rfl⟩ := Nat.exists_eq_add_of_le hn
    rw [(lent_of_rest hrest k).1]
    exact (Stage.rest_asks_nothing hrest).2

/-- At the stage `k` an object's last reference is released and its value goes: what has to be
dropped is dropped, so that nothing is left of it. -/
def Drops (session : Session) (s : State) (k : Nat) (o : ObjectId) : Prop :=
  ∃ (cell : Cell) (size : UInt64) (v : Value), (session.stage s k).Releases o o cell ∧
    cell.finalizer = v.finalizer ∧
    (session.stage s k).state.heap.object? o = some ⟨size, some o, .value v⟩ ∧
    (session.stage s (k + 1)).state.heap.object? o = some ⟨size, some o, v.leftover⟩

section Orderly

variable (hs : session.Orderly s) (h : s.Bare)
include hs h

theorem handles_stage (n : Nat) : (session.stage s n).Handles (session.lent s n) s := by
  induction n with
  | zero =>
    refine ⟨hs.handles, ⟨h.owned, rfl, ?_, ?_⟩, rfl, nofun⟩
    · rw [h.fresh.heap]
      exact (UInt64.add_zero _).symm
    · rw [h.fresh.heap]
      exact (UInt64.add_zero _).symm
  | succ n ih =>
    cases hnext : session.next? (session.stage s n) with
    | none =>
      obtain ⟨hstage, hlent⟩ := lent_of_rest hnext 1
      rw [hstage, hlent]
      exact ih
    | some st =>
      rw [stage_succ_of_next? hnext]
      exact ih.next (hs.permitted n) hnext

theorem owned_between {n : Nat} (hb : (session.stage s n).position = .between t) :
    t.Owned (session.lent s n) ∧ s.Books t := by
  have htidy := (handles_stage hs h n).tidy
  unfold Stage.Tidy at htidy
  rwa [hb] at htidy

theorem owned_during {n : Nat} (hd : (session.stage s n).position = .during m) :
    m.control = .halt .malformed ∨ m.Owned (session.lent s n) := by
  have htidy := (handles_stage hs h n).tidy
  unfold Stage.Tidy at htidy
  rw [hd] at htidy
  exact htidy.imp_right And.left

/-- No step on handles overwrites a slot by hand. -/
theorem untouched (o : ObjectId) (n : Nat) : session.Untouched s o n := by
  intro k _ hedits
  unfold Stage.Edits Stage.edited? at hedits
  cases hp : (session.stage s k).position with
  | between t =>
    rw [hp] at hedits
    cases hedits
  | during m =>
    rw [hp] at hedits
    obtain ⟨t, control, stack⟩ := m
    cases control with
    | perform step =>
      rcases owned_during hs h hp with hhalt | howned
      · cases hhalt
      · have hstep := howned.plain.1
        have hslot : step.slot? = none := by
          cases step with
          | act action => cases action <;> first | rfl | cases hstep
          | dropHandle handle => rfl
          | makeUnique handle literal => rfl
          | _ => cases hstep
        simp [Machine.edited?, hslot] at hedits
    | _ => cases hedits

/-! ### The end of an object -/

theorem drops_of_releases {k : Nat} {c : CellId} {cell : Cell}
    (hlast : (session.stage s k).Releases o c cell) : session.Drops s k o := by
  obtain ⟨m, hm, hlast⟩ := hlast
  obtain ⟨t, control, stack⟩ := m
  obtain rfl : control = .release o := hlast.control
  have howned : Machine.Owned (session.lent s k) ⟨t, .release o, stack⟩ :=
    (owned_during hs h hm).resolve_left nofun
  have hposition : session.stage s k =
      ⟨(session.stage s k).records, (session.stage s k).rest, .during ⟨t, .release o, stack⟩⟩ := by
    rw [← hm]
  have hnext : session.stage s (k + 1) = ⟨(session.stage s k).records, (session.stage s k).rest,
      .during (Machine.release o t stack)⟩ := by
    refine stage_succ_of_next? ?_
    rw [hposition]
    exact next?_during rfl
  have hgoes := howned.release.1
  generalize hafter : Machine.release o t stack = m' at hgoes hnext
  cases hgoes with
  | releases _ _ _ _ more stays =>
    obtain ⟨cell', hopens, hcount⟩ := howned.keeps.opens (o := o) (by
      show 0 < _ + [o].count o + _
      rw [List.count_singleton_self]
      omega)
    obtain rfl : c = o := Option.some.inj (hlast.opens.link.symm.trans hopens.link)
    obtain rfl : cell = cell' := Option.some.inj (hlast.opens.found.symm.trans hopens.found)
    rw [hlast.last] at hcount
    exact absurd hcount.symm more
  | begins _ u _ _ frames size v cell last finalizer value becomes around =>
    refine ⟨cell, size, v, ⟨_, hm, last⟩, finalizer, ?_, ?_⟩
    · rw [Stage.state, hm]
      exact value
    · have hstate : (session.stage s (k + 1)).state = u := by
        rw [hnext]
        cases v.children <;> rfl
      have hobjects : u.heap.object? o = (t.heap.setContents o v.leftover).object? o :=
        congrArg (·[o]?) becomes.objects
      rw [hstate, hobjects, Heap.setContents, Heap.object?_updateObject_self, value]
      rfl

/-- Between two steps, an object is gone once its last reference has been released. -/
theorem gone_of_released {n : Nat} (hb : (session.stage s n).position = .between t)
    (hreleased : session.Released s o 0 n) : t.heap.link? o = none := by
  have hview : (session.stage s n).view.link = t.heap.link? := by
    simp [Stage.view, Stage.state, hb, State.view]
  rcases life h.fresh (untouched hs h o n) with ⟨_, hnever⟩ | ⟨⟨c, f, hover⟩, _⟩
  · exact absurd hreleased hnever
  · rcases hover.ended with hgoing | hgone
    · have hmem := hgoing.mem
      simp [Stage.stack, hb] at hmem
    · rw [← hview]
      exact hgone.link

theorem released_of_gone {n : Nat} (hb : (session.stage s n).position = .between t)
    (ho : o < t.heap.objects.length) (hnone : t.heap.link? o = none) :
    session.Released s o 0 n := by
  have hview : (session.stage s n).view.link = t.heap.link? ∧
      (session.stage s n).view.size = t.heap.objects.length := by
    simp [Stage.view, Stage.state, hb, State.view]
  rcases life h.fresh (untouched hs h o n) with ⟨hunborn | ⟨c, f, hwaiting⟩, _⟩ | ⟨_, hreleased⟩
  · exact absurd ho (Nat.not_lt.2 (hview.2 ▸ hunborn.size))
  · have hlink := hwaiting.link
    rw [hview.1, hnone] at hlink
    cases hlink
  · exact hreleased

/-- What is gone was dropped once. -/
theorem dropped_of_gone {n : Nat} (hb : (session.stage s n).position = .between t)
    (ho : o < t.heap.objects.length) (hnone : t.heap.link? o = none) :
    ∃ k < n, session.Drops s k o ∧
      ∀ j < n, ∀ c cell, (session.stage s j).Releases o c cell → j = k := by
  obtain ⟨k, _, hk, c, cell, hlast⟩ := released_of_gone hs h hb ho hnone
  refine ⟨k, hk, drops_of_releases hs h hlast, fun j hj c' cell' hother => ?_⟩
  exact releases_unique h.fresh (untouched hs h o n) hj hk hother hlast

end Orderly

/-- What handles come to in a session. -/
structure OwnsHandles (session : Session) (s : State) : Prop where
  /-- Between two steps the retain count of an object is the number of its owners. -/
  counted (n : Nat) (t : State) (between : (session.stage s n).position = .between t) (o : ObjectId) :
    t.heap.countOf o = t.owners (session.lent s n) o
  /-- An object is deallocated when it has no owner left. -/
  deallocated (n : Nat) (t : State) (between : (session.stage s n).position = .between t)
    (o : ObjectId) : t.heap.link? o = none ↔ t.owners (session.lent s n) o = 0
  /-- It never has one again. -/
  gone (i j : Nat) (hij : i ≤ j) (t u : State) (before : (session.stage s i).position = .between t)
    (after : (session.stage s j).position = .between u) (o : ObjectId)
    (known : o < t.heap.objects.length) (gone : t.heap.link? o = none) : u.heap.link? o = none
  /-- No step reports a fault: none is counted, none unwinds, and no machine halts but over a name
  or a literal that means nothing. -/
  faultless (n : Nat) : (session.stage s n).state.faults = s.faults
  answered (n : Nat) : ∀ record ∈ (session.stage s n).records, ∃ answer,
    record.result = .answered answer
  unhalted (n : Nat) (m : Machine) (during : (session.stage s n).position = .during m) :
    (∀ cause, m.control ≠ .unwind cause) ∧ ∀ halt, m.control = .halt halt → halt = .malformed
  /-- A handle tells how many owners there are. -/
  asked (n : Nat) (t : State) (between : (session.stage s n).position = .between t)
    (handle : String) (o : ObjectId) (found : t.names.handles.find? handle = some o) :
    ∃ u, t.performHandle (.count handle) =
      .returned (.number (t.owners (session.lent s n) o)) u
  /-- A handle is the only owner, or gives out a mutable view, exactly when it has no fellow. -/
  alone (n : Nat) (t : State) (between : (session.stage s n).position = .between t)
    (handle : String) (o : ObjectId) (found : t.names.handles.find? handle = some o) :
    t.performHandle (.isUnique handle) =
      .returned (.flag (decide (t.owners (session.lent s n) o = 1))) t
  mutable (n : Nat) (t : State) (between : (session.stage s n).position = .between t)
    (handle : String) (o : ObjectId) (found : t.names.handles.find? handle = some o)
    (literal : Literal) (fits : (t.heap.value? o).bind (·.updated? literal) ≠ none) :
    ∃ u, t.performHandle (.set handle literal) =
      .returned (.flag (decide (t.owners (session.lent s n) o = 1))) u
  /-- What is gone was dropped once, and nothing else was. -/
  dropped (n : Nat) (t : State) (between : (session.stage s n).position = .between t)
    (o : ObjectId) (known : o < t.heap.objects.length) :
    (t.heap.link? o = none → ∃ k < n, session.Drops s k o ∧
        ∀ j < n, ∀ c cell, (session.stage s j).Releases o c cell → j = k) ∧
      (t.heap.link? o ≠ none → ∀ j < n, ∀ c cell, ¬ (session.stage s j).Releases o c cell)

/-- **The retain count is the number of owners**, whatever steps on handles come before. -/
theorem ownsHandles (session : Session) {s : State} (h : s.Bare) (hs : session.Orderly s) :
    session.OwnsHandles s where
  counted n t between o := (owned_between hs h between).1.keeps.countOf_eq o
  deallocated n t between o := (owned_between hs h between).1.keeps.link?_eq_none_iff o
  gone i j hij t u before after o known gone := by
    obtain ⟨k, _, hk, hlast⟩ := released_of_gone hs h before known gone
    exact gone_of_released hs h after ⟨k, Nat.zero_le k, Nat.lt_of_lt_of_le hk hij, hlast⟩
  faultless n := (handles_stage hs h n).faults
  answered n := (handles_stage hs h n).answered
  unhalted n m during := by
    rcases owned_during hs h during with hhalt | howned
    · rw [hhalt]
      exact ⟨fun cause heq => (by cases heq), fun halt heq => (Control.halt.inj heq).symm⟩
    · refine ⟨fun cause heq => ?_, fun halt heq => ?_⟩
      · have hplain := howned.plain
        simp only [Machine.Plain, heq] at hplain
      · have hplain := howned.plain
        simp only [Machine.Plain, heq] at hplain
  asked n t between handle o found := by
    have howned := (owned_between hs h between).1
    obtain ⟨count, u, hcount, hnumber, _⟩ :=
      State.exists_count howned.keeps (State.Owned.pos found)
    refine ⟨u, ?_⟩
    rw [← hnumber]
    simp only [State.performHandle, State.withHandle, found, State.given, hcount]
    rfl
  alone n t between handle o found := by
    have howned := (owned_between hs h between).1
    simp only [State.performHandle, State.withHandle, found, State.given,
      State.isUnique_of_keeps howned.keeps (State.Owned.pos found)]
    rfl
  mutable n t between handle o found literal fits := by
    have howned := (owned_between hs h between).1
    simp only [State.performHandle, State.withHandle, found, State.given, State.setHandle,
      State.isUnique_of_keeps howned.keeps (State.Owned.pos found), Outcome.andThen_returned]
    by_cases hone : t.owners (session.lent s n) o = 1
    · cases hv : t.heap.value? o with
      | none => simp [hv] at fits
      | some v =>
        rw [hv, Option.bind_some] at fits
        obtain ⟨v', hv'⟩ := Option.ne_none_iff_exists'.1 fits
        simp [hone, State.assign, hv, hv']
    · simp [hone]
  dropped n t between o known := by
    refine ⟨dropped_of_gone hs h between known, fun hlink j hj c cell hlast => ?_⟩
    exact hlink (gone_of_released hs h between ⟨j, Nat.zero_le j, hj, c, cell, hlast⟩)

/-- A tree with a leaf is copied on write; the original goes out of its handle and comes back; then
both are dropped, and the leaf with the second of them. -/
def estate : Session where
  steps := [
    .act (.handle (.create "leaf" .word (.number 1 0))),
    .act (.handle (.create "tree" .node (.node "old" ["leaf"]))),
    .act (.handle (.clone "tree" "copy")),
    .makeUnique "copy" (.text "new"),
    .act (.handle (.intoObject "tree" "raw")),
    .act (.handle (.fromObject "raw" "again")),
    .dropHandle "copy",
    .dropHandle "again"]

theorem orderly_estate : estate.Orderly .embedded :=
  .of_rest (N := 37) (by decide) rfl (by decide +kernel)

/-- The leaf has two owners once its tree was copied. It goes with the second tree, once, and the
copy has gone before. -/
theorem ownsHandles_estate :
    (estate.stage .embedded 14).state.heap.countOf 0 = 2 ∧
      ((estate.stage .embedded 28).state.heap.link? 2 = none ∧
        (estate.stage .embedded 28).state.heap.link? 0 ≠ none) ∧
      ∃ k < 37, estate.Drops .embedded k 0 := by
  have h := estate.ownsHandles State.bare_embedded orderly_estate
  have hgone (n : Nat) := h.deallocated n (estate.stage .embedded n).state
  refine ⟨(h.counted 14 (estate.stage .embedded 14).state rfl 0).trans (by decide +kernel),
    ⟨(hgone 28 rfl 2).2 (by decide +kernel), fun hnone => ?_⟩, ?_⟩
  · have hleft : (estate.stage .embedded 28).state.owners (estate.lent .embedded 28) 0 ≠ 0 := by
      decide +kernel
    exact hleft ((hgone 28 rfl 0).1 hnone)
  · obtain ⟨k, hk, hdrops, _⟩ := (h.dropped 37 (estate.stage .embedded 37).state rfl 0
      (by decide +kernel)).1 ((hgone 37 rfl 0).2 (by decide +kernel))
    exact ⟨k, hk, hdrops⟩

end Session
end Custody
