import Custody.Proofs.Course

/-! The lock discipline.

The locks that are held form a stack: the cells of the teardowns under way, and no
others (`Session.keepsLocks`). A release that takes a count to zero pushes its cell, the
end of its teardown takes it off again and frees the cell, and everything else leaves
every lock as it was found. The invariant that carries this (`Sound`) also keeps apart
what governs an object from what a name stands for, so that no cell is freed while its
teardown goes on. -/
namespace Custody

/-- The locked cells of a view are those of the teardowns. -/
structure Sound (v : View) (ts : List Teardown) : Prop where
  /-- What a slot links to has not been freed. -/
  alive (o : ObjectId) (c : CellId) (link : v.link o = some c) : ∃ cell, v.cell? c = some cell
  known (o : ObjectId) (c : CellId) (link : v.link o = some c) : o < v.size
  single (o p : ObjectId) (c : CellId) (link : v.link o = some c) (other : v.link p = some c) : o = p
  /-- What a name stands for governs nothing. -/
  apart (name : String) (c : CellId) (named : v.named name = some c) :
    c < v.cells.length ∧ (∀ o, v.link o ≠ some c) ∧ ∀ t ∈ ts, t.cell ≠ c
  locked (c : CellId) (cell : Cell) (found : v.cell? c = some cell) :
    cell.locked = true ↔ ∃ t ∈ ts, t.cell = c
  /-- A finalizer is taken out before it runs. -/
  taken (t : Teardown) (mem : t ∈ ts) : ∃ cell, v.cell? t.cell = some cell ∧ cell.finalizer = none
  present (t : Teardown) (mem : t ∈ ts) : t.object < v.size
  own (t : Teardown) (mem : t ∈ ts) (o : ObjectId) (link : v.link o = some t.cell) : o = t.object
  nodup : (ts.map (·.cell)).Nodup
  told (label : String) (o : ObjectId) (locked : Option Bool)
    (mem : .entered label o locked ∈ v.told) : locked = some true

namespace Sound

variable {v w : View} {ts : List Teardown} {edits : ObjectId → Prop}

theorem lt_of_link (h : Sound v ts) {o : ObjectId} {c : CellId} (hl : v.link o = some c) :
    c < v.cells.length := by
  obtain ⟨cell, hc⟩ := h.alive o c hl
  exact View.lt_of_cell? hc

/-- A teardown's cell is not one that is still to come. -/
theorem ne_of_mem (h : Sound v ts) {t : Teardown} (ht : t ∈ ts) : t.cell ≠ v.cells.length := by
  obtain ⟨cell, hc, _⟩ := h.taken t ht
  exact Nat.ne_of_lt (View.lt_of_cell? hc)

/-! ### Changes to cells -/

/-- A change to a cell that leaves its lock, and does not bring a finalizer back. -/
theorem updateCell (h : Sound v ts) (c : CellId) {f : Cell → Cell}
    (hlocked : ∀ cell, (f cell).locked = cell.locked)
    (hfinalizer : ∀ cell : Cell, cell.finalizer = none → (f cell).finalizer = none) :
    Sound (v.updateCell c f) ts where
  alive o d link := by
    obtain ⟨cell, hd⟩ := h.alive o d link
    rw [View.cell?_updateCell]
    split
    · exact ⟨f cell, by rw [hd]; rfl⟩
    · exact ⟨cell, hd⟩
  known := h.known
  single := h.single
  apart name d named := by
    have := h.apart name d named
    simpa [View.updateCell] using this
  locked d cell found := by
    rw [View.cell?_updateCell] at found
    split at found
    · obtain ⟨cell, hd, rfl⟩ := Option.map_eq_some_iff.1 found
      rw [hlocked]
      exact h.locked d cell hd
    · exact h.locked d cell found
  taken t mem := by
    obtain ⟨cell, hd, hnone⟩ := h.taken t mem
    rw [View.cell?_updateCell]
    split
    · exact ⟨f cell, by rw [hd]; rfl, hfinalizer cell hnone⟩
    · exact ⟨cell, hd, hnone⟩
  present := h.present
  own := h.own
  nodup := h.nodup
  told := h.told

/-- A new cell that something new is linked to or stands for, or nothing at all. -/
theorem addCell (h : Sound v ts) (finalizer : Option Finalizer) : Sound (v.addCell finalizer) ts where
  alive o c link := by
    obtain ⟨cell, hc⟩ := h.alive o c link
    rw [View.cell?_addCell, if_neg (Nat.ne_of_lt (View.lt_of_cell? hc))]
    exact ⟨cell, hc⟩
  known := h.known
  single := h.single
  apart name c named := by
    obtain ⟨hlt, hrest⟩ := h.apart name c named
    refine ⟨?_, hrest⟩
    simpa [View.addCell] using Nat.lt_succ_of_lt hlt
  locked c cell found := by
    rw [View.cell?_addCell] at found
    split at found
    · next hc =>
      cases found
      refine ⟨fun hlocked => absurd hlocked Bool.false_ne_true, ?_⟩
      rintro ⟨t, ht, htc⟩
      exact absurd (htc.trans hc) (h.ne_of_mem ht)
    · exact h.locked c cell found
  taken t mem := by
    rw [View.cell?_addCell, if_neg (h.ne_of_mem mem)]
    exact h.taken t mem
  present := h.present
  own := h.own
  nodup := h.nodup
  told := h.told

/-- Freeing a cell that nothing is linked to. Its teardown, if there was one, is over. -/
theorem freeCell {us : List Teardown} (h : Sound v us) {c : CellId} (hlink : ∀ o, v.link o ≠ some c)
    (hsub : ts.Sublist us) (hts : ∀ t ∈ us, t ∈ ts ↔ t.cell ≠ c) : Sound (v.freeCell c) ts where
  alive o d link := by
    have hcd : c ≠ d := fun hcd => hlink o (link.trans (congrArg some hcd.symm))
    rw [View.cell?_freeCell, if_neg hcd]
    exact h.alive o d link
  known := h.known
  single := h.single
  apart name d named := by
    obtain ⟨hlt, hapart, hus⟩ := h.apart name d named
    refine ⟨?_, hapart, fun t ht => hus t (hsub.subset ht)⟩
    simpa [View.freeCell, View.discard] using hlt
  locked d cell found := by
    rw [View.cell?_freeCell] at found
    split at found
    · cases found
    · next hcd =>
      rw [h.locked d cell found]
      constructor
      · rintro ⟨t, ht, rfl⟩
        exact ⟨t, (hts t ht).2 (Ne.symm hcd), rfl⟩
      · rintro ⟨t, ht, rfl⟩
        exact ⟨t, hsub.subset ht, rfl⟩
  taken t mem := by
    have hmem := hsub.subset mem
    rw [View.cell?_freeCell, if_neg (Ne.symm ((hts t hmem).1 mem))]
    exact h.taken t hmem
  present t mem := h.present t (hsub.subset mem)
  own t mem := h.own t (hsub.subset mem)
  nodup := h.nodup.sublist (hsub.map _)
  told label o locked mem := by
    refine h.told label o locked ?_
    have hne : .entered label o locked ∉ View.discarded ((v.cell? c).bind (·.finalizer)) := by
      unfold View.discarded
      split <;> simp
    exact (List.mem_append.1 mem).resolve_left hne

/-! ### Changes to links and names -/

theorem unlink (h : Sound v ts) (o : ObjectId) : Sound (v.unlink o) ts where
  alive p c link := by
    simp only [View.unlink] at link
    split at link
    · cases link
    · exact h.alive p c link
  known p c link := by
    simp only [View.unlink] at link
    split at link
    · cases link
    · exact h.known p c link
  single p q c link other := by
    simp only [View.unlink] at link other
    split at link
    · cases link
    · split at other
      · cases other
      · exact h.single p q c link other
  apart name c named := by
    obtain ⟨hlt, hlink, hts⟩ := h.apart name c named
    refine ⟨hlt, fun p => ?_, hts⟩
    simp only [View.unlink]
    split
    · simp
    · exact hlink p
  locked := h.locked
  taken := h.taken
  present := h.present
  own t mem p link := by
    simp only [View.unlink] at link
    split at link
    · cases link
    · exact h.own t mem p link
  nodup := h.nodup
  told := h.told

/-- Names are given up, or none of what they stand for changes. -/
theorem rename (h : Sound v ts) {named : String → Option CellId}
    (hnamed : ∀ name c, named name = some c → v.named name = some c) :
    Sound {v with named} ts :=
  {h with apart := fun name c hc => h.apart name c (hnamed name c hc)}

/-- An object is linked to a cell that has just been added. -/
theorem relink {u : View} (h : Sound u ts) (finalizer : Option Finalizer)
    {link : ObjectId → Option CellId} {size o : Nat} (hsize : u.size ≤ size) (ho : o < size)
    (hlink : ∀ p c, link p = some c → (p = o ∧ c = u.cells.length) ∨ u.link p = some c) :
    Sound {u.addCell finalizer with size, link} ts := by
  have hadded := h.addCell finalizer
  have hnew : (u.addCell finalizer).cell? u.cells.length = some {finalizer} := by
    rw [View.cell?_addCell, if_pos rfl]
  refine {hadded with alive := ?_, known := ?_, single := ?_, apart := ?_, present := ?_, own := ?_}
  · intro p c hp
    rcases hlink p c hp with ⟨_, rfl⟩ | hp
    · exact ⟨_, hnew⟩
    · exact hadded.alive p c hp
  · intro p c hp
    rcases hlink p c hp with ⟨rfl, _⟩ | hp
    · exact ho
    · exact Nat.lt_of_lt_of_le (h.known p c hp) hsize
  · intro p q c hp hq
    rcases hlink p c hp with ⟨rfl, rfl⟩ | hp
    · rcases hlink q _ hq with ⟨rfl, _⟩ | hq
      · rfl
      · exact absurd (h.lt_of_link hq) (Nat.lt_irrefl _)
    · rcases hlink q c hq with ⟨rfl, rfl⟩ | hq
      · exact absurd (h.lt_of_link hp) (Nat.lt_irrefl _)
      · exact h.single p q c hp hq
  · intro name c named
    obtain ⟨hlt, hapart, hts⟩ := hadded.apart name c named
    refine ⟨hlt, fun p hp => ?_, hts⟩
    rcases hlink p c hp with ⟨_, rfl⟩ | hp
    · exact absurd (h.apart name _ named).1 (Nat.lt_irrefl _)
    · exact hapart p hp
  · exact fun t mem => Nat.lt_of_lt_of_le (h.present t mem) hsize
  · intro t mem p hp
    rcases hlink p _ hp with ⟨_, hc⟩ | hp
    · exact absurd hc (h.ne_of_mem mem)
    · exact h.own t mem p hp

theorem stand (h : Sound v ts) (name : String) (finalizer : Option Finalizer) :
    Sound (v.stand name finalizer) ts := by
  have hadded := h.addCell finalizer
  refine {hadded with apart := fun other c named => ?_}
  simp only [View.stand] at named
  split at named
  · cases named
    refine ⟨by simp [View.stand, View.addCell], fun o ho => ?_, fun t ht => h.ne_of_mem ht⟩
    exact absurd (h.lt_of_link ho) (Nat.lt_irrefl _)
  · exact hadded.apart other c named

/-! ### Transitions -/

/-- A shift leaves every lock. -/
theorem shift {r : Option (Routine Step)} (hs : Shift edits r v w) (h : Sound v ts) : Sound w ts := by
  cases hs with
  | recount _ c count => exact h.updateCell c (fun _ => rfl) fun _ hnone => hnone
  | create _ finalizer =>
    refine h.relink finalizer (Nat.le_succ _) (Nat.lt_succ_self _) fun p c hp => ?_
    split at hp
    · next hpo =>
      cases hp
      exact .inl ⟨hpo, rfl⟩
    · exact .inr hp
  | stand _ name finalizer => exact h.stand name finalizer
  | relink _ o finalizer _ =>
    by_cases ho : o < v.size
    · refine h.relink finalizer (Nat.le_refl _) ho fun p c hp => ?_
      split at hp
      · next hpo =>
        cases hp
        exact .inl ⟨hpo.1, rfl⟩
      · exact .inr hp
    · have hsame : v.relink o finalizer = v.addCell finalizer := by
        simp [View.relink, View.addCell, ho]
      rw [hsame]
      exact h.addCell finalizer
  | unlink _ o _ => exact h.unlink o
  | @free _ name c hc =>
    obtain ⟨_, hlink, hts⟩ := h.apart name c hc
    have hfree : Sound (v.freeCell c) ts :=
      h.freeCell hlink (.refl ts) fun t ht => ⟨fun _ => hts t ht, fun _ => ht⟩
    refine hfree.rename fun other d hd => ?_
    split at hd
    · cases hd
    · exact hd
  | discard _ r =>
    refine {h with told := fun label o locked mem => h.told label o locked ?_}
    have hne : .entered label o locked ∉ View.discarded (some (.routine r)) := by
      unfold View.discarded
      split <;> simp
    exact (List.mem_append.1 mem).resolve_left hne
  | waste _ r => exact h

/-- No teardown under way has a cell that is not locked. -/
theorem ne_of_unlocked (h : Sound v ts) {c : CellId} {cell : Cell} (hc : v.cell? c = some cell)
    (hunlocked : cell.locked = false) : ∀ t ∈ ts, t.cell ≠ c := by
  intro t ht htc
  have hlocked := (h.locked c cell hc).2 ⟨t, ht, htc⟩
  rw [hunlocked] at hlocked
  cases hlocked

/-- A teardown begins with its own object's cell, which was not locked before. -/
theorem begin (h : Sound v ts) {o : ObjectId} {c : CellId} {cell : Cell} (hl : v.link o = some c)
    (hc : v.cell? c = some cell) (hunlocked : cell.locked = false) :
    Sound (v.begin ⟨o, c⟩ cell.finalizer) (⟨o, c⟩ :: ts) := by
  have hself : (v.begin ⟨o, c⟩ cell.finalizer).cell? c = some {locked := true} :=
    View.cell?_begin_self hc
  have hfresh := h.ne_of_unlocked hc hunlocked
  refine {
    alive := ?alive
    known := h.known
    single := h.single
    apart := ?apart
    locked := ?locked
    taken := ?taken
    present := ?present
    own := ?own
    nodup := ?nodup
    told := ?told }
  case alive =>
    intro p d hp
    obtain ⟨other, hd⟩ := h.alive p d hp
    rw [View.cell?_begin]
    split
    · exact ⟨_, by rw [hd]; rfl⟩
    · exact ⟨other, hd⟩
  case apart =>
    intro name d hd
    obtain ⟨hlt, hlink, hts⟩ := h.apart name d hd
    refine ⟨by simpa [View.begin, View.updateCell] using hlt, hlink, fun t ht => ?_⟩
    rcases List.mem_cons.1 ht with rfl | ht
    · rintro rfl
      exact hlink o hl
    · exact hts t ht
  case locked =>
    intro d other hd
    by_cases hcd : c = d
    · subst hcd
      rw [hself] at hd
      cases hd
      exact ⟨fun _ => ⟨_, List.mem_cons_self, rfl⟩, fun _ => rfl⟩
    · rw [View.cell?_begin, if_neg hcd] at hd
      rw [h.locked d other hd]
      constructor
      · rintro ⟨t, ht, htd⟩
        exact ⟨t, List.mem_cons_of_mem _ ht, htd⟩
      · rintro ⟨t, ht, htd⟩
        rcases List.mem_cons.1 ht with rfl | ht
        · exact absurd htd hcd
        · exact ⟨t, ht, htd⟩
  case taken =>
    intro t ht
    rcases List.mem_cons.1 ht with rfl | ht
    · exact ⟨_, hself, rfl⟩
    · rw [View.cell?_begin, if_neg (Ne.symm (hfresh t ht))]
      exact h.taken t ht
  case present =>
    intro t ht
    rcases List.mem_cons.1 ht with rfl | ht
    · exact h.known o c hl
    · exact h.present t ht
  case own =>
    intro t ht p hp
    rcases List.mem_cons.1 ht with rfl | ht
    · exact h.single p o c hp hl
    · exact h.own t ht p hp
  case nodup =>
    rw [List.map_cons, List.nodup_cons]
    refine ⟨fun hmem => ?_, h.nodup⟩
    obtain ⟨t, ht, htc⟩ := List.mem_map.1 hmem
    exact hfresh t ht htc
  case told =>
    intro label p locked hmem
    rcases List.mem_append.1 hmem with hmem | hmem
    · exact (View.mem_entered.1 hmem).2.1
    · exact h.told label p locked hmem

/-- The end of the innermost teardown. -/
theorem finish {t : Teardown} (h : Sound v (t :: ts)) : Sound (v.finish t) ts := by
  rw [View.finish_eq]
  refine (h.unlink t.object).freeCell (fun p hp => ?_) (List.sublist_cons_self t ts) fun u hu => ?_
  · simp only [View.unlink] at hp
    split at hp
    · cases hp
    · next hne => exact hne (h.own t List.mem_cons_self p hp)
  · have hnodup := (List.nodup_cons.1 h.nodup).1
    constructor
    · exact fun hmem huc => hnodup (List.mem_map.2 ⟨u, hmem, huc⟩)
    · intro huc
      rcases List.mem_cons.1 hu with rfl | hu
      · exact absurd rfl huc
      · exact hu

end Sound

/-! ### Sessions -/

variable {session : Session} {s : State}

theorem State.Fresh.sound (h : s.Fresh) :
    Sound (Stage.mk [] session.steps (.between s)).view [] := by
  have hlink (o : ObjectId) : s.heap.link? o = none := by simp [h.heap, Heap.link?, Heap.object?]
  have hname (name : String) : s.names.cells.find? name = none := by
    simp [h.cells, Bindings.find?]
  have hcell (c : CellId) : (Stage.mk [] session.steps (.between s)).view.cell? c = none := by
    simp [Stage.view, Stage.state, State.view, View.cell?, h.heap]
  have hidle (t : Teardown) : t ∉ teardowns [] := List.not_mem_nil
  refine ⟨?_, ?_, ?_, ?_, ?_, fun t ht => absurd ht (hidle t), fun t ht => absurd ht (hidle t),
    fun t ht => absurd ht (hidle t), .nil, ?_⟩
  · exact fun o c hl => absurd hl (by simp [Stage.view, Stage.state, State.view, hlink])
  · exact fun o c hl => absurd hl (by simp [Stage.view, Stage.state, State.view, hlink])
  · exact fun o p c hl => absurd hl (by simp [Stage.view, Stage.state, State.view, hlink])
  · exact fun name c hn => absurd hn (by simp [Stage.view, Stage.state, State.view, hname])
  · exact fun c cell hc => absurd hc (by simp [hcell])
  · exact fun label o locked hmem => absurd hmem (by simp [Stage.view, Stage.events])

theorem Sound.moves {st st' : Stage} (hm : st.Moves st') (h : Sound st.view (teardowns st.stack)) :
    Sound st'.view (teardowns st'.stack) := by
  cases hm with
  | shifts rs hshifts hunder _ _ =>
    rw [hunder]
    exact hshifts.kept (fun _ _ _ => Sound.shift) h
  | begins o c cell hlast hview hunder _ =>
    rw [hview, hunder]
    obtain ⟨m, hposition, hlast⟩ := hlast
    have hstate : st.view.cells = m.state.heap.cells ∧ st.view.link = m.state.heap.link? := by
      simp [Stage.view, Stage.state, hposition, State.view]
    refine h.begin ?_ ?_ hlast.opens.unlocked
    · rw [hstate.2]
      exact hlast.opens.link
    · rw [View.cell?, hstate.1]
      exact hlast.opens.found
  | finishes t hview hunder _ _ =>
    rw [hunder] at h
    rw [hview]
    exact h.finish

theorem Session.sound_stage (session : Session) (h : s.Fresh) (n : Nat) :
    Sound (session.stage s n).view (teardowns (session.stage s n).stack) := by
  induction n with
  | zero => exact h.sound
  | succ n ih => exact ih.moves (session.moves_stage s n)

/-- The cell exists and its lock is held. -/
def State.Locked (s : State) (c : CellId) : Prop :=
  ∃ cell, s.heap.cell? c = some cell ∧ cell.locked = true

namespace Session

/-- What a session keeps to, from a state on. -/
structure KeepsLocks (session : Session) (s : State) : Prop where
  /-- The locked cells are those whose teardown is under way. -/
  held (n : Nat) (c : CellId) : (session.stage s n).state.Locked c ↔
    ∃ t ∈ teardowns (session.stage s n).stack, t.cell = c
  /-- Whatever happened in between, and however it ended: once the stack is back to what it was,
  the cells that are left have the locks that they had. -/
  restored (i j : Nat)
    (through : (session.stage s j).stack = (session.stage s i).stack) (c : CellId)
    (before after : Cell) (hbefore : (session.stage s i).state.heap.cell? c = some before)
    (hafter : (session.stage s j).state.heap.cell? c = some after) : after.locked = before.locked
  /-- A routine starts with its object's cell locked. -/
  entered (n : Nat) (label : String) (o : ObjectId) (locked : Option Bool)
    (told : .entered label o locked ∈ (session.stage s n).events) : locked = some true
  free_between (n : Nat) (t : State) (between : (session.stage s n).position = .between t)
    (c : CellId) : ¬ t.Locked c

/-- **The locks that are held are those of the running finalizers.** -/
theorem keepsLocks (session : Session) {s : State} (h : s.Fresh) : session.KeepsLocks s := by
  have hlocked (n : Nat) (c : CellId) (cell : Cell)
      (hc : (session.stage s n).state.heap.cell? c = some cell) :
      cell.locked = true ↔ ∃ t ∈ teardowns (session.stage s n).stack, t.cell = c :=
    (session.sound_stage h n).locked c cell hc
  have hheld (n : Nat) (c : CellId) : (session.stage s n).state.Locked c ↔
      ∃ t ∈ teardowns (session.stage s n).stack, t.cell = c := by
    constructor
    · rintro ⟨cell, hc, hl⟩
      exact (hlocked n c cell hc).1 hl
    · rintro ⟨t, ht, rfl⟩
      obtain ⟨cell, hc, _⟩ := (session.sound_stage h n).taken t ht
      exact ⟨cell, hc, (hlocked n t.cell cell hc).2 ⟨t, ht, rfl⟩⟩
  refine ⟨hheld, ?_, ?_, ?_⟩
  · intro i j hstack c before after hbefore hafter
    have hj := hlocked j c after hafter
    rw [hstack, ← hlocked i c before hbefore] at hj
    exact Bool.eq_iff_iff.2 hj
  · intro n label o locked htold
    refine (session.sound_stage h n).told label o locked ?_
    simp [Stage.view, htold, Event.tellsRoutine]
  · intro n t hbetween c hc
    have hnone : teardowns (session.stage s n).stack = [] := by
      simp [Stage.stack, hbetween]
    have hstate : (session.stage s n).state = t := by
      simp [Stage.state, hbetween]
    rw [← hstate, hheld, hnone] at hc
    obtain ⟨u, hu, _⟩ := hc
    cases hu

/-- Creates an object with a finalizer of steps and takes a reference to it. -/
def keeping (name : String) (body : List Step) : List Step :=
  [.allocate name 8 (some ⟨.native, name, body⟩) none .native,
    .call .retain (some name) 1 .native]

def lettingGo (name : String) : Step :=
  .call .release (some name) 1 .native

/-- Three finalizers inside one another. The innermost panics, and the outermost catches that. -/
def nested : Session where
  steps :=
    keeping "outer"
      (keeping "middle"
          (keeping "inner" [.act (.panic "stop")] ++
            [lettingGo "inner", .act (.object .faultCount)]) ++
        [.attempt (lettingGo "middle")]) ++
      [lettingGo "outer"]

/-- All three cells are locked while the innermost finalizer runs, and only the outermost once its
panic has been caught. -/
theorem keepsLocks_nested :
    ((nested.stage .embedded 25).state.Locked 0 ∧ (nested.stage .embedded 25).state.Locked 1 ∧
        (nested.stage .embedded 25).state.Locked 2) ∧
      (nested.stage .embedded 33).state.Locked 0 ∧ ¬ (nested.stage .embedded 33).state.Locked 1 ∧
        ¬ (nested.stage .embedded 33).state.Locked 2 := by
  have h := nested.keepsLocks State.fresh_embedded
  rw [h.held, h.held, h.held, h.held, h.held, h.held]
  decide

end Session
end Custody
