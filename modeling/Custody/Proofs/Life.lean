import Custody.Proofs.LockDiscipline

/-! The life of an object whose slot is not overwritten by hand.

Such an object waits under the cell it was created with until a release takes its last
reference; then its teardown goes on until it is finished, and after that the object is
gone for good. The finalizer that the cell held while the object waited is told of as
the teardown begins (`Waiting.stays`, `Life.stage`). -/
namespace Custody

/-! ### What shifts leave alone -/

namespace Shift

variable {edits : ObjectId → Prop} {r : Option (Routine Step)} {v w : View}

theorem size_le (h : Shift edits r v w) : v.size ≤ w.size := by
  cases h with
  | create _ finalizer => exact Nat.le_succ _
  | _ => exact Nat.le_refl _

theorem length_le (h : Shift edits r v w) : v.cells.length ≤ w.cells.length := by
  cases h <;> simp [View.recount, View.updateCell, View.create, View.stand, View.relink,
    View.addCell, View.unlink, View.free, View.freeCell, View.discard]

theorem link_eq (h : Shift edits r v w) {o : ObjectId} (ho : o < v.size) (hedits : ¬ edits o) :
    w.link o = v.link o := by
  cases h with
  | create _ finalizer => exact if_neg (Nat.ne_of_lt ho)
  | relink _ p finalizer hp => exact if_neg fun ⟨hop, _⟩ => hedits (hop ▸ hp)
  | unlink _ p hp =>
    have hop : o ≠ p := by
      rintro rfl
      exact hedits hp
    exact if_neg hop
  | _ => rfl

/-- A shift tells of routines that are thrown away, never of one that runs. -/
theorem told_eq (h : Shift edits r v w) :
    ∃ new, w.told = new ++ v.told ∧ ∀ event ∈ new, ∃ label, event = .discarded label := by
  have hdiscarded (finalizer : Option Finalizer) :
      ∀ event ∈ View.discarded finalizer, ∃ label, event = .discarded label := by
    unfold View.discarded
    split
    · next label _ => exact fun event h => ⟨label, List.mem_singleton.1 h⟩
    · nofun
  cases h with
  | free _ _ => exact ⟨_, rfl, hdiscarded _⟩
  | discard _ r => exact ⟨_, rfl, hdiscarded _⟩
  | _ => exact ⟨[], rfl, nofun⟩

/-- A cell that no name stands for is at most counted anew. -/
theorem cell_of_apart (h : Shift edits r v w) {c : CellId} {cell : Cell}
    (hapart : ∀ name, v.named name ≠ some c) (hc : v.cell? c = some cell) :
    ∃ count, w.cell? c = some {cell with count} := by
  have hne : c ≠ v.cells.length := Nat.ne_of_lt (View.lt_of_cell? hc)
  have hadded (finalizer : Option Finalizer) :
      ∃ count, (v.addCell finalizer).cell? c = some {cell with count} := by
    rw [View.cell?_addCell, if_neg hne]
    exact ⟨cell.count, hc⟩
  cases h with
  | recount _ d count =>
    unfold View.recount
    rw [View.cell?_updateCell]
    split
    · exact ⟨count, by rw [hc]; rfl⟩
    · exact ⟨cell.count, hc⟩
  | create _ finalizer => exact hadded finalizer
  | stand _ name finalizer => exact hadded finalizer
  | relink _ o finalizer _ => exact hadded finalizer
  | @free _ name d hd =>
    have hdc : d ≠ c := by
      rintro rfl
      exact hapart name hd
    have hfreed : (v.freeCell d).cell? c = some cell := by
      rw [View.cell?_freeCell, if_neg hdc]
      exact hc
    exact ⟨cell.count, hfreed⟩
  | _ => exact ⟨cell.count, hc⟩

/-- What a cell shows after a shift it had before, but for the count. -/
theorem cell_of_some (h : Shift edits r v w) {c : CellId} {cell : Cell} (hlt : c < v.cells.length)
    (hc : w.cell? c = some cell) : ∃ count, v.cell? c = some {cell with count} := by
  have hadded {finalizer : Option Finalizer} (hc : (v.addCell finalizer).cell? c = some cell) :
      ∃ count, v.cell? c = some {cell with count} := by
    rw [View.cell?_addCell, if_neg (Nat.ne_of_lt hlt)] at hc
    exact ⟨cell.count, hc⟩
  cases h with
  | recount _ d count =>
    unfold View.recount at hc
    rw [View.cell?_updateCell] at hc
    split at hc
    · obtain ⟨before, hbefore, rfl⟩ := Option.map_eq_some_iff.1 hc
      exact ⟨before.count, hbefore⟩
    · exact ⟨cell.count, hc⟩
  | create _ finalizer => exact hadded hc
  | stand _ name finalizer => exact hadded hc
  | relink _ o finalizer _ => exact hadded hc
  | @free _ name d _ =>
    have hfreed : (v.freeCell d).cell? c = some cell := hc
    rw [View.cell?_freeCell] at hfreed
    split at hfreed
    · cases hfreed
    · exact ⟨cell.count, hfreed⟩
  | _ => exact ⟨cell.count, hc⟩

end Shift

/-! ### Phases -/

/-- No routine is known to have run for the object. -/
def View.Silent (v : View) (o : ObjectId) : Prop :=
  ∀ label locked, .entered label o locked ∉ v.told

/-- The finalizer is known to have run for the object, if it is a routine. -/
def View.Entered (v : View) (o : ObjectId) : Option Finalizer → Prop
  | some (.routine r) => .entered r.label o (some true) ∈ v.told
  | _ => True

/-- The object waits for its last release, which will run the finalizer. -/
structure Waiting (v : View) (o : ObjectId) (c : CellId) (f : Option Finalizer) : Prop where
  link : v.link o = some c
  cell : ∃ cell, v.cell? c = some cell ∧ cell.locked = false ∧ cell.finalizer = f
  silent : v.Silent o

structure Going (v : View) (ts : List Teardown) (o : ObjectId) (c : CellId) : Prop where
  link : v.link o = some c
  mem : ⟨o, c⟩ ∈ ts

structure Gone (v : View) (o : ObjectId) (c : CellId) : Prop where
  link : v.link o = none
  present : o < v.size
  freed : v.cell? c = none
  known : c < v.cells.length

/-- The object's last reference has been released. -/
structure Over (v : View) (ts : List Teardown) (o : ObjectId) (c : CellId) (f : Option Finalizer) :
    Prop where
  entered : v.Entered o f
  ended : Going v ts o c ∨ Gone v o c

structure Unborn (v : View) (o : ObjectId) : Prop where
  size : v.size ≤ o
  silent : v.Silent o

/-- The object's slot still links to the cell of its teardown, if one is under way. -/
def Tied (v : View) (ts : List Teardown) (o : ObjectId) : Prop :=
  ∀ t ∈ ts, t.object = o → v.link o = some t.cell

variable {v w : View} {ts : List Teardown} {o : ObjectId} {c : CellId} {f : Option Finalizer}
  {edits : ObjectId → Prop} {r : Option (Routine Step)}

theorem View.Silent.append {new : List Event} (h : v.Silent o) (hw : w.told = new ++ v.told)
    (hnew : ∀ label locked, .entered label o locked ∉ new) : w.Silent o := by
  intro label locked hmem
  rw [hw] at hmem
  exact (List.mem_append.1 hmem).elim (hnew label locked) (h label locked)

theorem View.Entered.append {new : List Event} (h : v.Entered o f) (hw : w.told = new ++ v.told) :
    w.Entered o f := by
  unfold View.Entered at h ⊢
  split
  · rw [hw]
    exact List.mem_append_right _ h
  · trivial

theorem Shift.silent (h : Shift edits r v w) (hv : v.Silent o) : w.Silent o := by
  obtain ⟨new, hw, hnew⟩ := h.told_eq
  refine hv.append hw fun label locked hmem => ?_
  obtain ⟨_, heq⟩ := hnew _ hmem
  cases heq

/-! ### Shifts -/

section Shifts

variable (hs : Shift edits r v w) (hsound : Sound v ts) (hedits : ¬ edits o)
include hs hsound hedits

theorem Tied.shift (h : Tied v ts o) : Tied w ts o :=
  fun t ht hto => (hs.link_eq (hto ▸ hsound.present t ht) hedits).trans (h t ht hto)

theorem Waiting.shift (h : Waiting v o c f) : Waiting w o c f := by
  obtain ⟨cell, hc, hunlocked, hf⟩ := h.cell
  obtain ⟨count, hw⟩ := hs.cell_of_apart (fun name hn => (hsound.apart name c hn).2.1 o h.link) hc
  exact ⟨(hs.link_eq (hsound.known o c h.link) hedits).trans h.link,
    ⟨_, hw, hunlocked, hf⟩, hs.silent h.silent⟩

theorem Going.shift (h : Going v ts o c) : Going w ts o c :=
  ⟨(hs.link_eq (hsound.known o c h.link) hedits).trans h.link, h.mem⟩

omit hsound in
theorem Gone.shift (h : Gone v o c) : Gone w o c := by
  refine ⟨(hs.link_eq h.present hedits).trans h.link, Nat.lt_of_lt_of_le h.present hs.size_le, ?_,
    Nat.lt_of_lt_of_le h.known hs.length_le⟩
  cases hw : w.cell? c with
  | none => rfl
  | some cell =>
    obtain ⟨count, hv⟩ := hs.cell_of_some h.known hw
    rw [h.freed] at hv
    cases hv

theorem Over.shift (h : Over v ts o c f) : Over w ts o c f := by
  obtain ⟨new, hw, _⟩ := hs.told_eq
  refine ⟨h.entered.append hw, ?_⟩
  rcases h.ended with hgoing | hgone
  · exact .inl (hgoing.shift hs hsound hedits)
  · exact .inr (hgone.shift hs hedits)

omit hsound hedits in
/-- An object that comes into being waits. -/
theorem Unborn.shift (h : Unborn v o) : Unborn w o ∨ ∃ c f, Waiting w o c f := by
  have hsilent := hs.silent h.silent
  by_cases hsize : w.size ≤ o
  · exact .inl ⟨hsize, hsilent⟩
  · cases hs with
    | create _ finalizer =>
      have ho : o = v.size :=
        Nat.le_antisymm (Nat.le_of_lt_succ (Nat.lt_of_not_le hsize)) h.size
      refine .inr ⟨v.cells.length, finalizer, if_pos ho, ⟨{finalizer}, ?_, rfl, rfl⟩, hsilent⟩
      have hadded : (v.addCell finalizer).cell? v.cells.length = some {finalizer} := by
        rw [View.cell?_addCell, if_pos rfl]
      exact hadded
    | _ => exact absurd h.size hsize

end Shifts

/-! ### Teardowns that begin -/

section Begin

variable {p : ObjectId} {d : CellId} {cell : Cell} (hlink : v.link p = some d)
include hlink

theorem Tied.begin (h : Tied v ts o) : Tied (v.begin ⟨p, d⟩ f) (⟨p, d⟩ :: ts) o := by
  intro t ht hto
  rcases List.mem_cons.1 ht with rfl | ht
  · exact hto ▸ hlink
  · exact h t ht hto

/-- The last release of the object itself. -/
theorem Waiting.begin_self (h : Waiting v o c f) (hpo : p = o) (hfound : v.cell? d = some cell) :
    Over (v.begin ⟨p, d⟩ cell.finalizer) (⟨p, d⟩ :: ts) o c f := by
  subst hpo
  obtain rfl : d = c := Option.some.inj (hlink.symm.trans h.link)
  obtain ⟨before, hc, _, rfl⟩ := h.cell
  obtain rfl : cell = before := Option.some.inj (hfound.symm.trans hc)
  refine ⟨?_, .inl ⟨h.link, List.mem_cons_self⟩⟩
  unfold View.Entered
  split
  · next r hr => simp [View.begin, View.entered, hr]
  · trivial

/-- The last release of another object. -/
theorem Waiting.begin_other (hsound : Sound v ts) (h : Waiting v o c f) (hpo : p ≠ o) :
    Waiting (v.begin ⟨p, d⟩ cell.finalizer) o c f := by
  have hdc : d ≠ c := fun hdc => hpo (hsound.single p o d hlink (hdc ▸ h.link))
  refine ⟨h.link, ?_, h.silent.append rfl fun label locked hmem => ?_⟩
  · obtain ⟨before, hc, hrest⟩ := h.cell
    refine ⟨before, ?_, hrest⟩
    rw [View.cell?_begin, if_neg hdc]
    exact hc
  · exact hpo (View.mem_entered.1 hmem).1.symm

omit hlink in
theorem Gone.begin (h : Gone v o c) : Gone (v.begin ⟨p, d⟩ f) o c := by
  refine ⟨h.link, h.present, ?_, ?_⟩
  · rw [View.cell?_begin, h.freed]
    split <;> rfl
  · simpa [View.begin, View.updateCell] using h.known

omit hlink in
theorem Over.begin (h : Over v ts o c f) :
    Over (v.begin ⟨p, d⟩ cell.finalizer) (⟨p, d⟩ :: ts) o c f := by
  refine ⟨h.entered.append rfl, ?_⟩
  rcases h.ended with hgoing | hgone
  · exact .inl ⟨hgoing.link, List.mem_cons_of_mem _ hgoing.mem⟩
  · exact .inr hgone.begin

end Begin

/-! ### Teardowns that are finished -/

section Finish

variable {t : Teardown}

theorem View.link_finish (t : Teardown) (v : View) (p : ObjectId) :
    (v.finish t).link p = if p = t.object then none else v.link p := rfl

theorem View.cell?_finish (t : Teardown) (v : View) (d : CellId) :
    (v.finish t).cell? d = if t.cell = d then none else v.cell? d := by
  rw [View.finish_eq]
  exact View.cell?_freeCell

theorem Gone.finish (h : Gone v o c) (t : Teardown) : Gone (v.finish t) o c := by
  refine ⟨?_, h.present, ?_, ?_⟩
  · rw [View.link_finish]
    split
    · rfl
    · exact h.link
  · rw [View.cell?_finish]
    split
    · rfl
    · exact h.freed
  · simpa [View.finish_eq, View.freeCell, View.discard, View.unlink] using h.known

/-- The finalizer of a teardown has been taken out of its cell, so nothing is thrown away. -/
theorem Sound.told_finish (hsound : Sound v (t :: ts)) : (v.finish t).told = v.told := by
  obtain ⟨cell, hc, hnone⟩ := hsound.taken t List.mem_cons_self
  have hc' : (v.unlink t.object).cell? t.cell = some cell := hc
  have hdiscarded : View.discarded (((v.unlink t.object).cell? t.cell).bind (·.finalizer)) = [] := by
    rw [hc', Option.bind_some, hnone]
    rfl
  rw [View.finish_eq]
  show View.discarded _ ++ v.told = v.told
  rw [hdiscarded, List.nil_append]

variable (hsound : Sound v (t :: ts)) (htied : Tied v (t :: ts) o)
include hsound htied

/-- No other teardown under way is the same object's. -/
theorem Tied.eq_of_mem {u : Teardown} (ht : t.object = o) (hu : u ∈ ts) : u.object ≠ o := by
  intro huo
  have hcell : u.cell = t.cell := by
    have hlink := htied t List.mem_cons_self ht
    rw [htied u (List.mem_cons_of_mem _ hu) huo] at hlink
    exact Option.some.inj hlink
  exact (List.nodup_cons.1 hsound.nodup).1 (List.mem_map.2 ⟨u, hu, hcell⟩)

theorem Tied.finish : Tied (v.finish t) ts o := by
  intro u hu huo
  rw [View.link_finish]
  split
  · next hot => exact absurd huo (htied.eq_of_mem hsound hot.symm hu)
  · exact htied u (List.mem_cons_of_mem _ hu) huo

theorem Waiting.finish (h : Waiting v o c f) : Waiting (v.finish t) o c f := by
  obtain ⟨cell, hc, hunlocked, hf⟩ := h.cell
  have hlocked : t.cell ≠ c := by
    rintro rfl
    have := (hsound.locked t.cell cell hc).2 ⟨t, List.mem_cons_self, rfl⟩
    rw [hunlocked] at this
    cases this
  have hobject : o ≠ t.object := by
    intro hot
    have hlink := htied t List.mem_cons_self hot.symm
    rw [h.link] at hlink
    exact hlocked (Option.some.inj hlink).symm
  refine ⟨?_, ⟨cell, ?_, hunlocked, hf⟩, fun label locked => ?_⟩
  · rw [View.link_finish, if_neg hobject]
    exact h.link
  · rw [View.cell?_finish, if_neg hlocked]
    exact hc
  · rw [hsound.told_finish]
    exact h.silent label locked

/-- The object is gone as its own teardown is finished, and stays gone as others are. -/
theorem Over.finish (h : Over v (t :: ts) o c f) : Over (v.finish t) ts o c f := by
  have htold : (v.finish t).told = [] ++ v.told := hsound.told_finish
  refine ⟨h.entered.append htold, ?_⟩
  rcases h.ended with hgoing | hgone
  · by_cases hto : t.object = o
    · have hlink := htied t List.mem_cons_self hto
      rw [hgoing.link] at hlink
      obtain rfl : c = t.cell := Option.some.inj hlink
      refine .inr ⟨?_, hsound.known o _ hgoing.link, ?_, ?_⟩
      · rw [View.link_finish, if_pos hto.symm]
      · rw [View.cell?_finish, if_pos rfl]
      · obtain ⟨cell, hc⟩ := hsound.alive o _ hgoing.link
        simpa [View.finish_eq, View.freeCell, View.discard, View.unlink] using View.lt_of_cell? hc
    · refine .inl ⟨?_, (List.mem_cons.1 hgoing.mem).resolve_left fun heq => hto (heq ▸ rfl)⟩
      rw [View.link_finish, if_neg (Ne.symm hto)]
      exact hgoing.link
  · exact .inr (hgone.finish t)

end Finish

/-! ### Transitions of a session -/

theorem Stage.Releases.object_eq {st : Stage} {p : ObjectId} {d : CellId} {cell cell' : Cell}
    (h : st.Releases o c cell) (h' : st.Releases p d cell') : o = p := by
  obtain ⟨m, hm, hlast⟩ := h
  obtain ⟨m', hm', hlast'⟩ := h'
  obtain rfl : m = m' := Position.during.inj (hm.symm.trans hm')
  exact Control.release.inj (hlast.control.symm.trans hlast'.control)

theorem Stage.Releases.opens {st : Stage} {cell : Cell} (h : st.Releases o c cell) :
    st.view.link o = some c ∧ st.view.cell? c = some cell ∧ cell.locked = false := by
  obtain ⟨m, hm, hlast⟩ := h
  have hstate : st.state = m.state := by simp [Stage.state, hm]
  have hopens := hlast.opens
  rw [← hstate] at hopens
  exact ⟨hopens.link, hopens.found, hopens.unlocked⟩

section Moves

variable {st st' : Stage} (hm : st.Moves st') (hsound : Sound st.view (teardowns st.stack))
include hm hsound

theorem Tied.moves (hedits : ¬ st.Edits o) (h : Tied st.view (teardowns st.stack) o) :
    Tied st'.view (teardowns st'.stack) o := by
  cases hm with
  | shifts rs hshifts hunder _ _ =>
    rw [hunder]
    exact (hshifts.kept (P := fun v => Sound v _ ∧ Tied v _ o)
      (fun _ _ _ hs hv => ⟨hv.1.shift hs, hv.2.shift hs hv.1 hedits⟩) ⟨hsound, h⟩).2
  | begins p d cell hlast hview hunder _ =>
    rw [hview, hunder]
    exact h.begin hlast.opens.1
  | finishes t hview hunder _ _ =>
    rw [hunder] at hsound h
    rw [hview]
    exact h.finish hsound

theorem Waiting.moves (hedits : ¬ st.Edits o) (htied : Tied st.view (teardowns st.stack) o)
    (h : Waiting st.view o c f) :
    (Waiting st'.view o c f ∧ ∀ d cell, ¬ st.Releases o d cell) ∨
      Over st'.view (teardowns st'.stack) o c f ∧ ∃ cell, st.Releases o c cell := by
  cases hm with
  | shifts rs hshifts hunder _ hother =>
    refine .inl ⟨?_, hother o⟩
    exact (hshifts.kept (P := fun v => Sound v _ ∧ Waiting v o c f)
      (fun _ _ _ hs hv => ⟨hv.1.shift hs, hv.2.shift hs hv.1 hedits⟩) ⟨hsound, h⟩).2
  | begins p d cell hlast hview hunder _ =>
    obtain ⟨hlink, hfound, _⟩ := hlast.opens
    rw [hview, hunder]
    by_cases hpo : p = o
    · refine .inr ⟨h.begin_self hlink hpo hfound, cell, ?_⟩
      subst hpo
      obtain rfl : d = c := Option.some.inj (hlink.symm.trans h.link)
      exact hlast
    · exact .inl ⟨h.begin_other hlink hsound hpo,
        fun e cell' hrelease => hpo (hlast.object_eq hrelease)⟩
  | finishes t hview hunder _ hother =>
    rw [hunder] at hsound htied
    rw [hview]
    exact .inl ⟨h.finish hsound htied, hother o⟩

omit hsound in
theorem Gone.moves (hedits : ¬ st.Edits o) (h : Gone st.view o c) : Gone st'.view o c := by
  cases hm with
  | shifts rs hshifts _ _ _ =>
    exact hshifts.kept (P := fun v => Gone v o c) (fun _ _ _ hs hv => hv.shift hs hedits) h
  | begins p d cell _ hview _ _ =>
    rw [hview]
    exact h.begin
  | finishes t hview _ _ _ =>
    rw [hview]
    exact h.finish t

/-- A last release does not come again. -/
theorem Over.moves (hedits : ¬ st.Edits o) (htied : Tied st.view (teardowns st.stack) o)
    (h : Over st.view (teardowns st.stack) o c f) :
    Over st'.view (teardowns st'.stack) o c f ∧ ∀ d cell, ¬ st.Releases o d cell := by
  refine ⟨?_, fun d cell hlast => ?_⟩
  · cases hm with
    | shifts rs hshifts hunder _ _ =>
      rw [hunder]
      exact (hshifts.kept (P := fun v => Sound v _ ∧ Over v _ o c f)
        (fun _ _ _ hs hv => ⟨hv.1.shift hs, hv.2.shift hs hv.1 hedits⟩) ⟨hsound, h⟩).2
    | begins p d cell hlast hview hunder _ =>
      rw [hview, hunder]
      exact h.begin
    | finishes t hview hunder _ _ =>
      rw [hunder] at hsound htied h
      rw [hview]
      exact h.finish hsound htied
  · obtain ⟨hlink, hfound, hunlocked⟩ := hlast.opens
    rcases h.ended with hgoing | hgone
    · obtain rfl : d = c := Option.some.inj (hlink.symm.trans hgoing.link)
      have := (hsound.locked d cell hfound).2 ⟨_, hgoing.mem, rfl⟩
      rw [hunlocked] at this
      cases this
    · rw [hgone.link] at hlink
      cases hlink

theorem Unborn.moves (hedits : ¬ st.Edits o) (h : Unborn st.view o) :
    (Unborn st'.view o ∨ ∃ c f, Waiting st'.view o c f) ∧ ∀ d cell, ¬ st.Releases o d cell := by
  have hnone {p : ObjectId} {d : CellId} {cell : Cell} (hlast : st.Releases p d cell) : p ≠ o := by
    rintro rfl
    exact absurd (hsound.known p d hlast.opens.1) (Nat.not_lt.2 h.size)
  refine ⟨?_, fun d cell hlast => hnone hlast rfl⟩
  cases hm with
  | shifts rs hshifts hunder _ _ =>
    refine (hshifts.kept
      (P := fun v => Sound v (teardowns st.stack) ∧ (Unborn v o ∨ ∃ c f, Waiting v o c f))
      (fun _ _ _ hs hv => ⟨hv.1.shift hs, ?_⟩) ⟨hsound, .inl h⟩).2
    rcases hv.2 with hunborn | ⟨c, f, hwaiting⟩
    · exact hunborn.shift hs
    · exact .inr ⟨c, f, hwaiting.shift hs hv.1 hedits⟩
  | begins p d cell hlast hview hunder _ =>
    rw [hview]
    refine .inl ⟨h.size, h.silent.append rfl fun label locked hmem => ?_⟩
    exact hnone hlast (View.mem_entered.1 hmem).1.symm
  | finishes t hview hunder _ _ =>
    rw [hunder] at hsound
    rw [hview]
    refine .inl ⟨h.size, fun label locked => ?_⟩
    rw [hsound.told_finish]
    exact h.silent label locked

end Moves

/-! ### Sessions -/

namespace Session

/-- One of the transitions from the stage `i` on, up to the stage `n`, releases the object's last
reference. -/
def Released (session : Session) (s : State) (o : ObjectId) (i n : Nat) : Prop :=
  ∃ k, i ≤ k ∧ k < n ∧ ∃ c cell, (session.stage s k).Releases o c cell

/-- The slot is not overwritten by hand before the stage `n`. -/
def Untouched (session : Session) (s : State) (o : ObjectId) (n : Nat) : Prop :=
  ∀ k < n, ¬ (session.stage s k).Edits o

variable {session : Session} {s : State} {i n : Nat}

theorem Untouched.mono (h : session.Untouched s o n) (hle : i ≤ n) : session.Untouched s o i :=
  fun k hk => h k (Nat.lt_of_lt_of_le hk hle)

theorem released_succ (hle : i ≤ n) : session.Released s o i (n + 1) ↔
    session.Released s o i n ∨ ∃ c cell, (session.stage s n).Releases o c cell := by
  constructor
  · rintro ⟨k, hik, hk, hlast⟩
    rcases Nat.lt_succ_iff_lt_or_eq.1 hk with hk | rfl
    · exact .inl ⟨k, hik, hk, hlast⟩
    · exact .inr hlast
  · rintro (⟨k, hik, hk, hlast⟩ | hlast)
    · exact ⟨k, hik, Nat.lt_succ_of_lt hk, hlast⟩
    · exact ⟨n, hle, Nat.lt_succ_self n, hlast⟩

theorem tied_stage (h : s.Fresh) (hedits : session.Untouched s o n) :
    Tied (session.stage s n).view (teardowns (session.stage s n).stack) o := by
  induction n with
  | zero => exact fun t ht => by cases ht
  | succ n ih =>
    exact (ih (hedits.mono (Nat.le_succ n))).moves (session.moves_stage s n)
      (session.sound_stage h n) (hedits n (Nat.lt_succ_self n))

theorem gone_stage (hle : i ≤ n) (hedits : session.Untouched s o n)
    (h : Gone (session.stage s i).view o c) : Gone (session.stage s n).view o c := by
  induction hle with
  | refl => exact h
  | @step n _ ih =>
    exact (ih (hedits.mono (Nat.le_succ n))).moves (session.moves_stage s n)
      (hedits n (Nat.lt_succ_self n))

/-- From a stage at which the object waits. -/
theorem life_from (h : s.Fresh) (hle : i ≤ n) (hedits : session.Untouched s o n)
    (hwaiting : Waiting (session.stage s i).view o c f) :
    (Waiting (session.stage s n).view o c f ∧ ¬ session.Released s o i n) ∨
      Over (session.stage s n).view (teardowns (session.stage s n).stack) o c f ∧
        session.Released s o i n := by
  induction hle with
  | refl =>
    refine .inl ⟨hwaiting, fun ⟨k, hik, hki, _⟩ => ?_⟩
    exact absurd hki (Nat.not_lt.2 hik)
  | @step n hle ih =>
    have hsound := session.sound_stage h n
    have huntouched := hedits.mono (Nat.le_succ n)
    have htied := tied_stage h huntouched
    have hmoves := session.moves_stage s n
    have hnow := hedits n (Nat.lt_succ_self n)
    rw [released_succ hle]
    rcases ih huntouched with ⟨hw, hnone⟩ | ⟨hover, hreleased⟩
    · rcases hw.moves hmoves hsound hnow htied with ⟨hw, hother⟩ | ⟨hover, cell, hlast⟩
      · refine .inl ⟨hw, ?_⟩
        rintro (hreleased | ⟨d, cell, hlast⟩)
        · exact hnone hreleased
        · exact hother d cell hlast
      · exact .inr ⟨hover, .inr ⟨c, cell, hlast⟩⟩
    · exact .inr ⟨(hover.moves hmoves hsound hnow htied).1, .inl hreleased⟩

/-- An object is still to come, or it waits and its last reference has never been released, or it
has been. -/
theorem life (h : s.Fresh) (hedits : session.Untouched s o n) :
    ((Unborn (session.stage s n).view o ∨ ∃ c f, Waiting (session.stage s n).view o c f) ∧
        ¬ session.Released s o 0 n) ∨
      (∃ c f, Over (session.stage s n).view (teardowns (session.stage s n).stack) o c f) ∧
        session.Released s o 0 n := by
  induction n with
  | zero =>
    refine .inl ⟨.inl ⟨?_, fun label locked hmem => ?_⟩, fun ⟨k, _, hk, _⟩ => by cases hk⟩
    · have hsize : (session.stage s 0).view.size = s.heap.objects.length := rfl
      rw [hsize, h.heap]
      exact Nat.zero_le o
    · cases hmem
  | succ n ih =>
    have hsound := session.sound_stage h n
    have huntouched := hedits.mono (Nat.le_succ n)
    have htied := tied_stage h huntouched
    have hmoves := session.moves_stage s n
    have hnow := hedits n (Nat.lt_succ_self n)
    rw [released_succ (Nat.zero_le n)]
    rcases ih huntouched with ⟨hunborn | ⟨c, f, hw⟩, hnone⟩ | ⟨⟨c, f, hover⟩, hreleased⟩
    · obtain ⟨hnext, hother⟩ := hunborn.moves hmoves hsound hnow
      refine .inl ⟨hnext, ?_⟩
      rintro (hreleased | ⟨d, cell, hlast⟩)
      · exact hnone hreleased
      · exact hother d cell hlast
    · rcases hw.moves hmoves hsound hnow htied with ⟨hw, hother⟩ | ⟨hover, cell, hlast⟩
      · refine .inl ⟨.inr ⟨c, f, hw⟩, ?_⟩
        rintro (hreleased | ⟨d, cell, hlast⟩)
        · exact hnone hreleased
        · exact hother d cell hlast
      · exact .inr ⟨⟨c, f, hover⟩, .inr ⟨c, cell, hlast⟩⟩
    · exact .inr ⟨⟨c, f, (hover.moves hmoves hsound hnow htied).1⟩, .inl hreleased⟩

/-- What is released waited until then. -/
theorem waiting_of_releases (h : s.Fresh) (hedits : session.Untouched s o (n + 1)) {cell : Cell}
    (hlast : (session.stage s n).Releases o c cell) :
    ∃ f, Waiting (session.stage s n).view o c f := by
  obtain ⟨hlink, _, _⟩ := hlast.opens
  have hsound := session.sound_stage h n
  have huntouched := hedits.mono (Nat.le_succ n)
  rcases life h huntouched with ⟨hunborn | ⟨d, f, hw⟩, _⟩ | ⟨⟨d, f, hover⟩, _⟩
  · exact absurd (hsound.known o c hlink) (Nat.not_lt.2 hunborn.size)
  · obtain rfl : c = d := Option.some.inj (hlink.symm.trans hw.link)
    exact ⟨f, hw⟩
  · have hother := (hover.moves (session.moves_stage s n) hsound
      (hedits n (Nat.lt_succ_self n)) (tied_stage h huntouched)).2
    exact absurd hlast (hother c cell)

theorem over_of_releases (h : s.Fresh) (hlt : i < n) (hedits : session.Untouched s o n)
    {cell : Cell} (hlast : (session.stage s i).Releases o c cell) :
    ∃ f, Over (session.stage s n).view (teardowns (session.stage s n).stack) o c f := by
  obtain ⟨f, hw⟩ := waiting_of_releases h (hedits.mono hlt) hlast
  rcases life_from h (Nat.le_of_lt hlt) hedits hw with ⟨_, hnone⟩ | ⟨hover, _⟩
  · exact absurd ⟨i, Nat.le_refl i, hlt, c, cell, hlast⟩ hnone
  · exact ⟨f, hover⟩

/-- The last reference is released once. -/
theorem releases_unique (h : s.Fresh) (hedits : session.Untouched s o n) {k : Nat} {d : CellId}
    {cell cell' : Cell} (hi : i < n) (hk : k < n)
    (hlast : (session.stage s i).Releases o c cell)
    (hother : (session.stage s k).Releases o d cell') : i = k := by
  have hnever {i k : Nat} {c d : CellId} {cell cell' : Cell} (hk : k < n)
      (hlast : (session.stage s i).Releases o c cell)
      (hother : (session.stage s k).Releases o d cell') : ¬ i < k := by
    intro hik
    have huntouched := hedits.mono (Nat.le_of_lt hk)
    obtain ⟨f, hover⟩ := over_of_releases h hik huntouched hlast
    exact (hover.moves (session.moves_stage s k) (session.sound_stage h k) (hedits k hk)
      (tied_stage h huntouched)).2 d cell' hother
  rcases Nat.lt_trichotomy i k with hik | hik | hki
  · exact absurd hik (hnever hk hlast hother)
  · exact hik
  · exact absurd hki (hnever hi hother hlast)

end Session
end Custody
