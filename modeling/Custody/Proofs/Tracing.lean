import Custody.Proofs.Progress

/-! What the trace tells of an object.

Each entry of the trace names an object and a count. Read for one object they tell a story
(`Story`): it is created, its count goes up and down by one and is asked for, and the release that
takes it to zero is followed by its deallocation, which is the last that is heard of it. Deeds tell
such stories, and each leads to what has become of the object (`State.Changes.story`). So nobody
needs the heap to know the counts: the last entry of an object tells its fate
(`Story.replay_eq`). -/
namespace Custody

/-- What has become of an object. -/
inductive Fate where
  | unborn
  | live (count : UInt32)
  | gone
  deriving DecidableEq, Repr

/-! ### Reading entries -/

def Transition.all : List Transition :=
  [created, retained, released, counted, deallocating]

def Transition.ofMessage? (message : String) : Option Transition :=
  all.find? (·.message == message)

theorem Transition.ofMessage?_message (t : Transition) : ofMessage? t.message = some t := by
  cases t <;> decide

namespace Log.Entry

/-- What an entry tells of an object, if it is one of the trace. -/
def tells? (o : ObjectId) (e : Entry) : Option (Transition × UInt32) :=
  if e.target = some "rcbox::refcount" ∧ e.field? "address" = some (.address (.object o)) then
    match e.field? "retain_count" with
    | some (.natural n) => (Transition.ofMessage? e.message).map fun t => (t, n.toUInt32)
    | _ => none
  else none

theorem tells?_entry (t : Transition) (p : ObjectId) (n : UInt32) (o : ObjectId) :
    (t.entry p n).tells? o = if p = o then some (t, n) else none := by
  have haddress : (t.entry p n).field? "address" = some (.address (.object p)) := rfl
  have hcount : (t.entry p n).field? "retain_count" = some (.natural n.toUInt64) := rfl
  have htarget : (t.entry p n).target = some "rcbox::refcount" := rfl
  have hread : Transition.ofMessage? (t.entry p n).message = some t := t.ofMessage?_message
  unfold tells?
  rw [haddress, hcount, htarget, hread]
  simp

/-- Faults are told of elsewhere. -/
theorem tells?_fault (f : Fault) (o : ObjectId) : f.entry.tells? o = none := by
  unfold tells?
  rw [if_neg]
  rintro ⟨htarget, _⟩
  exact absurd htarget (by simp [Fault.entry])

/-- What entries tell of an object, in order. -/
def tales (o : ObjectId) (es : List Entry) : List (Transition × UInt32) :=
  es.filterMap (·.tells? o)

@[simp] theorem tales_nil (o : ObjectId) : tales o [] = [] := rfl

@[simp] theorem tales_append (o : ObjectId) (es es' : List Entry) :
    tales o (es ++ es') = tales o es ++ tales o es' :=
  List.filterMap_append

theorem tales_single (t : Transition) (p : ObjectId) (n : UInt32) (o : ObjectId) :
    tales o [t.entry p n] = if p = o then [(t, n)] else [] := by
  by_cases h : p = o <;> simp [tales, tells?_entry, h]

theorem tales_pair (t t' : Transition) (p : ObjectId) (n n' : UInt32) (o : ObjectId) :
    tales o [t.entry p n, t'.entry p n'] = if p = o then [(t, n), (t', n')] else [] := by
  rw [← List.singleton_append, tales_append, tales_single, tales_single]
  split <;> rfl

end Log.Entry

namespace Fate

/-- What is known after one more entry. -/
def tell (_ : Fate) : Transition × UInt32 → Fate
  | (.deallocating, _) => gone
  | (_, count) => live count

/-- What entries tell of an object, and nothing else. -/
def replay (es : List Log.Entry) (o : ObjectId) : Fate :=
  (Log.Entry.tales o es).foldl tell unborn

end Fate

/-! ### Stories -/

/-- What is told of one object, and what has become of it then. -/
inductive Story : List (Transition × UInt32) → Fate → Prop where
  | untold : Story [] .unborn
  | created : Story [(.created, 0)] (.live 0)
  | retained {tale : List (Transition × UInt32)} {n : UInt32} (h : Story tale (.live n))
    (room : n ≠ maxCount) : Story (tale ++ [(.retained, n + 1)]) (.live (n + 1))
  | released {tale : List (Transition × UInt32)} {n : UInt32} (h : Story tale (.live n))
    (held : n ≠ 0) (more : n ≠ 1) : Story (tale ++ [(.released, n - 1)]) (.live (n - 1))
  | counted {tale : List (Transition × UInt32)} {n : UInt32} (h : Story tale (.live n)) :
    Story (tale ++ [(.counted, n)]) (.live n)
  /-- Nothing is told after this. -/
  | deallocated {tale : List (Transition × UInt32)} (h : Story tale (.live 1)) :
    Story (tale ++ [(.released, 0), (.deallocating, 0)]) .gone

/-- **The last that is told of an object is what has become of it.** -/
theorem Story.foldl_tell {tale : List (Transition × UInt32)} {fate : Fate} (h : Story tale fate) :
    tale.foldl Fate.tell .unborn = fate := by
  cases h with
  | untold => rfl
  | created => rfl
  | retained h room => rw [List.foldl_append]; rfl
  | released h held more => rw [List.foldl_append]; rfl
  | counted h => rw [List.foldl_append]; rfl
  | deallocated h => rw [List.foldl_append]; rfl

theorem Story.replay_eq {es : List Log.Entry} {o : ObjectId} {fate : Fate}
    (h : Story (Log.Entry.tales o es) fate) : Fate.replay es o = fate :=
  h.foldl_tell

/-- A story begins before anything is told. -/
theorem Story.eq_nil {tale : List (Transition × UInt32)} (h : Story tale .unborn) : tale = [] := by
  cases h with
  | untold => rfl

/-- What is told of one object goes on with its story, and leaves those of others. -/
theorem Story.extend {p o : ObjectId} {tale told new : List (Transition × UInt32)}
    {fate fate' after : Fate} (hstory : Story tale fate)
    (htold : told = if p = o then new else []) (hfate : fate' = if p = o then after else fate)
    (hgoes : p = o → Story (tale ++ new) after) : Story (tale ++ told) fate' := by
  subst htold hfate
  split
  · next heq => exact hgoes heq
  · rwa [List.append_nil]

/-! ### Fates in a heap -/

namespace Heap

/-- What has become of an object. One that is being torn down has been told goodbye. -/
def fate (h : Heap) (o : ObjectId) : Fate :=
  if o < h.objects.length then
    match h.governing? o with
    | some cell => if cell.locked then .gone else .live cell.count
    | none => .gone
  else .unborn

/-- A slot links to a cell that has not been freed and that no other slot links to. -/
structure Linked (h : Heap) : Prop where
  alive (o : ObjectId) (c : CellId) (link : h.link? o = some c) : ∃ cell, h.cell? c = some cell
  single (o p : ObjectId) (c : CellId) (link : h.link? o = some c) (other : h.link? p = some c) :
    o = p

variable {h h' : Heap} {o p : ObjectId} {c : CellId} {cell : Cell}

theorem Opens.governing?_eq (hopens : h.Opens o c cell) : h.governing? o = some cell := by
  unfold governing?
  rw [hopens.link]
  exact hopens.found

theorem Opens.fate_eq (hopens : h.Opens o c cell) : h.fate o = .live cell.count := by
  unfold fate
  rw [if_pos (lt_length_of_link? hopens.link), hopens.governing?_eq]
  dsimp only
  rw [hopens.unlocked]
  rfl

theorem fate_congr (hsize : h'.objects.length = h.objects.length)
    (hgoverning : h'.governing? o = h.governing? o) : h'.fate o = h.fate o := by
  unfold fate
  rw [hsize, hgoverning]

theorem Linked.updateCell (hlinked : h.Linked) (f : Cell → Cell) : (h.updateCell c f).Linked where
  alive o d hl := by
    obtain ⟨cell, hd⟩ := hlinked.alive o d hl
    rw [cell?_updateCell, hd]
    split
    · exact ⟨f cell, rfl⟩
    · exact ⟨cell, rfl⟩
  single := hlinked.single

/-- The cell of one object changes. -/
theorem fate_updateCell (hlinked : h.Linked) (hopens : h.Opens o c cell) (f : Cell → Cell)
    (p : ObjectId) : (h.updateCell c f).fate p =
      if o = p then (if (f cell).locked then .gone else .live (f cell).count) else h.fate p := by
  split
  · next heq =>
    subst heq
    have hgoverning : (h.updateCell c f).governing? o = some (f cell) := by
      simp [governing?, hopens.link, hopens.found]
    have hlt : o < (h.updateCell c f).objects.length := lt_length_of_link? hopens.link
    unfold fate
    rw [if_pos hlt, hgoverning]
  · next hne =>
    exact fate_congr rfl
      (governing?_updateCell_of_ne f fun hl => hne (hlinked.single o p c hopens.link hl))

theorem Linked.lt_length (hlinked : h.Linked) (o : ObjectId) (c : CellId)
    (hl : h.link? o = some c) : c < h.cells.length := by
  obtain ⟨cell, hc⟩ := hlinked.alive o c hl
  obtain ⟨hlt, _⟩ := List.getElem?_eq_some_iff.1 (Option.join_eq_some_iff.1 hc)
  exact hlt

theorem Linked.addObject (hlinked : h.Linked) (size : UInt64) (contents : Contents)
    (finalizer : Option Finalizer) : (h.addObject size contents finalizer).2.Linked where
  alive o c hl := by
    have hgoverning := governing?_addObject hlinked.lt_length size contents finalizer o
    have halive : ∃ cell, (h.addObject size contents finalizer).2.governing? o = some cell := by
      rw [hgoverning]
      split
      · exact ⟨_, rfl⟩
      · next hne =>
        rw [link?_addObject] at hl
        simp only [if_neg hne] at hl
        obtain ⟨cell, hc⟩ := hlinked.alive o c hl
        refine ⟨cell, ?_⟩
        unfold governing?
        rw [hl]
        exact hc
    unfold governing? at halive
    rwa [hl] at halive
  single o p c hl hother := by
    rw [link?_addObject] at hl hother
    simp only at hl hother
    split at hl <;> split at hother
    · next ho hp => rw [ho, hp]
    · cases hl
      exact absurd (hlinked.lt_length p _ hother) (Nat.lt_irrefl _)
    · cases hother
      exact absurd (hlinked.lt_length o _ hl) (Nat.lt_irrefl _)
    · exact hlinked.single o p c hl hother

theorem fate_addObject (hlinked : h.Linked) (size : UInt64) (contents : Contents)
    (finalizer : Option Finalizer) (p : ObjectId) :
    (h.addObject size contents finalizer).2.fate p =
      if h.objects.length = p then .live 0 else h.fate p := by
  have hsize : (h.addObject size contents finalizer).2.objects.length = h.objects.length + 1 := by
    simp [Heap.addObject, addCell]
  have hgoverning := governing?_addObject hlinked.lt_length size contents finalizer p
  by_cases hp : h.objects.length = p
  · subst hp
    unfold fate
    rw [hsize, hgoverning, if_pos (Nat.lt_succ_self _), if_pos rfl, if_pos rfl]
    rfl
  · rw [if_neg (Ne.symm hp)] at hgoverning
    have hlt : p < h.objects.length + 1 ↔ p < h.objects.length :=
      ⟨fun hle => Nat.lt_of_le_of_ne (Nat.le_of_lt_succ hle) (Ne.symm hp), Nat.lt_succ_of_lt⟩
    unfold fate
    simp only [hsize, hgoverning, hlt, if_neg hp]

end Heap

/-! ### Deeds tell stories -/

namespace State

open Log.Entry

variable {s t : State} {d : Deed} {ds : List Deed} {reporter : Option Reporter}

theorem Still.governing?_eq (h : s.Still t) : t.heap.governing? = s.heap.governing? := by
  funext o
  unfold Heap.governing? Heap.cell?
  rw [h.links, h.cells]

theorem Still.fate_eq (h : s.Still t) (o : ObjectId) : t.heap.fate o = s.heap.fate o :=
  Heap.fate_congr h.size (congrFun h.governing?_eq o)

theorem Still.linked (h : s.Still t) (hlinked : s.heap.Linked) : t.heap.Linked where
  alive o c hl := by
    rw [h.links] at hl
    unfold Heap.cell?
    rw [h.cells]
    exact hlinked.alive o c hl
  single o p c hl hother := by
    rw [h.links] at hl hother
    exact hlinked.single o p c hl hother

theorem Changes.linked (h : s.Changes d t) (hlinked : s.heap.Linked) : t.heap.Linked := by
  cases h with
  | create r still size contents finalizer => exact (still.linked hlinked).addObject _ _ _
  | retain opens room => exact hlinked.updateCell _
  | release opens held more => exact hlinked.updateCell _
  | begin opens last => exact hlinked.updateCell _
  | count opens => exact hlinked
  | fault f => exact hlinked

/-- **A deed goes on with the story of its object**, and with no other. -/
theorem Changes.story (h : s.Changes d t) (hlinked : s.heap.Linked) {o : ObjectId}
    {tale : List (Transition × UInt32)} (hstory : Story tale (s.heap.fate o)) :
    Story (tale ++ tales o (d.entries reporter)) (t.heap.fate o) := by
  have hself {p : ObjectId} {c : CellId} {cell : Cell} (opens : s.heap.Opens p c cell)
      (heq : p = o) : Story tale (.live cell.count) := by
    subst heq
    rwa [opens.fate_eq] at hstory
  have hcounted {p : ObjectId} {c : CellId} {cell : Cell} (opens : s.heap.Opens p c cell)
      (n : UInt32) : (s.heap.setCount c n).fate o = if p = o then .live n else s.heap.fate o := by
    refine (Heap.fate_updateCell hlinked opens (fun x => {x with count := n}) o).trans ?_
    dsimp only
    rw [opens.unlocked]
    rfl
  cases h with
  | create r still size contents finalizer =>
    have hfate := Heap.fate_addObject (still.linked hlinked) size contents finalizer o
    rw [still.fate_eq] at hfate
    refine hstory.extend (tales_single _ _ _ _) hfate fun heq => ?_
    have hunborn : s.heap.fate o = .unborn := by
      rw [← still.fate_eq, ← heq]
      exact if_neg (Nat.lt_irrefl _)
    rw [hunborn] at hstory
    rw [hstory.eq_nil]
    exact .created
  | @retain p c cell opens room =>
    have hfate := hcounted opens (cell.count + 1)
    exact hstory.extend (tales_single _ _ _ _) hfate fun heq => .retained (hself opens heq) room
  | @release p c cell opens held more =>
    have hfate := hcounted opens (cell.count - 1)
    have hremaining : cell.count - 1 ≠ 0 := fun hzero => more ((sub_one_eq_zero_iff held).1 hzero)
    have hentries : Deed.entries reporter (.release p (cell.count - 1)) =
        [Transition.released.entry p (cell.count - 1)] := by simp [Deed.entries, hremaining]
    rw [hentries]
    exact hstory.extend (tales_single _ _ _ _) hfate fun heq =>
      .released (hself opens heq) held more
  | @begin p c cell opens last =>
    have hfate := Heap.fate_updateCell hlinked opens (fun _ => {locked := true}) o
    refine hstory.extend (tales_pair _ _ _ _ _ _) hfate fun heq => .deallocated ?_
    rw [← last]
    exact hself opens heq
  | @count p c cell opens =>
    have hfate : s.heap.fate o = if p = o then .live cell.count else s.heap.fate o := by
      split
      · next heq => rw [← heq, opens.fate_eq]
      · rfl
    exact hstory.extend (tales_single _ _ _ _) hfate fun heq => .counted (hself opens heq)
  | fault f =>
    have hsilent : tales o (Deed.entries reporter (.fault f)) = [] := by
      by_cases hreporter : reporter = none <;> simp [Deed.entries, hreporter, tales, tells?_fault]
    rw [hsilent, List.append_nil]
    exact hstory

theorem Does.linked (h : s.Does ds t) (hlinked : s.heap.Linked) : t.heap.Linked := by
  induction h with
  | still h => exact h.linked hlinked
  | deed h => exact h.changes.linked hlinked
  | trans _ _ ih ih' => exact ih' (ih hlinked)

/-- **Deeds go on with the story of every object.** -/
theorem Does.story (h : s.Does ds t) (hlinked : s.heap.Linked) {o : ObjectId}
    {tale : List (Transition × UInt32)} (hstory : Story tale (s.heap.fate o)) :
    Story (tale ++ tales o (ds.flatMap (Deed.entries reporter))) (t.heap.fate o) := by
  induction h generalizing tale with
  | still h =>
    rw [List.flatMap_nil, tales_nil, List.append_nil, h.fate_eq]
    exact hstory
  | deed h =>
    rw [List.flatMap_singleton]
    exact h.changes.story hlinked hstory
  | trans first _ ih ih' =>
    rw [List.flatMap_append, tales_append, ← List.append_assoc]
    exact ih' (first.linked hlinked) (ih hlinked hstory)

/-! ### Teardowns -/

theorem Standing.linked {ts : List Teardown} (h : s.Standing ts) : s.heap.Linked :=
  ⟨h.sound.alive, h.sound.single⟩

/-- Finishing a teardown changes nothing that has been told. -/
theorem fate_finish {ts : List Teardown} (h : s.Standing ts) {t : Teardown} (ht : t ∈ ts)
    (o : ObjectId) : (s.finish t).heap.fate o = s.heap.fate o := by
  have hview := view_finish t s
  have hsize : (s.finish t).heap.objects.length = s.heap.objects.length :=
    congrArg View.size hview
  have hlink : (s.finish t).heap.link? o = if o = t.object then none else s.heap.link? o :=
    congrFun (congrArg View.link hview) o
  by_cases heq : t.object = o
  · -- Its cell is still locked: it has been gone since the teardown began.
    have hbefore : s.heap.link? o = some t.cell := h.tied o t ht heq
    obtain ⟨cell, hcell, _⟩ := h.sound.taken t ht
    have hlocked : cell.locked = true := (h.sound.locked t.cell cell hcell).2 ⟨t, ht, rfl⟩
    have hnone : (s.finish t).heap.governing? o = none := by
      unfold Heap.governing?
      rw [hlink, if_pos heq.symm]
      rfl
    have hsome : s.heap.governing? o = some cell := by
      unfold Heap.governing?
      rw [hbefore]
      exact hcell
    unfold Heap.fate
    rw [hsize, hnone, hsome]
    dsimp only
    rw [hlocked]
    rfl
  · refine Heap.fate_congr hsize ?_
    rw [if_neg (Ne.symm heq)] at hlink
    unfold Heap.governing?
    rw [hlink]
    cases hl : s.heap.link? o with
    | none => rfl
    | some c =>
      have hne : t.cell ≠ c := fun hc => heq (h.sound.own t ht o (hc ▸ hl)).symm
      have hcell : (s.finish t).view.cell? c = s.view.cell? c := by
        rw [hview, View.cell?_finish, if_neg hne]
      exact hcell

end State
end Custody
