import Custody.Proofs.ValueSemantics
import Mathlib.Logic.Relation

/-! Dropping handles reclaims what they alone could reach.

Handles inside of values make a graph of the objects, which has no cycles, since every object
shows an image. Only counts decide what goes; yet between two steps what is alive is what can
be reached from the handles in the table, and nothing else (`Session.reclaims`). When the last
of these is dropped, nothing is left. -/
namespace Custody

variable {session : Session} {base s t : State} {o p : ObjectId} {n d : Nat} {c : Copies}

/-! ### The graph of objects -/

namespace Heap

variable {h : Heap}

/-- The value of the one object holds a handle to the other. -/
def Child (h : Heap) (o p : ObjectId) : Prop :=
  ∃ v, h.value? o = some v ∧ p ∈ v.children

theorem child_of_mem {object : Object} (ho : h.object? o = some object)
    (hmem : p ∈ object.contents.children) : h.Child o p := by
  cases hcontents : object.contents with
  | value v =>
    rw [hcontents] at hmem
    exact ⟨v, by simp [value?, ho, hcontents, Contents.toValue?], hmem⟩
  | bytes b =>
    rw [hcontents] at hmem
    cases hmem
  | remains =>
    rw [hcontents] at hmem
    cases hmem

/-- A child shows its image further up. -/
theorem Deep.child_lt (hd : h.Deep d o) (hc : h.Child o p) : ∃ e < d, h.Deep e p := by
  obtain ⟨v, hv, hmem⟩ := hc
  obtain ⟨img, hi⟩ := Option.ne_none_iff_exists'.1 hd.2
  obtain ⟨w, kids, hw, hkids, _⟩ := image?_succ.1 hi
  obtain rfl : v = w := Option.some.inj (hv.symm.trans hw)
  obtain ⟨kid, hkid⟩ := exists_of_mem hkids hmem
  obtain ⟨e, he, _⟩ := Shows.deep ⟨d, hkid⟩
  refine ⟨e, Nat.lt_of_not_le fun hle => ?_, he⟩
  have hnone := image?_mono hle hkid
  rw [he.1] at hnone
  cases hnone

theorem Deep.leads_lt (hd : h.Deep d o) (hleads : Relation.TransGen h.Child o p) :
    ∃ e < d, h.Deep e p := by
  induction hleads with
  | single hc => exact hd.child_lt hc
  | tail _ hc ih =>
    obtain ⟨e, he, hdeep⟩ := ih
    obtain ⟨f, hf, hdeep'⟩ := hdeep.child_lt hc
    exact ⟨f, Nat.lt_trans hf he, hdeep'⟩

theorem Deep.acyclic (hd : h.Deep d o) : ¬ Relation.TransGen h.Child o o := by
  intro hleads
  obtain ⟨e, he, hdeep⟩ := hd.leads_lt hleads
  exact Nat.ne_of_gt he (hd.unique hdeep)

end Heap

/-- A handle in the table leads to the object, through handles inside of values. -/
def State.Reachable (s : State) (o : ObjectId) : Prop :=
  ∃ name root, s.names.handles.find? name = some root ∧
    Relation.ReflTransGen s.heap.Child root o

/-- What is alive can be reached, and nothing else can; and it counts the references to it. -/
structure State.Settled (s : State) : Prop where
  alive (o : ObjectId) : s.heap.link? o ≠ none ↔ s.Reachable o
  /-- The references are the handles in the table and those inside of values. -/
  counted (o : ObjectId) : s.heap.countOf o = s.names.handles.uses o + s.heap.holds o
  acyclic (o : ObjectId) : ¬ Relation.TransGen s.heap.Child o o

namespace State

/-- Only what is alive holds handles. -/
theorem Owned.pos_of_child (h : s.Owned []) (hc : s.heap.Child o p) : 0 < s.owners [] o := by
  obtain ⟨v, hv, hmem⟩ := hc
  obtain ⟨object, hobject, hcontents⟩ := Option.bind_eq_some_iff.1 hv
  rw [← State.children_toValue? hcontents] at hmem
  have hempty {size : UInt64} {link : Option CellId} {contents : Contents}
      (hfound : s.heap.object? o = some ⟨size, link, contents⟩) (hnone : contents.children = []) :
      False := by
    cases hobject.symm.trans hfound
    rw [hnone] at hmem
    cases hmem
  cases h.keeps.stands o with
  | unborn found _ _ _ => cases hobject.symm.trans found
  | live _ _ _ _ _ _ _ left => exact left
  | going _ _ found empty _ _ _ => exact (hempty found empty).elim
  | gone _ _ found empty _ _ _ => exact (hempty found empty).elim

theorem pos_of_reachable (hr : s.Reachable o) : 0 < s.owners [] o := by
  obtain ⟨name, root, hroot, hleads⟩ := hr
  cases hleads with
  | refl => exact Owned.pos hroot
  | tail _ hc =>
    obtain ⟨v, hv, hmem⟩ := hc
    exact owners_pos_of_child hv hmem

theorem Mirrors.deep (h : s.Mirrors c) (ho : 0 < s.owners [] o) : ∃ d, s.heap.Deep d o := by
  obtain ⟨img, hs⟩ := h.mirrors.shows o ho
  obtain ⟨d, hd, _⟩ := hs.deep
  exact ⟨d, hd⟩

/-- What has an owner can be reached: a handle in the table stands for it, or the same is true of
an object that holds it. The one that holds it lies deeper, so that this comes to an end. -/
theorem Mirrors.reachable_of_pos (h : s.Mirrors c) (ho : 0 < s.owners [] o) : s.Reachable o := by
  obtain ⟨d, hd⟩ := h.deep ho
  obtain ⟨room, hroom⟩ : ∃ room, room = s.heap.objects.length - d := ⟨_, rfl⟩
  induction room using Nat.strongRecOn generalizing o d with
  | ind room ih =>
    rcases Nat.eq_zero_or_pos (s.names.handles.uses o) with huses | huses
    · have hholds : 0 < s.heap.holds o := by
        unfold owners at ho
        rw [huses, List.count_nil] at ho
        omega
      obtain ⟨p, object, hobject, hmem⟩ := Heap.exists_of_holds_pos hholds
      have hc : s.heap.Child p o := Heap.child_of_mem hobject hmem
      have hp := h.owned.pos_of_child hc
      obtain ⟨e, he⟩ := h.deep hp
      obtain ⟨d', hlt, hd'⟩ := he.child_lt hc
      have hsame := hd.unique hd'
      have hbound := he.lt_length
      obtain ⟨name, root, hroot, hleads⟩ :=
        ih (s.heap.objects.length - e) (by omega) hp e he rfl
      exact ⟨name, root, hroot, hleads.tail hc⟩
    · obtain ⟨name, hname⟩ := Bindings.exists_of_uses_pos h.owned.distinct huses
      exact ⟨name, o, hname, .refl⟩

theorem Mirrors.settled (h : s.Mirrors c) : s.Settled where
  alive o := by
    have hnone := h.owned.keeps.link?_eq_none_iff o
    constructor
    · intro hlink
      exact h.reachable_of_pos (Nat.pos_of_ne_zero (mt hnone.2 hlink))
    · intro hr hlink
      exact Nat.ne_of_gt (pos_of_reachable hr) (hnone.1 hlink)
  counted o := (h.owned.keeps.countOf_eq o).trans (Nat.add_zero _)
  acyclic o hleads := by
    obtain ⟨q, hc, _⟩ := Relation.TransGen.head'_iff.1 hleads
    obtain ⟨d, hd⟩ := h.deep (h.owned.pos_of_child hc)
    exact hd.acyclic hleads

/-- Without handles in the table nothing can be reached. -/
theorem Settled.gone (h : s.Settled) (hempty : ∀ name, s.names.handles.find? name = none)
    (o : ObjectId) : s.heap.link? o = none := by
  by_contra hlink
  obtain ⟨name, root, hroot, _⟩ := (h.alive o).1 hlink
  rw [hempty] at hroot
  cases hroot

/-! ### Drops -/

/-- Handles are dropped one after the other, and every drop is answered. -/
inductive DropsEach : State → List String → State → Prop
  | nil (s : State) : DropsEach s [] s
  | cons {s t u : State} {name : String} {names : List String} {answer : Answer}
      (run : Session.runStep (.dropHandle name) s = ⟨t, .answer answer, []⟩)
      (rest : DropsEach t names u) : DropsEach s (name :: names) u

/-- What dropping some handles comes to. -/
structure Dropped (s t : State) (names : List String) : Prop where
  handles (name : String) :
    t.names.handles.find? name = if name ∈ names then none else s.names.handles.find? name
  faults : t.faults = s.faults
  /-- As many objects were deallocated as are gone. -/
  deallocations : t.statistics.deallocations + .ofNat (goneCount s.heap.objects) =
    s.statistics.deallocations + .ofNat (goneCount t.heap.objects)
  settled : t.Settled

theorem Dropped.trans {u : State} {xs ys : List String} (h : s.Dropped t xs) (h' : t.Dropped u ys) :
    s.Dropped u (xs ++ ys) where
  handles name := by
    rw [h'.handles, h.handles]
    by_cases hx : name ∈ xs <;> by_cases hy : name ∈ ys <;> simp [hx, hy]
  faults := h'.faults.trans h.faults
  deallocations := by
    refine (UInt64.add_left_inj (.ofNat (goneCount t.heap.objects))).1 ?_
    calc u.statistics.deallocations + .ofNat (goneCount s.heap.objects) +
          .ofNat (goneCount t.heap.objects)
      _ = u.statistics.deallocations + .ofNat (goneCount t.heap.objects) +
          .ofNat (goneCount s.heap.objects) := by ac_rfl
      _ = t.statistics.deallocations + .ofNat (goneCount s.heap.objects) +
          .ofNat (goneCount u.heap.objects) := by rw [h'.deallocations]; ac_rfl
      _ = s.statistics.deallocations + .ofNat (goneCount u.heap.objects) +
          .ofNat (goneCount t.heap.objects) := by rw [h.deallocations]; ac_rfl
  settled := h'.settled

/-- If these were all the handles, nothing is left. -/
theorem Dropped.gone {names : List String} (h : s.Dropped t names)
    (hall : ∀ entry ∈ s.names.handles, entry.1 ∈ names) (o : ObjectId) :
    t.heap.link? o = none := by
  refine h.settled.gone (fun name => ?_) o
  rw [h.handles]
  split
  · rfl
  · next hname =>
    cases hfound : s.names.handles.find? name with
    | none => rfl
    | some p => exact absurd (hall _ (Bindings.mem_of_find? hfound)) hname

/-- The books of a state can be taken to be right so far. -/
theorem exists_books (s : State) : ∃ base, State.Books base s :=
  ⟨{s with statistics := {s.statistics with
      allocations := s.statistics.allocations - .ofNat s.heap.objects.length
      deallocations := s.statistics.deallocations - .ofNat (goneCount s.heap.objects)}},
    rfl, (UInt64.sub_add_cancel _ _).symm, (UInt64.sub_add_cancel _ _).symm⟩

/-- A drop is answered, whatever goes with the handle. -/
theorem Mirrors.dropped (h : s.Mirrors c) {handle : String}
    (hf : s.names.handles.find? handle = some o) :
    ∃ t answer, (Machine.start (.dropHandle handle) s).run = ⟨t, .answer answer, []⟩ ∧
      t.Mirrors (c.remove handle) ∧ s.Dropped t [handle] := by
  have hcascades := h.cascades hf
  obtain ⟨t, answer, hrun, hmirrors, hhandles⟩ := hcascades.run
  have hstart : (Machine.start (.dropHandle handle) s).run =
      (Machine.perform s [] (.dropHandle handle)).run := Machine.run_of_next? rfl
  obtain ⟨base, hbase⟩ := exists_books s
  have hbegun : base.Books (Machine.perform s [] (.dropHandle handle)).state := by
    simp only [Machine.perform, hf]
    exact hbase.congr rfl rfl rfl
  have hbooks := hcascades.books_run hbegun
  rw [hrun] at hbooks
  refine ⟨t, answer, hstart.trans hrun, hmirrors, fun name => ?_,
    hbooks.faults.trans hbase.faults.symm, ?_, hmirrors.settled⟩
  · rw [hhandles, Bindings.find?_remove]
    simp
  · rw [hbooks.deallocations, hbase.deallocations]
    ac_rfl

/-- **Handles can be dropped in any order.** -/
theorem Mirrors.dropsEach (h : s.Mirrors c) {names : List String} (hnodup : names.Nodup)
    (hbound : ∀ name ∈ names, s.names.handles.find? name ≠ none) :
    ∃ t, s.DropsEach names t ∧ s.Dropped t names := by
  induction names generalizing s c with
  | nil => exact ⟨s, .nil s, fun name => by simp, rfl, rfl, h.settled⟩
  | cons name rest ih =>
    obtain ⟨hfresh, hnodup⟩ := List.nodup_cons.1 hnodup
    obtain ⟨o, ho⟩ := Option.ne_none_iff_exists'.1 (hbound name List.mem_cons_self)
    have hbegun : State.Mirrors {s with events := []} c := h.congr rfl rfl
    obtain ⟨t, answer, hrun, hmirrors, hdropped⟩ := hbegun.dropped ho
    obtain ⟨hhandles, hfaults, hdeallocations, hsettled⟩ := hdropped
    obtain ⟨u, hdrops, hrest⟩ := ih hmirrors hnodup fun other hmem => by
      have hne : other ≠ name := by
        rintro rfl
        exact hfresh hmem
      rw [hhandles, if_neg (by simpa using hne)]
      exact hbound other (List.mem_cons_of_mem _ hmem)
    have hfirst : s.Dropped t [name] := ⟨hhandles, hfaults, hdeallocations, hsettled⟩
    exact ⟨u, .cons hrun hdrops, hfirst.trans hrest⟩

end State

/-! ### Sessions -/

theorem goneCount_eq_length {objects : List Object}
    (h : ∀ object ∈ objects, object.link = none) : goneCount objects = objects.length := by
  induction objects with
  | nil => rfl
  | cons object rest ih =>
    have hrest := ih fun other hmem => h other (List.mem_cons_of_mem _ hmem)
    have hobject := h object List.mem_cons_self
    unfold goneCount at hrest ⊢
    rw [total_cons, hrest, hobject, List.length_cons]
    exact Nat.add_comm 1 _

namespace Session

/-- What a session comes to of which nothing is left. -/
structure Emptied (session : Session) (s : State) (n : Nat) (t : State) : Prop where
  /-- Every value was dropped once. -/
  dropped (o : ObjectId) (known : o < t.heap.objects.length) : ∃ k < n, session.Drops s k o ∧
    ∀ j < n, ∀ c cell, (session.stage s j).Releases o c cell → j = k
  faultless : t.faults = s.faults
  answered : ∀ record ∈ (session.stage s n).records, ∃ answer, record.result = .answered answer
  /-- There were as many deallocations as allocations. -/
  balanced : t.statistics.deallocations - s.statistics.deallocations =
    t.statistics.allocations - s.statistics.allocations

/-- What becomes of objects in a session. -/
structure Reclaims (session : Session) (s : State) : Prop where
  /-- Between two steps what is alive is what can be reached. -/
  settled (n : Nat) (t : State) (between : (session.stage s n).position = .between t) : t.Settled
  /-- Any handles can be dropped next, in any order, and if they are all there are, nothing is
  left. -/
  dropped (n : Nat) (t : State) (between : (session.stage s n).position = .between t)
    (names : List String) (distinct : names.Nodup)
    (bound : ∀ name ∈ names, t.names.handles.find? name ≠ none) :
    ∃ u, t.DropsEach names u ∧ t.Dropped u names ∧
      ((∀ entry ∈ t.names.handles, entry.1 ∈ names) → ∀ o, u.heap.link? o = none)
  /-- Once the last handle was dropped every object is gone; and if no step was refused for want of
  room or memory, that is all there is to tell. -/
  gone (n : Nat) (t : State) (between : (session.stage s n).position = .between t)
    (empty : t.names.handles = []) (o : ObjectId) : t.heap.link? o = none
  emptied (orderly : session.Orderly s) (n : Nat) (t : State)
    (between : (session.stage s n).position = .between t) (empty : t.names.handles = []) :
    session.Emptied s n t

/-- **What is alive is what can be reached**, and in the end nothing is. -/
theorem reclaims (session : Session) {s : State} (h : s.Bare) (hs : session.Safe s) :
    session.Reclaims s where
  settled n t between := (mirrors_between h hs between).settled
  dropped n t between names distinct bound := by
    obtain ⟨u, hdrops, hdropped⟩ := (mirrors_between h hs between).dropsEach distinct bound
    exact ⟨u, hdrops, hdropped, hdropped.gone⟩
  gone n t between empty :=
    (mirrors_between h hs between).settled.gone fun name => by rw [empty]; rfl
  emptied orderly n t between empty := by
    have hgone := (mirrors_between h hs between).settled.gone fun name => by rw [empty]; rfl
    obtain ⟨_, hbooks⟩ := owned_between orderly h between
    have hcount : goneCount t.heap.objects = t.heap.objects.length := by
      refine goneCount_eq_length fun object hmem => ?_
      obtain ⟨o, ho⟩ := List.getElem?_of_mem hmem
      have hlink := hgone o
      rw [Heap.link?, show t.heap.object? o = some object from ho] at hlink
      exact hlink
    refine {
      dropped := fun o known => dropped_of_gone orderly h between known (hgone o)
      faultless := hbooks.faults
      answered := (handles_stage orderly h n).answered
      balanced := ?balanced }
    rw [hbooks.deallocations, hbooks.allocations, hcount, UInt64.add_comm, UInt64.add_sub_cancel,
      UInt64.add_comm, UInt64.add_sub_cancel]

/-- Two nodes share a leaf, and a third one holds both. It is dropped before a second handle to one
of the two is. -/
def lattice : Session where
  steps := [
    .act (.handle (.create "leaf" .word (.number 1 0))),
    .act (.handle (.clone "leaf" "other")),
    .act (.handle (.create "left" .node (.node "left" ["leaf"]))),
    .act (.handle (.create "right" .node (.node "right" ["other"]))),
    .act (.handle (.clone "left" "kept")),
    .act (.handle (.create "top" .node (.node "top" ["left", "right"]))),
    .dropHandle "top",
    .dropHandle "kept"]

theorem safe_lattice : lattice.Safe .embedded :=
  .of_rest (N := 41) rfl (by decide +kernel)

theorem orderly_lattice : lattice.Orderly .embedded :=
  .of_rest (N := 41) (by decide) rfl (by decide +kernel)

/-- The first drop takes the node that only the third one held, the second drop the rest; and the
handles could be dropped in the other order. -/
theorem reclaims_lattice :
    let built := (lattice.stage .embedded 18).state
    let dropped := (lattice.stage .embedded 32).state
    let last := (lattice.stage .embedded 41).state
    (built.Reachable 2 ∧ ¬ dropped.Reachable 2) ∧
      (dropped.Reachable 0 ∧ dropped.heap.countOf 0 = 1) ∧
      (∃ u, built.DropsEach ["kept", "top"] u ∧ ∀ o, u.heap.link? o = none) ∧
      (∀ o, last.heap.link? o = none) ∧ lattice.Emptied .embedded 41 last := by
  have h := lattice.reclaims State.bare_embedded safe_lattice
  have hbuilt := h.settled 18 (lattice.stage .embedded 18).state rfl
  have hdropped := h.settled 32 (lattice.stage .embedded 32).state rfl
  obtain ⟨u, hdrops, _, hgone⟩ := h.dropped 18 (lattice.stage .embedded 18).state rfl
    ["kept", "top"] (by decide) (by decide +kernel)
  refine ⟨⟨(hbuilt.alive 2).1 (by decide +kernel), fun hr => ?_⟩,
    ⟨(hdropped.alive 0).1 (by decide +kernel), (hdropped.counted 0).trans (by decide +kernel)⟩,
    ⟨u, hdrops, hgone (by decide +kernel)⟩,
    h.gone 41 (lattice.stage .embedded 41).state rfl rfl,
    h.emptied orderly_lattice 41 (lattice.stage .embedded 41).state rfl rfl⟩
  exact (hdropped.alive 2).2 hr (by decide +kernel)

end Session
end Custody
