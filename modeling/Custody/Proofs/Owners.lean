import Custody.Proofs.Atomicity
import Mathlib.Data.List.Forall2

/-! Who owns references, and objects that count them rightly.

The handles in the table own one reference each, and so do the handles inside of values
and the references that were taken out of handles by hand. An object keeps to its owners
if its cell counts them all (`Heap.Keeps`): it stays as long as there is one, and once there
is none it is on its way out or gone. How many owners an object has is a sum over tables and
values, so each change to one of them shows in that sum alone. -/
namespace Custody

variable {o p : ObjectId} {name : String}

/-! ### Handles in a table -/

namespace Bindings

/-- How many names stand for an object. -/
def uses (b : Bindings ObjectId) (o : ObjectId) : Nat :=
  b.countP (·.2 == o)

/-- No name has two bindings. -/
def Distinct (b : Bindings α) : Prop :=
  (b.map (·.1)).Nodup

variable {b rest : Bindings ObjectId}

theorem mem_of_find? {b : Bindings α} {value : α} (h : b.find? name = some value) :
    (name, value) ∈ b := by
  induction b with
  | nil => cases h
  | cons entry rest ih =>
    rw [find?_cons] at h
    split at h
    · next hname =>
      cases h
      rw [hname]
      exact List.mem_cons_self
    · exact List.mem_cons_of_mem _ (ih h)

theorem find?_of_mem {b : Bindings α} {value : α} (hd : b.Distinct) (h : (name, value) ∈ b) :
    b.find? name = some value := by
  induction b with
  | nil => cases h
  | cons entry rest ih =>
    obtain ⟨hfresh, hrest⟩ := List.nodup_cons.1 hd
    rw [find?_cons]
    rcases List.mem_cons.1 h with rfl | h
    · rw [if_pos rfl]
    · have hne : name ≠ entry.1 := by
        rintro rfl
        exact hfresh (List.mem_map.2 ⟨_, h, rfl⟩)
      rw [if_neg hne]
      exact ih hrest h

theorem uses_pos (h : b.find? name = some o) : 0 < b.uses o :=
  List.countP_pos_iff.2 ⟨_, mem_of_find? h, by simp⟩

theorem exists_of_uses_pos (hd : b.Distinct) (h : 0 < b.uses o) : ∃ name, b.find? name = some o := by
  obtain ⟨⟨name, p⟩, hmem, hp⟩ := List.countP_pos_iff.1 h
  obtain rfl : p = o := by simpa using hp
  exact ⟨name, find?_of_mem hd hmem⟩

theorem remove_of_absent {b : Bindings α} (h : b.find? name = none) : b.remove name = b := by
  refine List.filter_eq_self.2 fun entry hmem => ?_
  have habsent := List.lookup_eq_none_iff.1 h entry hmem
  exact bne_comm.trans habsent

theorem Distinct.remove {b : Bindings α} (h : b.Distinct) (name : String) :
    (b.remove name).Distinct :=
  h.sublist (List.filter_sublist.map _)

theorem Distinct.bind {b : Bindings α} (h : b.Distinct) (name : String) (value : α) :
    (b.bind name value).Distinct := by
  refine List.nodup_cons.2 ⟨fun hmem => ?_, h.remove name⟩
  obtain ⟨entry, hentry, hname⟩ := List.mem_map.1 hmem
  have := (List.mem_filter.1 hentry).2
  simp [hname] at this

theorem uses_remove (hd : b.Distinct) (h : b.find? name = some o) (p : ObjectId) :
    (b.remove name).uses p + (if o = p then 1 else 0) = b.uses p := by
  induction b with
  | nil => cases h
  | cons entry rest ih =>
    obtain ⟨hfresh, hrest⟩ := List.nodup_cons.1 hd
    rw [find?_cons] at h
    split at h
    · next hname =>
      cases h
      have habsent : Bindings.find? rest name = none := by
        cases hfind : Bindings.find? rest name with
        | none => rfl
        | some q =>
          have hmem : name ∈ rest.map (·.1) := List.mem_map.2 ⟨_, mem_of_find? hfind, rfl⟩
          rw [hname] at hmem
          exact absurd hmem hfresh
      have hremove : Bindings.remove (entry :: rest) name = rest := by
        have := remove_of_absent habsent
        simpa [remove, hname] using this
      rw [hremove]
      simp [uses, List.countP_cons]
    · next hname =>
      have hremove : Bindings.remove (entry :: rest) name = entry :: Bindings.remove rest name := by
        simp [remove, Ne.symm hname]
      have := ih hrest h
      rw [hremove]
      simp only [uses, List.countP_cons] at this ⊢
      omega

theorem uses_bind (h : b.find? name = none) (p : ObjectId) :
    (b.bind name o).uses p = b.uses p + if o = p then 1 else 0 := by
  rw [bind, remove_of_absent h]
  simp [uses, List.countP_cons]

/-- A name that is given to another object. -/
theorem uses_rebind (hd : b.Distinct) (h : b.find? name = some o) (q p : ObjectId) :
    (b.bind name q).uses p + (if o = p then 1 else 0) =
      b.uses p + if q = p then 1 else 0 := by
  have hremove := uses_remove hd h p
  have hbind : (b.bind name q).uses p = (b.remove name).uses p + if q = p then 1 else 0 := by
    simp [bind, uses, List.countP_cons]
  omega

/-- What is left of a table once names were taken out of it, each with what it stood for. -/
structure Takes (b : Bindings ObjectId) (names : List String) (os : List ObjectId)
    (rest : Bindings ObjectId) : Prop where
  found : List.Forall₂ (fun name o => b.find? name = some o) names os
  left (name : String) : rest.find? name = if name ∈ names then none else b.find? name
  uses (p : ObjectId) : rest.uses p + os.count p = b.uses p
  distinct : rest.Distinct

theorem Takes.nil (hd : b.Distinct) : Takes b [] [] b :=
  ⟨.nil, fun _ => rfl, fun _ => rfl, hd⟩

theorem Takes.cons {names : List String} {os : List ObjectId} (hd : b.Distinct)
    (h : b.find? name = some o) (ht : Takes (b.remove name) names os rest) :
    Takes b (name :: names) (o :: os) rest where
  found := by
    refine .cons h (ht.found.imp fun n q hq => ?_)
    simp only [find?_remove] at hq
    split at hq
    · cases hq
    · exact hq
  left n := by
    rw [ht.left, find?_remove]
    by_cases hname : n = name
    · simp [hname]
    · simp [hname]
  uses p := by
    have hrest := ht.uses p
    have hremove := uses_remove hd h p
    rw [List.count_cons]
    simp only [beq_iff_eq]
    omega
  distinct := ht.distinct

end Bindings

/-- Handles are taken out of the table, and nothing else changes. -/
theorem State.takes_of_takeHandles {s t : State} {names : List String} {os : List ObjectId}
    (hd : s.names.handles.Distinct) (h : s.takeHandles names = some (os, t)) :
    Bindings.Takes s.names.handles names os t.names.handles ∧ t.heap = s.heap ∧
      t.statistics = s.statistics ∧ t.faults = s.faults ∧ t.allocators = s.allocators := by
  induction names generalizing s os t with
  | nil =>
    cases h
    exact ⟨.nil hd, rfl, rfl, rfl, rfl⟩
  | cons name rest ih =>
    obtain ⟨o, ho, hmap⟩ := Option.bind_eq_some_iff.1 h
    obtain ⟨⟨os', t'⟩, hrest, heq⟩ := Option.map_eq_some_iff.1 hmap
    cases heq
    obtain ⟨htakes, hsame⟩ := ih (s := s.forgetHandle name) (hd.remove name) hrest
    exact ⟨.cons hd ho htakes, hsame⟩

/-! ### Handles in values -/

namespace Heap

variable {h : Heap} {c : CellId}

theorem value?_of_object? {size : UInt64} {link : Option CellId} {v : Value}
    (ho : h.object? o = some ⟨size, link, .value v⟩) : h.value? o = some v := by
  simp [value?, ho, Contents.toValue?]

/-- How many of the handles inside of values refer to an object. -/
def holds (h : Heap) (o : ObjectId) : Nat :=
  total (fun object => object.contents.children.count o) h.objects

theorem holds_congr {h' : Heap} (heq : h'.objects = h.objects) : h'.holds p = h.holds p := by
  rw [holds, heq, holds]

theorem holds_append {h' : Heap} {object : Object} (heq : h'.objects = h.objects ++ [object]) :
    h'.holds p = h.holds p + object.contents.children.count p := by
  simp [holds, heq, total_append]

theorem holds_setContents {object : Object} (ho : h.object? o = some object) (contents : Contents) :
    (h.setContents o contents).holds p + object.contents.children.count p =
      h.holds p + contents.children.count p := by
  have := total_modify (fun object => object.contents.children.count p)
    (fun object : Object => {object with contents}) h.objects o
  have hget : h.objects[o]? = some object := ho
  rw [hget] at this
  exact this

theorem holds_setLink (link : Option CellId) : (h.setLink o link).holds p = h.holds p := by
  have := total_modify (fun object => object.contents.children.count p)
    (fun object : Object => {object with link}) h.objects o
  have hsame : (h.objects[o]?.map fun object => object.contents.children.count p) =
      h.objects[o]?.map fun object => ({object with link} : Object).contents.children.count p := rfl
  rw [hsame] at this
  exact Nat.add_right_cancel this

theorem holds_bury (t : Teardown) : (h.bury t).holds p = h.holds p :=
  (holds_setLink none).trans rfl

/-- A handle inside of a value is one of those that refer to its object. -/
theorem holds_pos {object : Object} (ho : h.object? o = some object)
    (hp : p ∈ object.contents.children) : 0 < h.holds p := by
  have hle := le_total_of_mem (fun object => object.contents.children.count p)
    (List.mem_of_getElem? ho)
  exact Nat.lt_of_lt_of_le (List.count_pos_iff.2 hp) hle

theorem holds_pos_of_value? {v : Value} (hv : h.value? o = some v) (hp : p ∈ v.children) :
    0 < h.holds p := by
  obtain ⟨object, hobject, hcontents⟩ := Option.bind_eq_some_iff.1 hv
  refine holds_pos hobject ?_
  rw [State.children_toValue? hcontents]
  exact hp

theorem exists_of_holds_pos (hp : 0 < h.holds p) :
    ∃ o object, h.object? o = some object ∧ p ∈ object.contents.children := by
  obtain ⟨object, hmem, hchild⟩ : ∃ object ∈ h.objects, p ∈ object.contents.children := by
    unfold holds at hp
    generalize h.objects = objects at hp
    induction objects with
    | nil => cases hp
    | cons object rest ih =>
      by_cases hchild : p ∈ object.contents.children
      · exact ⟨object, List.mem_cons_self, hchild⟩
      · rw [total_cons, List.count_eq_zero.2 hchild, Nat.zero_add] at hp
        obtain ⟨other, hmem, hother⟩ := ih hp
        exact ⟨other, List.mem_cons_of_mem _ hmem, hother⟩
  obtain ⟨o, ho⟩ := List.getElem?_of_mem hmem
  exact ⟨o, object, ho, hchild⟩

end Heap

/-- How many owners an object has: handles in the table, handles inside of values, and references
that were lent out of handles. -/
def State.owners (lent : List ObjectId) (s : State) (o : ObjectId) : Nat :=
  s.names.handles.uses o + s.heap.holds o + lent.count o

/-- A handle inside of a value is an owner. -/
theorem State.owners_pos_of_child {lent : List ObjectId} {s : State} {v : Value}
    (hv : s.heap.value? o = some v) (hp : p ∈ v.children) : 0 < s.owners lent p := by
  have := Heap.holds_pos_of_value? hv hp
  unfold owners
  omega

/-- An object's retain count; of one that is gone there is none. -/
def Heap.countOf (h : Heap) (o : ObjectId) : Nat :=
  (h.governing? o).elim 0 fun cell => cell.count.toNat

/-! ### Objects that keep to their owners -/

/-- What is run as a value goes. -/
def Value.finalizer (v : Value) : Option Finalizer :=
  if v.kind.owning then some .dropValue else none

theorem Value.kind_updated? {v v' : Value} {literal : Literal} (h : v.updated? literal = some v') :
    v'.kind = v.kind := by
  cases v with
  | unit => cases h; rfl
  | _ => obtain ⟨_, _, rfl⟩ := Option.map_eq_some_iff.1 h; rfl

theorem Value.finalizer_updated? {v v' : Value} {literal : Literal}
    (h : v.updated? literal = some v') : v'.finalizer = v.finalizer := by
  rw [finalizer, kind_updated? h, finalizer]

theorem Literal.kind_value? {kind : Kind} {children : List ObjectId} {literal : Literal} {v : Value}
    (h : literal.value? kind children = some v) : v.kind = kind := by
  cases kind with
  | unit => cases h; rfl
  | _ => obtain ⟨_, _, rfl⟩ := Option.map_eq_some_iff.1 h; rfl

/-- Only a node is made of children. -/
theorem Literal.children_value? {kind : Kind} {children : List ObjectId} {literal : Literal}
    {v : Value} (h : literal.value? kind children = some v)
    (hkind : kind = .node ∨ children = []) : v.children = children := by
  rcases hkind with rfl | rfl
  · obtain ⟨_, _, rfl⟩ := Option.map_eq_some_iff.1 h
    rfl
  · exact List.length_eq_zero_iff.1 (Nat.le_zero.1 (State.children_value? h))

namespace Heap

/-- How an object stands that has `n` owners, while the objects `ts` are being torn down. -/
inductive Stands (h : Heap) (ts : List ObjectId) (o : ObjectId) (n : Nat) : Prop where
  | unborn (object : h.object? o = none) (cell : h.cell? o = none) (idle : o ∉ ts) (left : n = 0)
  | live (size : UInt64) (v : Value) (count : UInt32)
      (object : h.object? o = some ⟨size, some o, .value v⟩)
      (cell : h.cell? o = some ⟨count, false, v.finalizer⟩) (idle : o ∉ ts)
      (counted : count.toNat = n) (left : 0 < n)
  | going (size : UInt64) (contents : Contents)
      (object : h.object? o = some ⟨size, some o, contents⟩) (empty : contents.children = [])
      (cell : h.cell? o = some {locked := true}) (begun : o ∈ ts) (left : n = 0)
  | gone (size : UInt64) (contents : Contents)
      (object : h.object? o = some ⟨size, none, contents⟩) (empty : contents.children = [])
      (cell : h.cell? o = none) (idle : o ∉ ts) (left : n = 0)

/-- Every object keeps to its owners. -/
structure Keeps (h : Heap) (ts : List ObjectId) (owners : ObjectId → Nat) : Prop where
  level : h.cells.length = h.objects.length
  stands (o : ObjectId) : h.Stands ts o (owners o)

variable {h h' : Heap} {ts us : List ObjectId} {n : Nat} {owners owners' : ObjectId → Nat}

/-- An object stands as it stood, if nothing about it has changed. -/
theorem Stands.congr (hs : h.Stands ts o n) (hobject : h'.object? o = h.object? o)
    (hcell : h'.cell? o = h.cell? o) (hts : o ∈ us ↔ o ∈ ts) : h'.Stands us o n := by
  cases hs with
  | unborn object cell idle left =>
    exact .unborn (hobject.trans object) (hcell.trans cell) (mt hts.1 idle) left
  | live size v count object cell idle counted left =>
    exact .live size v count (hobject.trans object) (hcell.trans cell) (mt hts.1 idle) counted left
  | going size contents object empty cell begun left =>
    exact .going size contents (hobject.trans object) empty (hcell.trans cell) (hts.2 begun) left
  | gone size contents object empty cell idle left =>
    exact .gone size contents (hobject.trans object) empty (hcell.trans cell) (mt hts.1 idle) left

/-- One object changes, and the others stand as they stood. -/
theorem Keeps.change (hk : h.Keeps ts owners) (o : ObjectId)
    (hlevel : h'.cells.length = h'.objects.length)
    (hobject : ∀ p, p ≠ o → h'.object? p = h.object? p)
    (hcell : ∀ p, p ≠ o → h'.cell? p = h.cell? p)
    (hts : ∀ p, p ≠ o → (p ∈ us ↔ p ∈ ts)) (howners : ∀ p, p ≠ o → owners' p = owners p)
    (hs : h'.Stands us o (owners' o)) : h'.Keeps us owners' where
  level := hlevel
  stands p := by
    by_cases hp : p = o
    · rw [hp]
      exact hs
    · rw [howners p hp]
      exact (hk.stands p).congr (hobject p hp) (hcell p hp) (hts p hp)

theorem Keeps.congr (hk : h.Keeps ts owners) (heq : ∀ p, owners' p = owners p) :
    h.Keeps ts owners' := by
  obtain rfl : owners' = owners := funext heq
  exact hk

/-- An object with owners is there, and its cell counts them. -/
theorem Keeps.live (hk : h.Keeps ts owners) (ho : 0 < owners o) :
    ∃ size v count, h.object? o = some ⟨size, some o, .value v⟩ ∧
      h.cell? o = some ⟨count, false, v.finalizer⟩ ∧ o ∉ ts ∧ count.toNat = owners o := by
  cases hk.stands o with
  | live size v count object cell idle counted _ =>
    exact ⟨size, v, count, object, cell, idle, counted⟩
  | unborn _ _ _ left => exact absurd ho (by omega)
  | going _ _ _ _ _ _ left => exact absurd ho (by omega)
  | gone _ _ _ _ _ _ left => exact absurd ho (by omega)

/-- An object that is being torn down holds nothing, has no owner, and its cell stays locked. -/
theorem Keeps.going (hk : h.Keeps ts owners) (ho : o ∈ ts) :
    ∃ size contents, h.object? o = some ⟨size, some o, contents⟩ ∧ contents.children = [] ∧
      h.cell? o = some {locked := true} ∧ owners o = 0 := by
  cases hk.stands o with
  | going size contents object empty cell _ left => exact ⟨size, contents, object, empty, cell, left⟩
  | unborn _ _ idle _ => exact absurd ho idle
  | live _ _ _ _ _ idle _ _ => exact absurd ho idle
  | gone _ _ _ _ _ idle _ => exact absurd ho idle

/-- While nothing is being torn down, the count of an object is the number of its owners, and an
object is linked if it has one. -/
theorem Keeps.countOf_eq (hk : h.Keeps [] owners) (o : ObjectId) : h.countOf o = owners o := by
  unfold countOf
  cases hk.stands o with
  | unborn object cell _ left =>
    rw [left]
    simp [governing?, link?, object]
  | live size v count object cell _ counted _ =>
    rw [← counted]
    simp [governing?, link?, object, cell]
  | going _ _ _ _ _ begun _ => cases begun
  | gone size contents object _ _ _ left =>
    rw [left]
    simp [governing?, link?, object]

theorem Keeps.link?_eq_none_iff (hk : h.Keeps [] owners) (o : ObjectId) :
    h.link? o = none ↔ owners o = 0 := by
  cases hk.stands o with
  | unborn object _ _ left => exact iff_of_true (by simp [link?, object]) left
  | live size v count object cell _ counted left =>
    refine iff_of_false (fun hnone => ?_) (Nat.ne_of_gt left)
    simp [link?, object] at hnone
  | going _ _ _ _ _ begun _ => cases begun
  | gone size contents object _ _ _ left => exact iff_of_true (by simp [link?, object]) left

end Heap
end Custody
