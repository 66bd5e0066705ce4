import Custody.Proofs.PrivateCopies

/-! Shared objects mirror private copies.

While every object keeps to its owners, a handle shows what its private copy is, whatever other
handles share its object (`Heap.Mirrors`). An object is written to only while it has one owner,
so no other image has it inside; and while references are dropped, what still has an owner is
left as it is. -/
namespace Custody

variable {lent : List ObjectId} {s t : State} {o p : ObjectId} {owners owners' : ObjectId → Nat}

/-! ### Tables that correspond -/

namespace Bindings

/-- The same names are bound in both tables, to things that correspond. -/
def Match (R : α → β → Prop) (b : Bindings α) (c : Bindings β) : Prop :=
  ∀ name, Option.Rel R (b.find? name) (c.find? name)

variable {R R' : α → β → Prop} {b : Bindings α} {c : Bindings β} {name : String} {x : α} {y : β}

theorem Match.find (h : Match R b c) (hx : b.find? name = some x) :
    ∃ y, c.find? name = some y ∧ R x y := by
  have hname := h name
  rw [hx] at hname
  generalize c.find? name = found at hname
  cases hname with
  | some hr => exact ⟨_, rfl, hr⟩

theorem Match.absent (h : Match R b c) (hx : b.find? name = none) : c.find? name = none := by
  have hname := h name
  rw [hx] at hname
  generalize c.find? name = found at hname
  cases hname
  rfl

/-- Things that are read as what they correspond to. -/
theorem Match.bind_eq {f : α → Option β} (h : Match (fun x y => f x = some y) b c)
    (name : String) : (b.find? name).bind f = c.find? name := by
  have hname := h name
  generalize b.find? name = found at hname
  generalize c.find? name = expected at hname
  cases hname with
  | none => rfl
  | some hy => exact hy

theorem Match.bind (h : Match R b c) (hr : R x y) (name : String) :
    Match R (b.bind name x) (c.bind name y) := by
  intro n
  rw [find?_bind, find?_bind]
  by_cases hn : n = name
  · simp only [if_pos hn]
    exact .some hr
  · simp only [if_neg hn]
    exact h n

theorem Match.remove (h : Match R b c) (name : String) : Match R (b.remove name) (c.remove name) := by
  intro n
  rw [find?_remove, find?_remove]
  by_cases hn : n = name
  · simp only [if_pos hn]
    exact .none
  · simp only [if_neg hn]
    exact h n

/-- What is bound to other names corresponds as before, and one thing in a new way. -/
theorem Match.change (h : Match R b c) (hx : b.find? name = some x) (hr : R' x y)
    (hother : ∀ n z w, n ≠ name → b.find? n = some z → R z w → R' z w) :
    Match R' b (c.bind name y) := by
  intro n
  rw [find?_bind]
  by_cases hn : n = name
  · simp only [if_pos hn]
    rw [hn, hx]
    exact .some hr
  · simp only [if_neg hn]
    cases hz : b.find? n with
    | none =>
      rw [h.absent hz]
      exact .none
    | some z =>
      obtain ⟨w, hw, hr⟩ := h.find hz
      rw [hw]
      exact .some (hother n z w hn hz hr)

theorem Match.imp (h : Match R b c) (himp : ∀ n z w, b.find? n = some z → R z w → R' z w) :
    Match R' b c := by
  intro n
  cases hz : b.find? n with
  | none =>
    rw [h.absent hz]
    exact .none
  | some z =>
    obtain ⟨w, hw, hr⟩ := h.find hz
    rw [hw]
    exact .some (himp n z w hz hr)

/-- A thing with one use has one name. -/
theorem eq_of_uses {b : Bindings ObjectId} {n : String} (hd : b.Distinct) (huses : b.uses o = 1)
    (hx : b.find? name = some o) (hn : b.find? n = some o) : n = name := by
  by_contra hne
  have hleft := uses_remove hd hx o
  rw [if_pos rfl] at hleft
  have hstill : (b.remove name).find? n = some o := by
    rw [find?_remove_of_ne b hne]
    exact hn
  have := uses_pos hstill
  omega

end Bindings

/-! ### Images and changes to a heap -/

namespace Heap

variable {h h' : Heap} {v : Value} {img : Image} {kids : List Image} {object : Object}
  {copies : Copies}

section Append

variable (hobjects : h'.objects = h.objects ++ [object])
include hobjects

theorem object?_append (hp : p ≠ h.objects.length) : h'.object? p = h.object? p := by
  rw [object?, hobjects, getElem?_snoc, if_neg hp]
  rfl

theorem object?_append_self : h'.object? h.objects.length = some object := by
  rw [object?, hobjects, getElem?_snoc, if_pos rfl]

theorem Shows.append (hs : h.Shows p img) : h'.Shows p img := by
  refine hs.mono fun q v hv => ?_
  rw [value?, object?_append hobjects (Nat.ne_of_lt (lt_of_value? hv))]
  exact hv

/-- A new object shows its value with the images that its children show. -/
theorem shows_append (hv : object.contents = .value v)
    (hkids : List.Forall₂ h.Shows v.children kids) :
    h'.Shows h.objects.length (v.image kids) := by
  refine shows_iff.2 ⟨v, kids, ?_, hkids.imp fun _ _ hs => hs.append hobjects, rfl⟩
  simp [value?, object?_append_self hobjects, hv, Contents.toValue?]

end Append

section Write

theorem object?_write {contents : Contents} (hobjects : h'.objects = (h.setContents o contents).objects)
    (hp : p ≠ o) : h'.object? p = h.object? p := by
  rw [object?, hobjects]
  exact object?_updateObject_of_ne _ hp.symm

variable (hobjects : h'.objects = (h.setContents o (.value v)).objects)
include hobjects

theorem object?_write_self (ho : h.object? o = some object) :
    h'.object? o = some {object with contents := .value v} := by
  rw [object?, hobjects]
  refine (object?_updateObject_self (h := h) _).trans ?_
  rw [ho]
  rfl

/-- A write shows in no image that does not have the object inside. -/
theorem Shows.write (hs : h.Shows p img) (hholds : h.holds o = 0) (hp : p ≠ o) : h'.Shows p img := by
  refine hs.congr (S := fun q => q ≠ o) hp (fun q w _ hw c hc hco => ?_) fun q w hq hw => ?_
  · rw [hco] at hc
    exact Nat.ne_of_gt (holds_pos_of_value? hw hc) hholds
  · rw [value?, object?_write hobjects hq]
    exact hw

theorem shows_write (ho : h.object? o = some object) (hholds : h.holds o = 0)
    (hkids : List.Forall₂ h.Shows v.children kids) (hself : o ∉ v.children) :
    h'.Shows o (v.image kids) := by
  refine shows_iff.2 ⟨v, kids, ?_, ?_, rfl⟩
  · simp [value?, object?_write_self hobjects ho, Contents.toValue?]
  · refine forall₂_imp_of_mem hkids fun c hc kid hs => hs.write hobjects hholds ?_
    rintro rfl
    exact hself hc

end Write

/-! ### Mirrors -/

/-- Every handle shows its private copy, and whatever has an owner shows something. -/
structure Mirrors (h : Heap) (owners : ObjectId → Nat) (handles : Bindings ObjectId)
    (copies : Copies) : Prop where
  copied : Bindings.Match h.Shows handles copies
  shows (o : ObjectId) (owned : 0 < owners o) : ∃ img, h.Shows o img

variable {ts us : List ObjectId} {handles : Bindings ObjectId}

/-- An object that is linked, and is not being torn down, has an owner. -/
theorem Keeps.pos_of_linked (hk : h.Keeps ts owners) {size : UInt64} {c : CellId}
    {contents : Contents} (ho : h.object? o = some ⟨size, some c, contents⟩) (hidle : o ∉ ts) :
    0 < owners o := by
  cases hk.stands o with
  | live _ _ _ _ _ _ _ left => exact left
  | unborn found _ _ _ => exact absurd (ho.symm.trans found) (Option.some_ne_none _)
  | going _ _ _ _ _ begun _ => exact absurd begun hidle
  | gone _ _ found _ _ _ _ =>
    rw [ho] at found
    cases found

/-- What has an owner had one before, if nothing about it has changed. -/
theorem Keeps.pos_before (hk : h.Keeps ts owners) (hk' : h'.Keeps us owners') (ho : 0 < owners' o)
    (hobject : h'.object? o = h.object? o) (hidle : o ∉ ts) : 0 < owners o := by
  obtain ⟨size, v, count, hlive, _⟩ := hk'.live ho
  exact hk.pos_of_linked (hobject.symm.trans hlive) hidle

/-- What still has an owner is left as it is. -/
theorem Mirrors.wane (hm : h.Mirrors owners handles copies) (hk : h.Keeps ts owners)
    (hk' : h'.Keeps us owners')
    (hsame : ∀ p, 0 < owners' p → h'.object? p = h.object? p ∧ p ∉ ts)
    (hhandles : ∀ name p, handles.find? name = some p → 0 < owners' p)
    (hholds : ∀ p, 0 < h'.holds p → 0 < owners' p) : h'.Mirrors owners' handles copies := by
  have hvalue (p : ObjectId) (hp : 0 < owners' p) : h'.value? p = h.value? p := by
    rw [value?, (hsame p hp).1, value?]
  have hshows {p : ObjectId} {img : Image} (hp : 0 < owners' p) (hs : h.Shows p img) :
      h'.Shows p img := by
    refine hs.congr (S := fun q => 0 < owners' q) hp (fun q w hq hw c hc => ?_) fun q w hq hw => ?_
    · rw [← hvalue q hq] at hw
      exact hholds c (holds_pos_of_value? hw hc)
    · rw [hvalue q hq]
      exact hw
  refine ⟨hm.copied.imp fun name p img hp hs => hshows (hhandles name p hp) hs, fun p hp => ?_⟩
  obtain ⟨hobject, hidle⟩ := hsame p hp
  obtain ⟨img, hs⟩ := hm.shows p (hk.pos_before hk' hp hobject hidle)
  exact ⟨img, hshows hp hs⟩

/-- The value behind a handle is assigned to, which no other handle and no value refers to. -/
theorem Mirrors.write (hm : h.Mirrors owners handles copies) {w : Value} {size : UInt64}
    {link : Option CellId} {handle : String} {literal : Literal}
    (hobjects : h'.objects = (h.setContents o (.value w)).objects)
    (hobject : h.object? o = some ⟨size, link, .value v⟩) (hw : v.updated? literal = some w)
    (hfound : handles.find? handle = some o)
    (halone : ∀ name, handles.find? name = some o → name = handle) (hholds : h.holds o = 0)
    (howners : ∀ p, p ≠ o → 0 < owners' p → 0 < owners p) :
    h'.Mirrors owners' handles (copies.write handle literal) := by
  obtain ⟨img, hcopy, hs⟩ := hm.copied.find hfound
  obtain ⟨u, kids, hu, hkids, rfl⟩ := shows_iff.1 hs
  obtain rfl : u = v := by
    simpa [value?, hobject, Contents.toValue?] using hu.symm
  have hchildren : w.children = u.children := State.children_updated? hw
  have hself : o ∉ w.children := by
    rw [hchildren]
    exact hs.not_mem hu
  rw [← hchildren] at hkids
  have hwritten := shows_write hobjects hobject hholds hkids hself
  have hcopies : copies.write handle literal = copies.bind handle (w.image kids) := by
    simp [Copies.write, hcopy, Value.updated?_image hw]
  rw [hcopies]
  refine ⟨hm.copied.change hfound hwritten fun name p img hname hp hs => ?_, fun p hp => ?_⟩
  · refine hs.write hobjects hholds ?_
    rintro rfl
    exact hname (halone name hp)
  · by_cases hpo : p = o
    · rw [hpo]
      exact ⟨_, hwritten⟩
    · obtain ⟨img, hs⟩ := hm.shows p (howners p hpo hp)
      exact ⟨img, hs.write hobjects hholds hpo⟩

/-- Nothing but cells has changed. -/
theorem Mirrors.of_objects (hm : h.Mirrors owners handles copies) (hk : h.Keeps [] owners)
    (hk' : h'.Keeps us owners') (hobjects : h'.objects = h.objects) :
    h'.Mirrors owners' handles copies := by
  have hshows := shows_of_objects hobjects
  refine ⟨hshows ▸ hm.copied, fun p hp => ?_⟩
  have hobject : h'.object? p = h.object? p := by rw [object?, hobjects, object?]
  rw [hshows]
  exact hm.shows p (hk.pos_before hk' hp hobject List.not_mem_nil)

/-- Values of handles by their names. -/
theorem Mirrors.taken (hm : h.Mirrors owners handles copies) {names : List String}
    {os : List ObjectId} (hfound : List.Forall₂ (fun name o => handles.find? name = some o) names os) :
    List.Forall₂ h.Shows os (names.filterMap copies.find?) := by
  induction hfound with
  | nil => exact .nil
  | cons ho _ ih =>
    obtain ⟨img, hcopy, hs⟩ := hm.copied.find ho
    rw [List.filterMap_cons_some hcopy]
    exact .cons hs ih

section Append

variable {rest : Bindings ObjectId} {size : UInt64} {c : CellId} (hm : h.Mirrors owners handles copies)
  (hk : h.Keeps [] owners) (hk' : h'.Keeps us owners')
  (hobjects : h'.objects = h.objects ++ [⟨size, some c, .value v⟩])
include hm hk hk' hobjects

/-- A new object shows something, and the others show what they showed. -/
theorem Mirrors.shows_append (hs : h'.Shows h.objects.length img) (p : ObjectId)
    (hp : 0 < owners' p) : ∃ img, h'.Shows p img := by
  by_cases hnew : p = h.objects.length
  · rw [hnew]
    exact ⟨img, hs⟩
  · have hold := hk.pos_before hk' hp (object?_append hobjects hnew) List.not_mem_nil
    obtain ⟨img, hs⟩ := hm.shows p hold
    exact ⟨img, hs.append hobjects⟩

theorem Mirrors.create {handle : String} {kind : Kind} {literal : Literal}
    (htakes : Bindings.Takes handles literal.childNames v.children rest)
    (hv : literal.value? kind v.children = some v) :
    h'.Mirrors owners' (rest.bind handle h.objects.length) (copies.create handle kind literal) := by
  obtain ⟨w, hw, himage⟩ := Literal.image_value? hv
  have hcopies : copies.create handle kind literal =
      (literal.childNames.foldl Bindings.remove copies).bind handle
        (v.image (literal.childNames.filterMap copies.find?)) := by
    simp only [Copies.create, hw, himage]
  have hnew := Heap.shows_append hobjects rfl (hm.taken htakes.found)
  rw [hcopies]
  refine ⟨Bindings.Match.bind (fun name => ?_) hnew handle, hm.shows_append hk hk' hobjects hnew⟩
  rw [htakes.left, Copies.find?_foldl_remove]
  by_cases hname : name ∈ literal.childNames
  · simp only [if_pos hname]
    exact .none
  · simp only [if_neg hname]
    exact hm.copied.imp (fun _ _ _ _ hs => hs.append hobjects) name

/-- A copy that was assigned to takes the place of the original behind one handle. -/
theorem Mirrors.copy {handle : String} {literal : Literal} {w : Value} {object : Object}
    (hfound : handles.find? handle = some o) (hobject : h.object? o = some object)
    (hw : object.contents = .value w) (hupdated : w.updated? literal = some v) :
    h'.Mirrors owners' (handles.bind handle h.objects.length) (copies.write handle literal) := by
  obtain ⟨img, hcopy, hs⟩ := hm.copied.find hfound
  obtain ⟨u, kids, hu, hkids, rfl⟩ := shows_iff.1 hs
  obtain rfl : w = u := by
    simpa [value?, hobject, hw, Contents.toValue?] using hu
  have hchildren : v.children = w.children := State.children_updated? hupdated
  rw [← hchildren] at hkids
  have hnew := Heap.shows_append hobjects rfl hkids
  have hcopies : copies.write handle literal = copies.bind handle (v.image kids) := by
    simp [Copies.write, hcopy, Value.updated?_image hupdated]
  rw [hcopies]
  refine ⟨?_, hm.shows_append hk hk' hobjects hnew⟩
  exact (hm.copied.imp fun _ _ _ _ hs => hs.append hobjects).bind hnew handle

end Append

/-- A handle moves into the value behind another one, which nothing else refers to. -/
theorem Mirrors.push (hm : h.Mirrors owners handles copies) {size : UInt64} {link : Option CellId}
    {handle child label : String} {children : List ObjectId}
    (hobjects : h'.objects = (h.setContents o (.value (.node label (children ++ [p])))).objects)
    (hobject : h.object? o = some ⟨size, link, .value (.node label children)⟩)
    (hfound : handles.find? handle = some o) (hchild : handles.find? child = some p)
    (hne : handle ≠ child)
    (halone : ∀ name, handles.find? name = some o → name = handle) (hholds : h.holds o = 0)
    (howners : ∀ q, q ≠ o → 0 < owners' q → 0 < owners q) :
    h'.Mirrors owners' (handles.remove child) (copies.push handle child) := by
  obtain ⟨img, hcopy, hs⟩ := hm.copied.find hfound
  obtain ⟨kid, hkidcopy, hkid⟩ := hm.copied.find hchild
  obtain ⟨w, kids, hw, hkids, rfl⟩ := shows_iff.1 hs
  obtain rfl : w = .node label children := by
    simpa [value?, hobject, Contents.toValue?] using hw.symm
  have hpo : p ≠ o := by
    rintro rfl
    exact hne (halone child hchild).symm
  have hself : o ∉ children ++ [p] := by
    rw [List.mem_append, not_or]
    exact ⟨hs.not_mem hw, fun hmem => hpo (List.mem_singleton.1 hmem).symm⟩
  have hpushed : List.Forall₂ h.Shows (children ++ [p]) (kids ++ [kid]) :=
    List.rel_append hkids (.cons hkid .nil)
  have hwritten : h'.Shows o (.node label (kids ++ [kid])) :=
    shows_write (v := .node label (children ++ [p])) hobjects hobject hholds hpushed hself
  have hcopies : copies.push handle child =
      (copies.remove child).bind handle (.node label (kids ++ [kid])) := by
    simp [Copies.push, hcopy, hkidcopy, Value.image]
  have hstill : (handles.remove child).find? handle = some o := by
    rw [Bindings.find?_remove_of_ne _ hne]
    exact hfound
  rw [hcopies]
  refine ⟨(hm.copied.remove child).change hstill hwritten fun name q img hname hq hs => ?_,
    fun q hq => ?_⟩
  · refine hs.write hobjects hholds ?_
    rintro rfl
    simp only [Bindings.find?_remove] at hq
    split at hq
    · cases hq
    · exact hname (halone name hq)
  · by_cases hqo : q = o
    · rw [hqo]
      exact ⟨_, hwritten⟩
    · obtain ⟨img, hs⟩ := hm.shows q (howners q hqo hq)
      exact ⟨img, hs.write hobjects hholds hqo⟩

end Heap
end Custody
