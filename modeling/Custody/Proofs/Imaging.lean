import Custody.Proofs.Ownership
import Mathlib.Data.List.Nodup

/-! What a handle shows.

An object shows an image if its value does with every child in place. The image does not
depend on how deep one looks, as long as that is deep enough (`Heap.Shows`); and as deep as
there are objects always is, since a chain of children that leads to an image goes through
every object once at most (`Heap.fullImage?_of_shows`). -/
namespace Custody

variable {h h' : Heap} {o : ObjectId} {d : Nat} {img : Image}

/-! ### Values with images of their children -/

def Value.image (v : Value) (kids : List Image) : Image :=
  match v with
  | .word n => .word n
  | .unit => .unit
  | .double x => .double x
  | .text t => .text t
  | .integers l => .integers l
  | .node label _ => .node label kids

/-- The image after an assignment through a handle, as for the value. -/
def Image.updated? (image : Image) (l : Literal) : Option Image :=
  match image with
  | .word _ => l.word?.map .word
  | .unit => some .unit
  | .double _ => l.double?.map .double
  | .text t => l.text?.map fun more => .text (t ++ more)
  | .integers xs => l.integers?.map fun more => .integers (xs ++ more)
  | .node _ kids => l.text?.map (.node · kids)

theorem Value.updated?_image {v v' : Value} {literal : Literal} (h : v.updated? literal = some v')
    (kids : List Image) : (v.image kids).updated? literal = some (v'.image kids) := by
  cases v with
  | unit => cases h; rfl
  | _ =>
    obtain ⟨x, hx, rfl⟩ := Option.map_eq_some_iff.1 h
    simp [image, Image.updated?, hx]

/-- The children of a literal do not matter for the rest of its value. -/
theorem Literal.image_value? {kind : Kind} {os : List ObjectId} {literal : Literal}
    {v : Value} (hv : literal.value? kind os = some v) :
    ∃ w, literal.value? kind [] = some w ∧ ∀ kids, w.image kids = v.image kids := by
  cases kind with
  | node =>
    obtain ⟨label, hlabel, rfl⟩ := Option.map_eq_some_iff.1 hv
    exact ⟨.node label [], Option.map_eq_some_iff.2 ⟨label, hlabel, rfl⟩, fun _ => rfl⟩
  | _ => exact ⟨v, hv, fun _ => rfl⟩

theorem mapM_eq_some_iff {f : α → Option β} {l : List α} {k : List β} :
    l.mapM f = some k ↔ List.Forall₂ (fun a b => f a = some b) l k := by
  induction l generalizing k with
  | nil => simp [eq_comm]
  | cons a l ih =>
    rw [List.mapM_cons]
    constructor
    · intro h
      obtain ⟨b, hb, h⟩ := Option.bind_eq_some_iff.1 h
      obtain ⟨bs, hbs, h⟩ := Option.bind_eq_some_iff.1 h
      cases h
      exact .cons hb (ih.1 hbs)
    · intro h
      cases h with
      | cons hb hbs =>
        rw [hb, ih.2 hbs]
        rfl

theorem exists_of_mem {R : α → β → Prop} {l : List α} {k : List β} {a : α}
    (h : List.Forall₂ R l k) (ha : a ∈ l) : ∃ b, R a b := by
  induction h with
  | nil => cases ha
  | cons hab _ ih =>
    rcases List.mem_cons.1 ha with rfl | ha
    · exact ⟨_, hab⟩
    · exact ih ha

theorem forall₂_imp_of_mem {R R' : α → β → Prop} {l : List α} {k : List β}
    (h : List.Forall₂ R l k) (himp : ∀ a ∈ l, ∀ b, R a b → R' a b) : List.Forall₂ R' l k := by
  induction h with
  | nil => exact .nil
  | cons hab _ ih =>
    exact .cons (himp _ List.mem_cons_self _ hab)
      (ih fun a ha => himp a (List.mem_cons_of_mem _ ha))

namespace Heap

/-- A value's image one level deeper than those of its children. -/
theorem image?_succ : h.image? (d + 1) o = some img ↔
    ∃ v kids, h.value? o = some v ∧
      List.Forall₂ (fun c kid => h.image? d c = some kid) v.children kids ∧ v.image kids = img := by
  rw [image?]
  cases hv : h.value? o with
  | none => simp
  | some v =>
    cases v with
    | node label children =>
      simp only [Option.bind_some, Option.map_eq_some_iff, mapM_eq_some_iff]
      constructor
      · rintro ⟨kids, hkids, himage⟩
        exact ⟨_, kids, rfl, hkids, himage⟩
      · rintro ⟨v, kids, hv', hkids, himage⟩
        cases hv'
        exact ⟨kids, hkids, himage⟩
    | _ =>
      simp only [Option.bind_some, Option.some.injEq]
      constructor
      · intro himage
        exact ⟨_, [], rfl, .nil, himage⟩
      · rintro ⟨v, kids, rfl, _, himage⟩
        exact himage

theorem image?_mono {e : Nat} (hle : d ≤ e) (hi : h.image? d o = some img) :
    h.image? e o = some img := by
  induction d generalizing e o img with
  | zero => cases hi
  | succ d ih =>
    obtain ⟨k, rfl⟩ := Nat.exists_eq_add_of_lt hle
    obtain ⟨v, kids, hv, hkids, himage⟩ := image?_succ.1 hi
    exact image?_succ.2 ⟨v, kids, hv, hkids.imp fun c kid hc => ih (by omega) hc, himage⟩

/-- Deep enough down, the object shows the image. -/
def Shows (h : Heap) (o : ObjectId) (img : Image) : Prop :=
  ∃ d, h.image? d o = some img

theorem exists_depth {os : List ObjectId} {kids : List Image} (hs : List.Forall₂ h.Shows os kids) :
    ∃ d, List.Forall₂ (fun c kid => h.image? d c = some kid) os kids := by
  induction hs with
  | nil => exact ⟨0, .nil⟩
  | cons hc _ ih =>
    obtain ⟨d, hd⟩ := hc
    obtain ⟨e, he⟩ := ih
    exact ⟨max d e, .cons (image?_mono (Nat.le_max_left d e) hd)
      (he.imp fun _ _ hi => image?_mono (Nat.le_max_right d e) hi)⟩

theorem shows_iff : h.Shows o img ↔
    ∃ v kids, h.value? o = some v ∧ List.Forall₂ h.Shows v.children kids ∧ v.image kids = img := by
  constructor
  · rintro ⟨d, hd⟩
    cases d with
    | zero => cases hd
    | succ d =>
      obtain ⟨v, kids, hv, hkids, himage⟩ := image?_succ.1 hd
      exact ⟨v, kids, hv, hkids.imp fun _ _ hc => ⟨d, hc⟩, himage⟩
  · rintro ⟨v, kids, hv, hkids, himage⟩
    obtain ⟨d, hd⟩ := exists_depth hkids
    exact ⟨d + 1, image?_succ.2 ⟨v, kids, hv, hd, himage⟩⟩

/-- An image depends on the values of some objects, if those hold no others. -/
theorem Shows.congr {S : ObjectId → Prop} (hs : h.Shows o img) (ho : S o)
    (hclosed : ∀ p v, S p → h.value? p = some v → ∀ c ∈ v.children, S c)
    (hvalue : ∀ p v, S p → h.value? p = some v → h'.value? p = some v) : h'.Shows o img := by
  obtain ⟨d, hd⟩ := hs
  refine ⟨d, ?_⟩
  induction d generalizing o img with
  | zero => cases hd
  | succ d ih =>
    obtain ⟨v, kids, hv, hkids, himage⟩ := image?_succ.1 hd
    refine image?_succ.2 ⟨v, kids, hvalue o v ho hv, ?_, himage⟩
    exact forall₂_imp_of_mem hkids fun c hc kid hkid => ih (hclosed o v ho hv c hc) hkid

/-- Values may be added. -/
theorem Shows.mono (hs : h.Shows o img)
    (hvalue : ∀ p v, h.value? p = some v → h'.value? p = some v) : h'.Shows o img :=
  hs.congr (S := fun _ => True) trivial (fun _ _ _ _ _ _ => trivial) fun p v _ => hvalue p v

/-- Cells have no part in what objects show. -/
theorem shows_of_objects (hobjects : h'.objects = h.objects) : h'.Shows = h.Shows := by
  have hvalue (p : ObjectId) : h'.value? p = h.value? p := by
    rw [value?, object?, hobjects, value?, object?]
  funext o img
  refine propext ⟨fun hs => hs.mono fun p v hv => ?_, fun hs => hs.mono fun p v hv => ?_⟩
  · rw [← hvalue]
    exact hv
  · rw [hvalue]
    exact hv

theorem lt_of_value? {v : Value} (hv : h.value? o = some v) : o < h.objects.length := by
  obtain ⟨object, ho, _⟩ := Option.bind_eq_some_iff.1 hv
  exact (List.getElem?_eq_some_iff.1 ho).1

/-! ### Depth -/

/-- The object shows an image at this depth, and none before. -/
def Deep (h : Heap) (d : Nat) (o : ObjectId) : Prop :=
  h.image? d o = none ∧ h.image? (d + 1) o ≠ none

theorem Deep.unique {e : Nat} (hd : h.Deep d o) (he : h.Deep e o) : d = e := by
  have hnot {d e : Nat} (hd : h.Deep d o) (he : h.Deep e o) : ¬ d < e := by
    intro hlt
    obtain ⟨image, hi⟩ := Option.ne_none_iff_exists'.1 hd.2
    have := image?_mono hlt hi
    rw [he.1] at this
    cases this
  have := hnot hd he
  have := hnot he hd
  omega

theorem exists_deep_of_mapM {os : List ObjectId} {kids : List Image}
    (hkids : List.Forall₂ (fun c kid => h.image? (d + 1) c = some kid) os kids)
    (hnone : ∀ kids, ¬ List.Forall₂ (fun c kid => h.image? d c = some kid) os kids) :
    ∃ c ∈ os, h.Deep d c := by
  induction hkids with
  | nil => exact absurd .nil (hnone [])
  | @cons c kid cs kids hc _ ih =>
    cases hd : h.image? d c with
    | none => exact ⟨c, List.mem_cons_self, hd, by rw [hc]; nofun⟩
    | some image =>
      obtain ⟨c', hmem, hdeep⟩ := ih fun kids hk => hnone (image :: kids) (.cons hd hk)
      exact ⟨c', List.mem_cons_of_mem c hmem, hdeep⟩

/-- What shows an image only further down has a child that does so one level up. -/
theorem Deep.child (hd : h.Deep (d + 1) o) : ∃ c, h.Deep d c := by
  obtain ⟨image, hi⟩ := Option.ne_none_iff_exists'.1 hd.2
  obtain ⟨v, kids, hv, hkids, himage⟩ := image?_succ.1 hi
  obtain ⟨c, _, hc⟩ := exists_deep_of_mapM hkids fun kids' hkids' => by
    have := image?_succ.2 ⟨v, kids', hv, hkids', rfl⟩
    rw [hd.1] at this
    cases this
  exact ⟨c, hc⟩

/-- There are as many objects as there are levels: one for each. -/
theorem Deep.lt_length (hd : h.Deep d o) : d < h.objects.length := by
  have hchain : ∃ l : List ObjectId, l.length = d + 1 ∧ l.Nodup ∧
      ∀ c ∈ l, c < h.objects.length ∧ ∃ e ≤ d, h.Deep e c := by
    have hlt {d : Nat} {o : ObjectId} (hd : h.Deep d o) : o < h.objects.length := by
      obtain ⟨img, hi⟩ := Option.ne_none_iff_exists'.1 hd.2
      obtain ⟨v, _, hv, _⟩ := image?_succ.1 hi
      exact lt_of_value? hv
    induction d generalizing o with
    | zero =>
      refine ⟨[o], rfl, List.nodup_singleton o, fun c hc => ?_⟩
      obtain rfl := List.mem_singleton.1 hc
      exact ⟨hlt hd, 0, Nat.le_refl 0, hd⟩
    | succ d ih =>
      obtain ⟨c, hc⟩ := hd.child
      obtain ⟨l, hlength, hnodup, hmem⟩ := ih hc
      refine ⟨o :: l, by simp [hlength], List.nodup_cons.2 ⟨fun ho => ?_, hnodup⟩, fun p hp => ?_⟩
      · obtain ⟨_, e, he, hdeep⟩ := hmem o ho
        have := hd.unique hdeep
        omega
      · rcases List.mem_cons.1 hp with rfl | hp
        · exact ⟨hlt hd, d + 1, Nat.le_refl _, hd⟩
        · obtain ⟨hp, e, he, hdeep⟩ := hmem p hp
          exact ⟨hp, e, Nat.le_succ_of_le he, hdeep⟩
  obtain ⟨l, hlength, hnodup, hmem⟩ := hchain
  have hsubset : l ⊆ List.range h.objects.length := fun c hc => List.mem_range.2 (hmem c hc).1
  have := hnodup.length_le_of_subset hsubset
  rw [List.length_range] at this
  omega

theorem Shows.deep (hs : h.Shows o img) : ∃ d, h.Deep d o ∧ h.image? (d + 1) o = some img := by
  obtain ⟨d, hd⟩ := hs
  induction d with
  | zero => cases hd
  | succ d ih =>
    cases hi : h.image? d o with
    | some img' =>
      have := image?_mono (Nat.le_succ d) hi
      rw [hd] at this
      exact ih (hi.trans this.symm)
    | none => exact ⟨d, ⟨hi, by rw [hd]; exact Option.some_ne_none _⟩, hd⟩

/-- **As deep as there are objects is deep enough.** -/
theorem fullImage?_of_shows (hs : h.Shows o img) : h.fullImage? o = some img := by
  obtain ⟨d, hd, hi⟩ := hs.deep
  exact image?_mono hd.lt_length hi

/-- What shows an image is not its own child. -/
theorem Shows.not_mem {v : Value} (hs : h.Shows o img) (hv : h.value? o = some v) :
    o ∉ v.children := by
  intro hmem
  obtain ⟨d, hd⟩ := hs
  induction d generalizing img with
  | zero => cases hd
  | succ d ih =>
    obtain ⟨w, kids, hw, hkids, _⟩ := image?_succ.1 hd
    obtain rfl : v = w := Option.some.inj (hv.symm.trans hw)
    obtain ⟨kid, hkid⟩ := exists_of_mem hkids hmem
    exact ih hkid

end Heap
end Custody
