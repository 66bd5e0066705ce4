import Mathlib.Data.List.Forall2
import Mathlib.Data.List.Perm.Basic
import Custody.Proofs.Ledger
import Custody.Proofs.Writing

/-! Objects put together by hand: what they leave out.

A script that allocates its objects is compared with one that puts some of them together by hand
(`Step.Rebuilt`). These are not counted as allocated, no allocator is asked for their regions, and
no line of the log tells of their creation. Each of the three has its own account of the objects
made so far. The objects themselves, their slots and their cells are the same (`Heap.Rebuilt`). -/
namespace Custody

/-! ### Scripts -/

/-- The same routine with another body. -/
inductive Routine.Alike (R : σ → σ → Prop) : Routine σ → Routine σ → Prop where
  | mk (convention : Convention) (label : String) {body body' : List σ}
    (h : List.Forall₂ R body body') : Alike R ⟨convention, label, body⟩ ⟨convention, label, body'⟩

/-- Some of the native allocations that name no allocator, and that are small enough to have a
region, are replaced by putting an object together by hand. -/
inductive Step.Rebuilt : Step → Step → Prop where
  | byHand (name : String) {size : UInt64} (fits : (Layout.ofPayload? size).isSome = true)
    {r r' : Option (Routine Step)} (h : Option.Rel (Routine.Alike Rebuilt) r r') :
    Rebuilt (.allocate name size r none .native) (.assemble name size r')
  | same (step : Step) : Rebuilt step step
  | allocate (name : String) (size : UInt64) (provider : Option String) (via : Convention)
    {r r' : Option (Routine Step)} (h : Option.Rel (Routine.Alike Rebuilt) r r') :
    Rebuilt (.allocate name size r provider via) (.allocate name size r' provider via)
  | assemble (name : String) (size : UInt64) {r r' : Option (Routine Step)}
    (h : Option.Rel (Routine.Alike Rebuilt) r r') :
    Rebuilt (.assemble name size r) (.assemble name size r')
  | reinstall (name : String) {r r' : Option (Routine Step)}
    (h : Option.Rel (Routine.Alike Rebuilt) r r') :
    Rebuilt (.reinstall name r) (.reinstall name r')
  | newCell (name : String) {r r' : Option (Routine Step)}
    (h : Option.Rel (Routine.Alike Rebuilt) r r') : Rebuilt (.newCell name r) (.newCell name r')
  | describe {r r' : Option (Routine Step)} (h : Option.Rel (Routine.Alike Rebuilt) r r') :
    Rebuilt (.describe r) (.describe r')
  | attempt {step step' : Step} (h : Rebuilt step step') : Rebuilt (.attempt step) (.attempt step')

abbrev Routine.Rebuilt : Routine Step → Routine Step → Prop :=
  Routine.Alike Step.Rebuilt

theorem Routine.Rebuilt.refl (r : Routine Step) : r.Rebuilt r :=
  .mk r.convention r.label (List.forall₂_same.2 fun step _ => .same step)

theorem rel_refl {R : α → α → Prop} (h : ∀ x, R x x) (found : Option α) :
    Option.Rel R found found := by
  cases found with
  | none => exact .none
  | some x => exact .some (h x)

theorem rel_map {R : α → β → Prop} {Q : γ → δ → Prop} {f : α → γ} {g : β → δ}
    (hfg : ∀ a b, R a b → Q (f a) (g b)) {x : Option α} {y : Option β} (h : Option.Rel R x y) :
    Option.Rel Q (x.map f) (y.map g) := by
  cases h with
  | none => exact .none
  | some h => exact .some (hfg _ _ h)

theorem rel_bind {R : α → β → Prop} {Q : γ → δ → Prop} {f : α → Option γ} {g : β → Option δ}
    (hfg : ∀ a b, R a b → Option.Rel Q (f a) (g b)) {x : Option α} {y : Option β}
    (h : Option.Rel R x y) : Option.Rel Q (x.bind f) (y.bind g) := by
  cases h with
  | none => exact .none
  | some h => exact hfg _ _ h

/-- What related members have in common can be read off either side. -/
theorem map_eq_of_rel {R : α → β → Prop} {f : α → γ} {g : β → γ} (hfg : ∀ a b, R a b → g b = f a)
    {x : Option α} {y : Option β} (h : Option.Rel R x y) : y.map g = x.map f := by
  cases h with
  | none => rfl
  | some h => exact congrArg some (hfg _ _ h)

/-! ### What is left out -/

/-- An object that was put together by hand where the other script allocates it, and the line that
tells there of its creation, if the logger lets that through. -/
structure HandBuilt where
  object : ObjectId
  size : UInt64
  line : Option Log.Line
  deriving DecidableEq, Repr

namespace HandBuilt

/-- The size of the payloads. -/
def payloads (made : List HandBuilt) : Nat :=
  total (·.size.toNat) made

/-- The size of the regions that no allocator was asked for. -/
def regions (made : List HandBuilt) : Nat :=
  total (fun b => Layout.slotSize + b.size.toNat) made

theorem regions_eq (made : List HandBuilt) :
    regions made = Layout.slotSize * made.length + payloads made := by
  induction made with
  | nil => rfl
  | cons b made ih =>
    simp only [regions, payloads, total, List.length_cons] at ih ⊢
    rw [ih, Nat.mul_succ]
    omega

end HandBuilt

/-- The first statistics count the allocations of some objects more. -/
structure Statistics.Rebuilt (made : List HandBuilt) (a b : Statistics) : Prop where
  allocations : a.allocations = b.allocations + UInt64.ofNat made.length
  payloadBytes : a.payloadBytes = b.payloadBytes + UInt64.ofNat (HandBuilt.payloads made)
  deallocations : b.deallocations = a.deallocations
  retains : b.retains = a.retains
  releases : b.releases = a.releases

/-- The system allocator has handed out some regions more in the first process. -/
structure Allocators.Rebuilt (made : List HandBuilt) (a b : Allocators) : Prop where
  bytes : a.system.bytes.toNat = b.system.bytes.toNat + HandBuilt.regions made
  regions : a.system.allocations = b.system.allocations + UInt64.ofNat made.length
  limit : b.system.limit = a.system.limit
  custom : b.custom = a.custom
  installed : b.installed = a.installed
  memory : b.memory = a.memory

variable {made : List HandBuilt} {gone : List Log.Line} {size : UInt64} {layout : Layout}

theorem Statistics.Rebuilt.refl (a : Statistics) : a.Rebuilt [] a :=
  ⟨(UInt64.add_zero _).symm, (UInt64.add_zero _).symm, rfl, rfl, rfl⟩

theorem Statistics.Rebuilt.addAllocation {a b : Statistics} (h : a.Rebuilt made b) (size : UInt64) :
    (a.addAllocation size).Rebuilt made (b.addAllocation size) where
  allocations := by
    simp only [Statistics.addAllocation, h.allocations]
    ac_rfl
  payloadBytes := by
    simp only [Statistics.addAllocation, h.payloadBytes]
    ac_rfl
  deallocations := h.deallocations
  retains := h.retains
  releases := h.releases

/-- An allocation that only the first process counts. -/
theorem Statistics.Rebuilt.leaveOut {a b : Statistics} (h : a.Rebuilt made b) (object : HandBuilt) :
    (a.addAllocation object.size).Rebuilt (object :: made) b where
  allocations := by
    simp only [Statistics.addAllocation, h.allocations, List.length_cons, UInt64.ofNat_add]
    ac_rfl
  payloadBytes := by
    simp only [Statistics.addAllocation, h.payloadBytes, HandBuilt.payloads, total,
      UInt64.ofNat_add, UInt64.ofNat_toNat]
    ac_rfl
  deallocations := h.deallocations
  retains := h.retains
  releases := h.releases

theorem Layout.size_ofPayload? (h : Layout.ofPayload? size = some layout) :
    layout.size.toNat = Layout.slotSize + size.toNat := by
  unfold Layout.ofPayload? at h
  split at h
  · next hsmall =>
    cases h
    refine UInt64.toNat_ofNat_of_lt' (Nat.lt_of_le_of_lt hsmall ?_)
    decide
  · cases h

namespace Allocators.Rebuilt

variable {a b : Allocators} {backed : Bool}

theorem refl (a : Allocators) : a.Rebuilt [] a :=
  ⟨rfl, (UInt64.add_zero _).symm, rfl, rfl, rfl, rfl⟩

/-- Who has handed out less can still grant what is granted. -/
theorem granted (h : a.Rebuilt made b) (hgranted : (a.system.request backed size).1 = true) :
    (b.system.request backed size).1 = true := by
  obtain ⟨hfits, hlimit, hbacked⟩ := Quota.granted_iff.1 hgranted
  have hless : b.system.bytes.toNat ≤ a.system.bytes.toNat := by
    rw [h.bytes]
    exact Nat.le_add_right _ _
  refine Quota.granted_iff.2 ⟨by omega, hlimit.imp (fun h0 => h.limit.trans h0) fun hle => ?_,
    hbacked⟩
  rw [h.limit]
  omega

/-- A region that both allocators hand out. -/
theorem request (h : a.Rebuilt made b) (hgranted : (a.system.request backed size).1 = true) :
    (a.setQuota (a.system.request backed size).2 none).Rebuilt made
      (b.setQuota (b.system.request backed size).2 none) := by
  have hfits := (Quota.granted_iff.1 hgranted).1
  have hfits' := (Quota.granted_iff.1 (h.granted hgranted)).1
  rw [Quota.request_of_granted hgranted, Quota.request_of_granted (h.granted hgranted)]
  refine ⟨?_, ?_, h.limit, h.custom, h.installed, h.memory⟩
  · simp only [setQuota, Quota.charged, toNat_add_of_lt hfits, toNat_add_of_lt hfits', h.bytes]
    omega
  · simp only [setQuota, Quota.charged, h.regions]
    ac_rfl

/-- A region that only the first allocator is asked for. -/
theorem leaveOut (h : a.Rebuilt made b) (object : HandBuilt)
    (hlayout : Layout.ofPayload? object.size = some layout)
    (hgranted : (a.system.request backed layout.size).1 = true) :
    (a.setQuota (a.system.request backed layout.size).2 none).Rebuilt (object :: made) b := by
  have hfits := (Quota.granted_iff.1 hgranted).1
  rw [Quota.request_of_granted hgranted]
  refine ⟨?_, ?_, h.limit, h.custom, h.installed, h.memory⟩
  · simp only [setQuota, Quota.charged, toNat_add_of_lt hfits, h.bytes,
      Layout.size_ofPayload? hlayout, HandBuilt.regions, total]
    omega
  · simp only [setQuota, Quota.charged, h.regions, List.length_cons, UInt64.ofNat_add]
    ac_rfl

theorem setQuota (h : a.Rebuilt made b) (i : AllocatorId) (q : Quota) :
    (a.setQuota q (some i)).Rebuilt made (b.setQuota q (some i)) :=
  {h with custom := congrArg (List.modify · i _) h.custom}

theorem quota? (h : a.Rebuilt made b) (i : AllocatorId) :
    b.quota? (some i) = a.quota? (some i) := by
  unfold Allocators.quota?
  rw [h.custom]

theorem name? (h : a.Rebuilt made b) (i : AllocatorId) : b.name? (some i) = a.name? (some i) := by
  unfold Allocators.name?
  rw [h.custom]

end Allocators.Rebuilt

/-! ### Loggers -/

namespace Log.Logger

/-- Everything that has been let through and not been taken yet. -/
def lines (l : Logger) : List Line :=
  l.captured ++ (l.outputLines ++ l.errorLines)

/-- The second logger was not told of some lines, and of nothing else. -/
structure Rebuilt (gone : List Line) (l l' : Logger) : Prop where
  level : l'.level = l.level
  format : l'.format = l.format
  sink : l'.sink = l.sink
  captured : l'.captured.Sublist l.captured
  outputLines : l'.outputLines.Sublist l.outputLines
  errorLines : l'.errorLines.Sublist l.errorLines
  lines : l.lines.Perm (gone ++ l'.lines)

variable {l l' : Logger}

theorem lines_put (line : Line) (l : Logger) : (l.put line).lines.Perm (line :: l.lines) := by
  unfold put lines
  split
  · rw [← List.append_assoc, ← List.append_assoc]
    exact List.perm_middle
  · exact List.perm_middle
  · exact .refl _

namespace Rebuilt

theorem refl (l : Logger) : l.Rebuilt [] l :=
  ⟨rfl, rfl, rfl, .refl _, .refl _, .refl _, .refl _⟩

theorem put (h : l.Rebuilt gone l') (line : Line) : (l.put line).Rebuilt gone (l'.put line) := by
  have hlines : (l.put line).lines.Perm (gone ++ (l'.put line).lines) :=
    calc (l.put line).lines.Perm (line :: l.lines) := lines_put line l
      List.Perm _ (line :: (gone ++ l'.lines)) := h.lines.cons line
      List.Perm _ (gone ++ line :: l'.lines) := List.perm_middle.symm
      List.Perm _ (gone ++ (l'.put line).lines) := (lines_put line l').symm.append_left gone
  -- Where the line goes depends on the sink, which is the same on both sides.
  revert hlines
  unfold Logger.put
  rw [h.sink]
  split
  · exact fun hlines =>
      {h with sink := rfl, errorLines := h.errorLines.cons_cons line, lines := hlines}
  · exact fun hlines =>
      {h with sink := rfl, outputLines := h.outputLines.cons_cons line, lines := hlines}
  · exact fun hlines =>
      {h with sink := rfl, captured := h.captured.cons_cons line, lines := hlines}

theorem emit (h : l.Rebuilt gone l') (entry : Entry) :
    (l.emit entry).Rebuilt gone (l'.emit entry) := by
  have hpasses : l'.wouldLog entry.level = l.wouldLog entry.level := by
    unfold wouldLog
    rw [h.level]
  unfold Logger.emit
  rw [hpasses, h.format]
  split
  · exact h.put _
  · exact h

/-- An entry that only the first logger is told of. -/
theorem leaveOut (h : l.Rebuilt gone l') (entry : Entry) :
    (l.emit entry).Rebuilt ((l.line? entry).toList ++ gone) l' := by
  unfold Logger.emit line?
  split
  · have hlines : (l.put ⟨l.format, entry⟩).lines.Perm (⟨l.format, entry⟩ :: gone ++ l'.lines) :=
      (lines_put _ l).trans (h.lines.cons _)
    revert hlines
    unfold Logger.put
    split
    · exact fun hlines => {h with errorLines := h.errorLines.cons _, lines := hlines}
    · exact fun hlines => {h with outputLines := h.outputLines.cons _, lines := hlines}
    · exact fun hlines => {h with captured := h.captured.cons _, lines := hlines}
  · exact h

/-- When the captured lines are taken, some of those that are missing are missing there, and the
others still wait. -/
theorem clear (h : l.Rebuilt gone l') : ∃ told kept, (told ++ kept).Perm gone ∧
    l.captured.Perm (told ++ l'.captured) ∧ l.clearCaptured.Rebuilt kept l'.clearCaptured := by
  obtain ⟨told, htold⟩ := h.captured.exists_perm_append
  obtain ⟨kept, hkept⟩ := (h.outputLines.append h.errorLines).exists_perm_append
  have htold' := htold.trans List.perm_append_comm
  have hkept' := hkept.trans List.perm_append_comm
  refine ⟨told, kept, ?_, htold', {h with captured := .refl _, lines := hkept'}⟩
  -- What is missing in the parts is what is missing altogether: both make up all lines of `l`.
  refine (List.perm_append_right_iff l'.lines).1 (List.Perm.trans ?_ h.lines)
  have hrest : (told ++ kept ++ l'.lines).Perm
      ((told ++ l'.captured) ++ (kept ++ (l'.outputLines ++ l'.errorLines))) := by
    unfold Logger.lines
    simp only [List.append_assoc]
    refine List.Perm.append_left told ?_
    simp only [← List.append_assoc]
    exact (List.perm_append_comm.append_right _).append_right _
  exact hrest.trans (htold'.append hkept').symm

end Rebuilt
end Log.Logger

/-! ### Heaps -/

inductive Finalizer.Rebuilt : Finalizer → Finalizer → Prop where
  | routine {r r' : Routine Step} (h : r.Rebuilt r') : Rebuilt (.routine r) (.routine r')
  | dropValue : Rebuilt .dropValue .dropValue

structure Cell.Rebuilt (cell cell' : Cell) : Prop where
  count : cell'.count = cell.count
  locked : cell'.locked = cell.locked
  finalizer : Option.Rel Finalizer.Rebuilt cell.finalizer cell'.finalizer

/-- The same objects, in the same cells but for what their finalizers will do. -/
structure Heap.Rebuilt (h h' : Heap) : Prop where
  objects : h'.objects = h.objects
  cells : List.Forall₂ (Option.Rel Cell.Rebuilt) h.cells h'.cells

theorem Finalizer.Rebuilt.refl (f : Finalizer) : f.Rebuilt f := by
  cases f with
  | routine r => exact .routine (.refl r)
  | dropValue => exact .dropValue

theorem Cell.Rebuilt.refl (cell : Cell) : cell.Rebuilt cell :=
  ⟨rfl, rfl, rel_refl .refl _⟩

theorem rel_modify {R : α → α → Prop} {f g : α → α} (hfg : ∀ a b, R a b → R (f a) (g b))
    {l l' : List α} (h : List.Forall₂ R l l') (i : Nat) :
    List.Forall₂ R (l.modify i f) (l'.modify i g) := by
  induction h generalizing i with
  | nil => simp
  | cons hfirst hrest ih =>
    cases i with
    | zero => exact .cons (hfg _ _ hfirst) hrest
    | succ i => exact .cons hfirst (ih i)

theorem rel_getElem? {R : α → β → Prop} {l : List α} {l' : List β} (h : List.Forall₂ R l l')
    (i : Nat) : Option.Rel R l[i]? l'[i]? := by
  induction h generalizing i with
  | nil => exact .none
  | cons hfirst _ ih =>
    cases i with
    | zero => exact .some hfirst
    | succ i => exact ih i

namespace Heap.Rebuilt

variable {h h' : Heap} (hh : h.Rebuilt h')

theorem refl (h : Heap) : h.Rebuilt h :=
  ⟨rfl, List.forall₂_same.2 fun cell _ => rel_refl Cell.Rebuilt.refl cell⟩

include hh

theorem object? (o : ObjectId) : h'.object? o = h.object? o := by
  unfold Heap.object?
  rw [hh.objects]

theorem link? (o : ObjectId) : h'.link? o = h.link? o := by
  unfold Heap.link?
  rw [hh.object?]

theorem value? (o : ObjectId) : h'.value? o = h.value? o := by
  unfold Heap.value?
  rw [hh.object?]

theorem image? (depth : Nat) (o : ObjectId) : h'.image? depth o = h.image? depth o := by
  induction depth generalizing o with
  | zero => rfl
  | succ depth ih =>
    unfold Heap.image?
    rw [hh.value?, show h'.image? depth = h.image? depth from funext ih]

theorem fullImage? (o : ObjectId) : h'.fullImage? o = h.fullImage? o := by
  unfold Heap.fullImage?
  rw [hh.objects, hh.image?]

theorem cell? (c : CellId) : Option.Rel Cell.Rebuilt (h.cell? c) (h'.cell? c) :=
  rel_bind (fun _ _ hcell => hcell) (rel_getElem? hh.cells c)

theorem governing? (o : ObjectId) : Option.Rel Cell.Rebuilt (h.governing? o) (h'.governing? o) := by
  unfold Heap.governing?
  rw [hh.link?]
  cases h.link? o with
  | none => exact .none
  | some c => exact hh.cell? c

theorem counts (o : ObjectId) :
    (h'.governing? o).map (·.count) = (h.governing? o).map (·.count) :=
  map_eq_of_rel (fun _ _ hcell => hcell.count) (hh.governing? o)

theorem locks (o : ObjectId) :
    (h'.governing? o).map (·.locked) = (h.governing? o).map (·.locked) :=
  map_eq_of_rel (fun _ _ hcell => hcell.locked) (hh.governing? o)

theorem updateCell (c : CellId) {f g : Cell → Cell}
    (hfg : ∀ cell cell', cell.Rebuilt cell' → (f cell).Rebuilt (g cell')) :
    (h.updateCell c f).Rebuilt (h'.updateCell c g) :=
  {hh with cells := rel_modify (fun _ _ => rel_map hfg) hh.cells c}

theorem setLocked (c : CellId) (locked : Bool) :
    (h.setLocked c locked).Rebuilt (h'.setLocked c locked) :=
  hh.updateCell c fun _ _ hcell => {hcell with locked := rfl}

theorem setCount (c : CellId) (count : UInt32) :
    (h.setCount c count).Rebuilt (h'.setCount c count) :=
  hh.updateCell c fun _ _ hcell => {hcell with count := rfl}

theorem takeFinalizer (c : CellId) : (h.takeFinalizer c).Rebuilt (h'.takeFinalizer c) :=
  hh.updateCell c fun _ _ hcell => {hcell with finalizer := .none}

theorem freeCell (c : CellId) : (h.freeCell c).Rebuilt (h'.freeCell c) where
  objects := hh.objects
  cells := by
    have hset : List.Forall₂ (Option.Rel Cell.Rebuilt) (h.cells.modify c fun _ => none)
        (h'.cells.modify c fun _ => none) := rel_modify (fun _ _ _ => .none) hh.cells c
    unfold Heap.freeCell
    rwa [List.modify_eq_set, List.modify_eq_set] at hset

theorem updateObject (o : ObjectId) (f : Object → Object) :
    (h.updateObject o f).Rebuilt (h'.updateObject o f) :=
  {hh with objects := congrArg (List.modify · o f) hh.objects}

theorem addCell {f f' : Option Finalizer} (hf : Option.Rel Finalizer.Rebuilt f f') :
    (h'.addCell f').1 = (h.addCell f).1 ∧ (h.addCell f).2.Rebuilt (h'.addCell f').2 :=
  ⟨hh.cells.length_eq.symm,
    {hh with cells := List.rel_append hh.cells (.cons (.some ⟨rfl, rfl, hf⟩) .nil)}⟩

theorem addObject (size : UInt64) (contents : Contents) {f f' : Option Finalizer}
    (hf : Option.Rel Finalizer.Rebuilt f f') :
    (h'.addObject size contents f').1 = (h.addObject size contents f).1 ∧
      (h.addObject size contents f).2.Rebuilt (h'.addObject size contents f').2 := by
  obtain ⟨hc, hadded⟩ := hh.addCell hf
  refine ⟨congrArg List.length hh.objects, {hadded with objects := ?_}⟩
  unfold Heap.addObject
  dsimp only
  rw [hc, hadded.objects]

end Heap.Rebuilt

end Custody
