import Custody.Machine.Load

/-! Threads that share objects, and the turns they take.

Each thread holds a share of the references and makes its calls in order; an outside owner may
hold a share too, and keeps it. A thread that follows the rules gives back only what it holds,
and touches an object only while it or the outside owner holds a reference to it. Whatever turns
such threads take, the shares of all of them together are the counts (`Divided`), so no call
ever finds an object without references (`Interleaves.live`). What the counts come to in the end
is then a matter of adding up the calls, in whatever order they were made. -/
namespace Custody

/-! ### Calls -/

inductive CallKind where
  | change (call : CountCall)
  | count
  | isUnique
  deriving DecidableEq, Repr

/-- What a thread asks of an object, natively or through an exported function. -/
structure Call where
  kind : CallKind
  object : ObjectId
  via : Convention
  deriving DecidableEq, Repr

/-- How many references there are to each object after a call. -/
def Call.on (c : Call) (held : ObjectId → Nat) (o : ObjectId) : Nat :=
  if o = c.object then
    match c.kind with
    | .change .retain => held o + 1
    | .change .release => held o - 1
    | .count | .isUnique => held o
  else held o

/-- Calls in the order in which they are made. -/
abbrev Schedule := List Call

namespace Schedule

def retains (calls : Schedule) (o : ObjectId) : Nat :=
  calls.countP fun c => c.kind = .change .retain ∧ c.object = o

def releases (calls : Schedule) (o : ObjectId) : Nat :=
  calls.countP fun c => c.kind = .change .release ∧ c.object = o

/-- How many calls are of a kind, whatever their objects. -/
def made (calls : Schedule) (kind : CallKind) : Nat :=
  calls.countP fun c => c.kind = kind

/-- How many references there are to each object after some calls. -/
def after (calls : Schedule) (held : ObjectId → Nat) : ObjectId → Nat :=
  calls.foldl (fun held c => c.on held) held

/-- Every call finds an object to which there are references. -/
def Live : (ObjectId → Nat) → Schedule → Prop
  | _, [] => True
  | held, c :: rest => 0 < held c.object ∧ Live (c.on held) rest

end Schedule

/-! ### Threads -/

structure Thread where
  /-- The references that are the thread's own at the start. -/
  share : ObjectId → Nat
  calls : List Call

/-- What a thread may ask for while it holds some references and an outside owner others. -/
structure Call.Permitted (outside held : ObjectId → Nat) (c : Call) : Prop where
  touched : 0 < held c.object + outside c.object
  owned (release : c.kind = .change .release) : 0 < held c.object

instance (outside held : ObjectId → Nat) (c : Call) : Decidable (c.Permitted outside held) :=
  decidable_of_iff (0 < held c.object + outside c.object ∧
      (c.kind = .change .release → 0 < held c.object))
    ⟨fun h => ⟨h.1, h.2⟩, fun h => ⟨h.touched, h.owned⟩⟩

/-- Calls of a thread, each of which is permitted when its turn comes. -/
def Follows (outside : ObjectId → Nat) : (ObjectId → Nat) → List Call → Prop
  | _, [] => True
  | held, c :: rest => c.Permitted outside held ∧ Follows outside (c.on held) rest

instance Follows.decidable (outside : ObjectId → Nat) :
    ∀ (held : ObjectId → Nat) (calls : List Call), Decidable (Follows outside held calls)
  | _, [] => .isTrue trivial
  | held, c :: rest =>
    have := Follows.decidable outside (c.on held) rest
    inferInstanceAs (Decidable (c.Permitted outside held ∧ Follows outside (c.on held) rest))

/-- The references to each object are those of the outside owner and of the threads. -/
def Divided (held outside : ObjectId → Nat) (threads : List Thread) : Prop :=
  ∀ o, held o = outside o + total (fun t => t.share o) threads

/-- The lists take turns, each one giving its elements in order. -/
inductive Interleaves : List (List α) → List α → Prop where
  | done {ls : List (List α)} (h : ∀ l ∈ ls, l = []) : Interleaves ls []
  | turn {front back : List (List α)} {rest order : List α} (x : α)
    (h : Interleaves (front ++ rest :: back) order) :
    Interleaves (front ++ (x :: rest) :: back) (x :: order)

namespace Interleaves

variable {ls : List (List α)} {order : List α}

/-- No turn is lost and none is taken twice. -/
theorem perm (h : Interleaves ls order) : order.Perm ls.flatten := by
  induction h with
  | done h => rw [List.flatten_eq_nil_iff.2 h]
  | @turn front back rest order x _ ih =>
    refine (ih.cons x).trans ?_
    simp only [List.flatten_append, List.flatten_cons, List.cons_append]
    exact List.perm_middle.symm

/-- One turn is to let every list finish before the next one starts. -/
theorem flatten (ls : List (List α)) : Interleaves ls ls.flatten := by
  suffices h : ∀ done : List (List α), (∀ l ∈ done, l = []) →
      Interleaves (done ++ ls) ls.flatten from h [] nofun
  induction ls with
  | nil =>
    intro done hdone
    rw [List.append_nil]
    exact .done hdone
  | cons l ls ih =>
    intro done hdone
    induction l with
    | nil =>
      have h := ih (done ++ [[]]) fun l hl => by
        rcases List.mem_append.1 hl with hl | hl
        · exact hdone l hl
        · exact List.mem_singleton.1 hl
      rwa [List.append_assoc] at h
    | cons x rest ih => exact .turn x ih

end Interleaves

/-! ### What one call does to the shares -/

variable {c : Call} {held others outside : ObjectId → Nat} {calls : Schedule} {o : ObjectId}

namespace Call

theorem on_of_ne (h : o ≠ c.object) : c.on held o = held o :=
  if_neg h

theorem on_retain (h : c.kind = .change .retain) : c.on held c.object = held c.object + 1 := by
  simp [on, h]

theorem on_release (h : c.kind = .change .release) : c.on held c.object = held c.object - 1 := by
  simp [on, h]

/-- A call that only looks. -/
theorem on_of_looks (hlooks : ∀ call, c.kind ≠ .change call) : c.on held = held := by
  funext o
  unfold on
  cases hk : c.kind with
  | change call => exact absurd hk (hlooks call)
  | count => exact ite_self _
  | isUnique => exact ite_self _

/-- What a call adds and what it takes. -/
theorem on_balance (h : 0 < held c.object) (o : ObjectId) :
    c.on held o + (if c.kind = .change .release ∧ c.object = o then 1 else 0) =
      held o + if c.kind = .change .retain ∧ c.object = o then 1 else 0 := by
  by_cases ho : o = c.object
  · subst ho
    cases hk : c.kind with
    | change call =>
      cases call with
      | retain => simp [on, hk]
      | release =>
        have : held c.object - 1 + 1 = held c.object := Nat.sub_add_cancel h
        simpa [on, hk] using this
    | count => simp [on, hk]
    | isUnique => simp [on, hk]
  · simp [on_of_ne ho, Ne.symm ho]

/-- A call makes no references where there were none. -/
theorem pos_of_on_pos (h : 0 < held c.object) (ho : 0 < c.on held o) : 0 < held o := by
  by_cases hoc : o = c.object
  · rwa [hoc]
  · rwa [on_of_ne hoc] at ho

/-- A call concerns nobody's share but the caller's. -/
theorem on_add (h : c.kind = .change .release → 0 < held c.object) (o : ObjectId) :
    c.on (fun o => held o + others o) o = c.on held o + others o := by
  by_cases ho : o = c.object
  · subst ho
    unfold on
    simp only [if_true]
    cases hk : c.kind with
    | change call =>
      cases call with
      | retain => exact Nat.add_right_comm _ _ _
      | release =>
        have := h hk
        show held c.object + others c.object - 1 = held c.object - 1 + others c.object
        omega
    | count => rfl
    | isUnique => rfl
  · rw [on_of_ne ho, on_of_ne ho]

end Call

/-! ### Threads that follow the rules -/

/-- **Threads that follow the rules never find an object without references**, whatever turns
they take. -/
theorem Interleaves.live {threads : List Thread}
    (h : Interleaves (threads.map (·.calls)) calls) (hdivided : Divided held outside threads)
    (hfollows : ∀ t ∈ threads, Follows outside t.share t.calls) : calls.Live held := by
  generalize hls : threads.map (·.calls) = ls at h
  induction h generalizing threads held with
  | done h => trivial
  | @turn front back rest order c _ ih =>
    obtain ⟨tfront, tail, rfl, rfl, htail⟩ := List.map_eq_append_iff.1 hls
    obtain ⟨t, tback, rfl, hcalls, rfl⟩ := List.map_eq_cons_iff.1 htail
    have hsplit (o : ObjectId) : held o = t.share o +
        (outside o + total (fun t => t.share o) tfront + total (fun t => t.share o) tback) := by
      have := hdivided o
      rw [total_append, total_cons] at this
      omega
    have ht := hfollows t (by simp)
    rw [hcalls] at ht
    obtain ⟨hpermitted, hrest⟩ := ht
    have htouched := hpermitted.touched
    refine ⟨?_, @ih _ (tfront ++ ⟨c.on t.share, rest⟩ :: tback) ?_ ?_ ?_⟩
    · have := hsplit c.object
      omega
    · intro o
      rw [show held = _ from funext hsplit, Call.on_add hpermitted.owned, total_append, total_cons]
      simp only
      omega
    · intro u hu
      rcases List.mem_append.1 hu with hu | hu
      · exact hfollows u (List.mem_append_left _ hu)
      · rcases List.mem_cons.1 hu with rfl | hu
        · exact hrest
        · exact hfollows u (List.mem_append_right _ (List.mem_cons_of_mem _ hu))
    · simp only [List.map_append, List.map_cons]

/-! ### Adding up the calls -/

namespace Schedule

variable {before rest : Schedule}

@[simp] theorem after_cons (c : Call) (calls : Schedule) (held : ObjectId → Nat) :
    after (c :: calls) held = calls.after (c.on held) := rfl

theorem after_append (calls rest : Schedule) (held : ObjectId → Nat) :
    after (calls ++ rest) held = rest.after (calls.after held) :=
  List.foldl_append

theorem Live.later (h : Live held (before ++ rest)) : Live (before.after held) rest := by
  induction before generalizing held with
  | nil => exact h
  | cons c before ih => exact ih h.2

theorem Live.earlier (h : Live held (before ++ rest)) : Live held before := by
  induction before generalizing held with
  | nil => trivial
  | cons c before ih => exact ⟨h.1, ih h.2⟩

theorem retains_cons (c : Call) (calls : Schedule) (o : ObjectId) :
    retains (c :: calls) o =
      calls.retains o + if c.kind = .change .retain ∧ c.object = o then 1 else 0 := by
  simp only [retains, List.countP_cons, decide_eq_true_eq]

theorem releases_cons (c : Call) (calls : Schedule) (o : ObjectId) :
    releases (c :: calls) o =
      calls.releases o + if c.kind = .change .release ∧ c.object = o then 1 else 0 := by
  simp only [releases, List.countP_cons, decide_eq_true_eq]

/-- Room for all retains is room for the first one. -/
theorem if_retain_le (c : Call) (calls : Schedule) :
    (if c.kind = .change .retain then 1 else 0) ≤ retains (c :: calls) c.object := by
  simp only [retains_cons, and_true]
  exact Nat.le_add_left _ _

/-- Room for all retains is room for those after the first call. -/
theorem on_add_retains_le (h : 0 < held c.object) (o : ObjectId) :
    c.on held o + calls.retains o ≤ held o + retains (c :: calls) o := by
  have := Call.on_balance h o
  rw [retains_cons]
  omega

theorem made_cons (c : Call) (calls : Schedule) (kind : CallKind) :
    made (c :: calls) kind = (if c.kind = kind then 1 else 0) + calls.made kind := by
  simp only [made, List.countP_cons, decide_eq_true_eq]
  exact Nat.add_comm _ _

/-- **No update is lost**: what the calls add and what they take is what the counts show. -/
theorem Live.tally (h : calls.Live held) (o : ObjectId) :
    calls.after held o + calls.releases o = held o + calls.retains o := by
  induction calls generalizing held with
  | nil => rfl
  | cons c rest ih =>
    have hrest := ih h.2
    have hcall := Call.on_balance h.1 o
    rw [after_cons, retains_cons, releases_cons]
    omega

/-- An object without references is not touched again. -/
theorem Live.ne_of_zero (h : calls.Live held) (hzero : held o = 0) : ∀ c ∈ calls, c.object ≠ o := by
  induction calls generalizing held with
  | nil => exact nofun
  | cons c rest ih =>
    have hne : c.object ≠ o := by
      rintro rfl
      exact Nat.ne_of_gt h.1 hzero
    refine List.forall_mem_cons.2 ⟨hne, ih h.2 ?_⟩
    rw [Call.on_of_ne (Ne.symm hne), hzero]

/-- What there are no references to is retained and released no more. -/
theorem Live.of_zero (h : calls.Live held) (hzero : held o = 0) :
    calls.retains o = 0 ∧ calls.releases o = 0 := by
  have hne := h.ne_of_zero hzero
  exact ⟨List.countP_eq_zero.2 fun c hc => by simp [hne c hc],
    List.countP_eq_zero.2 fun c hc => by simp [hne c hc]⟩

/-- The release that takes the last reference is the last one of all, to an object that none
are left to in the end. -/
theorem Live.last_iff (h : Live held (before ++ c :: rest)) (hk : c.kind = .change .release) :
    before.after held c.object = 1 ↔
      after (before ++ c :: rest) held c.object = 0 ∧ rest.releases c.object = 0 := by
  have hlive := h.later
  rw [after_append, after_cons]
  have htally := hlive.2.tally c.object
  have hpos := hlive.1
  rw [Call.on_release hk] at htally
  constructor
  · intro hone
    have hzero : c.on (before.after held) c.object = 0 := by
      rw [Call.on_release hk, hone]
    obtain ⟨hretains, hreleases⟩ := hlive.2.of_zero hzero
    refine ⟨?_, hreleases⟩
    omega
  · rintro ⟨hzero, hnone⟩
    omega

end Schedule

end Custody
