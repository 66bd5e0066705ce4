import Custody.Proofs.Mirroring

/-! Every step on handles keeps the mirror.

A step that comes to a result does to what handles show what it does to private copies
(`State.Mirrors.runs`): steps that look, create, clone or write in one transition, drops with
whatever they set off, copies on write, and steps that are refused. -/
namespace Custody

variable {s t : State} {o p : ObjectId} {owners : ObjectId → Nat} {copies : Copies}
  {m m' : Machine}

/-- Between two steps: objects keep to their owners, and handles show what their private copies
are. -/
structure State.Mirrors (s : State) (copies : Copies) : Prop where
  owned : s.Owned []
  mirrors : s.heap.Mirrors (s.owners []) s.names.handles copies

namespace State

/-- What is observed or logged shows in no handle. -/
theorem Mirrors.congr (h : s.Mirrors copies) (hheap : t.heap = s.heap) (hnames : t.names = s.names) :
    t.Mirrors copies := by
  have howned : t.Owned [] := h.owned.congr hheap (by rw [hnames])
  refine ⟨howned, ?_⟩
  have := h.mirrors.of_objects h.owned.keeps howned.keeps (by rw [hheap])
  rwa [hnames]

/-- The only owner is a handle: no other one has the object, and no value has it inside. -/
theorem Owned.alone {lent : List ObjectId} (h : s.Owned lent) {handle : String}
    (hf : s.names.handles.find? handle = some o) (hone : s.owners lent o = 1) :
    s.heap.holds o = 0 ∧ ∀ name, s.names.handles.find? name = some o → name = handle := by
  have hpos := Bindings.uses_pos hf
  have huses : s.names.handles.uses o = 1 ∧ s.heap.holds o = 0 := by
    unfold owners at hone
    omega
  exact ⟨huses.2, fun name hname => Bindings.eq_of_uses h.distinct huses.1 hf hname⟩

end State

/-! ### Steps that end at once -/

theorem Copies.act_of_looks {action : HandleAction} {answer : Answer} (h : action.looks answer) :
    copies.act action answer = copies := by
  cases action with
  | create handle kind literal => exact h.elim
  | clone handle copy => exact h.elim
  | set handle literal =>
    obtain rfl : answer = .flag false := h
    rfl
  | push handle child =>
    obtain rfl : answer = .flag false := h
    rfl
  | _ => rfl

theorem State.Mirrors.performs {step : Step} {answer : Answer} (h : s.Mirrors copies)
    (ha : s.Allows step) (hp : Performs [] s step ⟨t, .answer answer, []⟩)
    (hm : Machine.Owned [] ⟨t, .answer answer, []⟩) :
    t.Mirrors (copies.after step (.answered answer)) := by
  have ht : t.Owned [] := ⟨hm.keeps, hm.distinct⟩
  refine ⟨ht, ?_⟩
  have hkeeps := h.owned.keeps
  have hsame (hobjects : t.heap.objects = s.heap.objects) :=
    h.mirrors.of_objects hkeeps ht.keeps hobjects
  cases hp with
  | looks action _ _ looks stays =>
    have hcopies : copies.after (.act (.handle action)) (.answered answer) = copies :=
      Copies.act_of_looks looks
    rw [hcopies, stays.handles]
    exact hsame stays.objects
  | creates handle kind literal os rest v _ takes absent value children becomes =>
    subst children
    rw [becomes.handles]
    exact h.mirrors.create hkeeps ht.keeps becomes.objects takes value
  | clones handle copy o _ found absent becomes =>
    obtain ⟨img, hcopy, hs⟩ := (hsame becomes.objects).copied.find found
    have hcopies : copies.after (.act (.handle (.clone handle copy))) (.answered .done) =
        copies.bind copy img := by
      simp only [Copies.after, Copies.act, Copies.clone, hcopy]
    rw [hcopies, becomes.handles]
    exact ⟨(hsame becomes.objects).copied.bind hs copy, (hsame becomes.objects).shows⟩
  | assigns _ _ handle literal o size v v' _ mode found unique value updated becomes =>
    obtain ⟨hholds, halone⟩ := h.owned.alone found unique
    have hcopies : copies.after step (.answered answer) = copies.write handle literal := by
      rcases mode with ⟨rfl, rfl⟩ | ⟨rfl, rfl⟩ <;> rfl
    rw [hcopies, becomes.handles]
    exact h.mirrors.write becomes.objects value updated found halone hholds fun p hp hpos =>
      hkeeps.pos_before ht.keeps hpos (Heap.object?_write becomes.objects hp) List.not_mem_nil
  | pushes handle child o c size label children _ found unique foundChild value becomes =>
    obtain ⟨hholds, halone⟩ := h.owned.alone found unique
    rw [becomes.handles]
    exact h.mirrors.push becomes.objects value found foundChild ha halone hholds fun p hp hpos =>
      hkeeps.pos_before ht.keeps hpos (Heap.object?_write becomes.objects hp) List.not_mem_nil
  | lends => exact ha.elim
  | adopts => exact ha.elim

/-! ### Drops -/

/-- The frames of a drop. -/
def Frame.drops : Frame → Bool
  | .teardown _ | .barrier | .dropping _ none => true
  | _ => false

/-- A machine that drops references, and has nothing else to do. -/
structure Machine.Cascades (handles : Bindings ObjectId) (copies : Copies) (m : Machine) : Prop where
  owned : m.Owned []
  idle : ∀ step, m.control ≠ .perform step
  drops : ∀ frame ∈ m.stack, frame.drops = true
  kept : m.state.names.handles = handles
  mirrors : m.state.heap.Mirrors (m.owners []) handles copies

namespace Machine

theorem continueDropping_state (t : State) (stack : List Frame) (os : List ObjectId) :
    (continueDropping none t stack os).state = t := by
  cases os <;> rfl

theorem continueDropping_dying (t : State) (stack : List Frame) (os : List ObjectId) :
    (continueDropping none t stack os).dying = (teardowns stack).map (·.object) := by
  cases os <;> rfl

theorem continueDropping_idle (t : State) (stack : List Frame) (os : List ObjectId) (step : Step) :
    (continueDropping none t stack os).control ≠ .perform step := by
  cases os <;> exact nofun

theorem continueDropping_drops {t : State} {stack : List Frame} (os : List ObjectId)
    (h : ∀ frame ∈ stack, frame.drops = true) :
    ∀ frame ∈ (continueDropping none t stack os).stack, frame.drops = true := by
  cases os with
  | nil => exact h
  | cons o rest =>
    intro frame hmem
    rcases List.mem_cons.1 hmem with rfl | hmem
    · rfl
    · exact h frame hmem

theorem drops_of_around {frames stack : List Frame} (h : Around o frames)
    (hd : ∀ frame ∈ stack, frame.drops = true) : ∀ frame ∈ frames ++ stack, frame.drops = true := by
  intro frame hmem
  rcases List.mem_append.1 hmem with hmem | hmem
  · rcases h with rfl | rfl <;> simp at hmem <;> rcases hmem with rfl | rfl <;> rfl
  · exact hd frame hmem

/-- A drop goes on with drops, and takes no other handle out of the table. -/
theorem drops_of_goes (h : Goes [] m m') (hd : ∀ frame ∈ m.stack, frame.drops = true) :
    (∀ step, m'.control ≠ .perform step) ∧ (∀ frame ∈ m'.stack, frame.drops = true) ∧
      m'.state.names.handles = m.state.names.handles := by
  cases h with
  | releases s t o stack more stays =>
    exact ⟨fun step heq => (by cases heq), hd, stays.handles⟩
  | begins s t o stack frames size v cell last finalizer value becomes around =>
    rw [continueDropping_state]
    exact ⟨continueDropping_idle _ _ _, continueDropping_drops _ (drops_of_around around hd),
      becomes.handles⟩
  | finishes s o answer stack =>
    exact ⟨fun step heq => (by cases heq),
      fun frame hmem => hd frame (List.mem_cons_of_mem _ hmem), rfl⟩
  | passes s answer stack =>
    exact ⟨fun step heq => (by cases heq),
      fun frame hmem => hd frame (List.mem_cons_of_mem _ hmem), rfl⟩
  | continues s answer rest stack =>
    rw [continueDropping_state]
    exact ⟨continueDropping_idle _ _ _,
      continueDropping_drops _ fun frame hmem => hd frame (List.mem_cons_of_mem _ hmem), rfl⟩
  | assigns s answer fresh literal stack =>
    have := hd (.assigning fresh literal) List.mem_cons_self
    cases this

/-- Only an assignment could end the script. -/
theorem unhalted_of_goes (h : Goes [] m m') (hd : ∀ frame ∈ m.stack, frame.drops = true) :
    m'.control ≠ .halt .malformed := by
  intro hhalt
  cases h with
  | assigns s answer fresh literal stack =>
    have := hd (.assigning fresh literal) List.mem_cons_self
    cases this
  | begins s t o stack frames size v cell last finalizer value becomes around =>
    revert hhalt
    cases v.children <;> exact nofun
  | continues s answer rest stack =>
    revert hhalt
    cases rest <;> exact nofun
  | _ => cases hhalt

/-- What still has an owner after a transition of a drop was left as it was. -/
theorem kept_of_goes (h : Goes [] m m') (hd : ∀ frame ∈ m.stack, frame.drops = true)
    (hm' : m'.Owned []) (hp : 0 < m'.owners [] p) :
    m'.state.heap.object? p = m.state.heap.object? p ∧ p ∉ m.dying := by
  obtain ⟨size, v, count, hobject, _, hidle, _⟩ := hm'.keeps.live hp
  cases h with
  | releases s t o stack more stays => exact ⟨congrArg (·[p]?) stays.objects, hidle⟩
  | begins s t o stack frames size v cell last finalizer value becomes around =>
    rw [continueDropping_dying, teardowns_append, around.teardowns_eq] at hidle
    obtain ⟨hne, hidle⟩ := not_or.1 (mt List.mem_cons.2 hidle)
    rw [continueDropping_state]
    exact ⟨Heap.object?_write becomes.objects hne, hidle⟩
  | finishes s o answer stack =>
    have hne : o ≠ p := by
      rintro rfl
      have hlinked : (s.heap.bury ⟨o, o⟩).link? o = some o := by
        rw [Heap.link?, show (s.heap.bury ⟨o, o⟩).object? o = _ from hobject]
        rfl
      rw [Heap.link?_bury, if_pos rfl] at hlinked
      cases hlinked
    refine ⟨Heap.object?_updateObject_of_ne _ hne, fun hmem => ?_⟩
    rcases List.mem_cons.1 hmem with hpo | hmem
    · exact hne hpo.symm
    · exact hidle hmem
  | passes s answer stack => exact ⟨rfl, hidle⟩
  | continues s answer rest stack =>
    rw [continueDropping_dying] at hidle
    rw [continueDropping_state]
    exact ⟨rfl, hidle⟩
  | assigns s answer fresh literal stack =>
    have := hd (.assigning fresh literal) List.mem_cons_self
    cases this

/-- No step begins, so that nothing is asked for. -/
theorem Cascades.permitted {handles : Bindings ObjectId} (h : m.Cascades handles copies) :
    m.Permitted [] := by
  unfold Permitted
  split
  · next step hcontrol => exact absurd hcontrol (h.idle step)
  · trivial

theorem Cascades.next {handles : Bindings ObjectId} (h : m.Cascades handles copies)
    (hn : m.next? = some m') : m'.Cascades handles copies := by
  rcases h.owned.transition h.permitted hn with ⟨s, step, rfl, _, _⟩ | ⟨_, hgoes, hm'⟩
  · exact absurd rfl (h.idle step)
  · have hm' := hm'.resolve_left (unhalted_of_goes hgoes h.drops)
    obtain ⟨hidle, hdrops, hkept⟩ := drops_of_goes hgoes h.drops
    have hkept' := hkept.trans h.kept
    refine ⟨hm', hidle, hdrops, hkept', ?_⟩
    refine h.mirrors.wane h.owned.keeps hm'.keeps (fun p hp => kept_of_goes hgoes h.drops hm' hp)
      (fun name p hp => ?_) fun p hp => ?_
    · rw [← hkept'] at hp
      have := Bindings.uses_pos hp
      unfold Machine.owners State.owners
      omega
    · unfold Machine.owners State.owners
      omega

/-- **What a drop sets off leaves the other handles as they were.** -/
theorem Cascades.run {handles : Bindings ObjectId} (h : m.Cascades handles copies) :
    ∃ t answer, m.run = ⟨t, .answer answer, []⟩ ∧ t.Mirrors copies ∧ t.names.handles = handles := by
  have hrun := run_induction (P := Cascades handles copies) (fun _ _ hm hn => hm.next hn) h
  have hrest := run_rests m
  generalize m.run = last at hrun hrest
  obtain ⟨t, control, stack⟩ := last
  cases control with
  | perform step => exact absurd rfl (hrun.idle step)
  | release o => cases hrest
  | unwind cause => exact hrun.owned.plain.elim
  | halt halt => exact hrun.owned.plain.elim
  | answer answer =>
    cases stack with
    | cons frame stack => cases hrest
    | nil =>
      obtain rfl := hrun.kept
      exact ⟨t, answer, rfl, ⟨⟨hrun.owned.keeps, hrun.owned.distinct⟩, hrun.mirrors⟩, rfl⟩

/-- The books are right after the drop. -/
theorem Cascades.books_run {handles : Bindings ObjectId} {base : State}
    (h : m.Cascades handles copies) (hb : base.Books m.state) : base.Books m.run.state := by
  refine (run_induction (P := fun m => m.Cascades handles copies ∧ base.Books m.state)
    (fun m m' hm hn => ?_) ⟨h, hb⟩).2
  obtain ⟨hcascades, hbooks⟩ := hm
  have hnext := hcascades.next hn
  refine ⟨hnext, (hcascades.owned.books hcascades.permitted hn hbooks).resolve_left fun hhalt => ?_⟩
  have hplain := hnext.owned.plain
  simp only [Plain, hhalt] at hplain

end Machine

/-- A handle goes out of the table, and its reference is released. -/
theorem State.Mirrors.cascades (h : s.Mirrors copies) {handle : String}
    (hf : s.names.handles.find? handle = some o) :
    (Machine.perform s [] (.dropHandle handle)).Cascades (s.names.handles.remove handle)
      (copies.remove handle) := by
  have howned := (h.owned.begins (.dropHandle handle) rfl trivial).2
  simp only [Machine.perform, hf] at howned ⊢
  have hm := howned.resolve_left fun hhalt => by cases hhalt
  have hdropping := h.mirrors.of_objects h.owned.keeps hm.keeps rfl
  exact ⟨hm, fun step heq => (by cases heq), fun frame hmem => absurd hmem List.not_mem_nil, rfl,
    hdropping.copied.remove handle, hdropping.shows⟩

/-! ### Copies on write -/

/-- What a handle is made unique by: an assignment in place, or a new object that takes the place
of the shared one. -/
inductive State.Makes (s t : State) (handle : String) (o : ObjectId) (literal : Literal) :
    Answer → Prop
  | inPlace (size : UInt64) (v w : Value) (unique : s.owners [] o = 1)
      (value : s.heap.object? o = some ⟨size, some o, .value v⟩) (updated : v.updated? literal = some w)
      (becomes : s.Becomes t (s.heap.setContents o (.value w)).objects s.names.handles 0) :
    Makes s t handle o literal (.made false)
  | copied (size : UInt64) (v w : Value) (shared : s.owners [] o ≠ 1)
      (value : s.heap.object? o = some ⟨size, some o, .value v⟩) (updated : v.updated? literal = some w)
      (becomes : s.Becomes t
        (s.heap.objects ++ [⟨v.kind.size, some s.heap.objects.length, .value w⟩])
        (s.names.handles.bind handle s.heap.objects.length) 1) :
    Makes s t handle o literal (.made true)

theorem modify_append_singleton (l : List α) (x : α) (f : α → α) :
    (l ++ [x]).modify l.length f = l ++ [f x] := by
  induction l with
  | nil => rfl
  | cons a l ih => simp [ih]

/-- The old reference goes, and the copy is assigned to. -/
theorem State.Owned.run_copies (h : s.Owned []) {handle : String} {literal : Literal}
    {v : Value} (hf : s.names.handles.find? handle = some o)
    (hshared : s.owners [] o ≠ 1)
    (hbecomes : s.Becomes t
      (s.heap.objects ++ [⟨v.kind.size, some s.heap.objects.length, .value v⟩])
      (s.names.handles.bind handle s.heap.objects.length) 1)
    (hm : Machine.Owned [] ⟨t, .release o, [.assigning s.heap.objects.length literal]⟩) :
    (v.updated? literal = none ∧ ∃ u,
        (⟨t, .release o, [.assigning s.heap.objects.length literal]⟩ : Machine).run =
          ⟨u, .halt .malformed, []⟩) ∨
      ∃ u w, (⟨t, .release o, [.assigning s.heap.objects.length literal]⟩ : Machine).run =
          ⟨u, .answer (.made true), []⟩ ∧ u.Owned [] ∧ v.updated? literal = some w ∧
        s.Becomes u (s.heap.objects ++ [⟨v.kind.size, some s.heap.objects.length, .value w⟩])
          (s.names.handles.bind handle s.heap.objects.length) 1 := by
  have hpos : 0 < s.owners [] o := State.Owned.pos hf
  have hreplace := h.owners_replace hf hbecomes o
  have howners : Machine.owners [] ⟨t, .release o, [.assigning s.heap.objects.length literal]⟩ o =
      t.owners [] o + 1 := by
    show _ + [o].count o + 0 = _
    rw [List.count_singleton_self]
  rw [if_pos rfl] at hreplace
  obtain ⟨u, hrelease, hstays, _⟩ := exists_release hm.keeps (o := o) (by omega) (by omega)
  have hgone : Machine.release o t [.assigning s.heap.objects.length literal] =
      ⟨u, .answer .done, [.assigning s.heap.objects.length literal]⟩ := by
    unfold Machine.release
    rw [hrelease]
  have hu := hm.release.2
  rw [hgone] at hu
  have hrun := Machine.run_of_next? (m := ⟨t, .release o, [.assigning s.heap.objects.length literal]⟩)
    (congrArg some hgone)
  have hagain := Machine.run_of_next?
    (m := ⟨u, .answer .done, [.assigning s.heap.objects.length literal]⟩) rfl
  rw [hrun, hagain]
  have hobjects := hstays.objects.trans hbecomes.objects
  have hvalue := Heap.value?_of_object? (Heap.object?_append_self hobjects)
  have howned := hu.resume.2
  simp only [Machine.resume, Machine.assigned, assign, hvalue, Option.bind_some] at howned ⊢
  cases hw : v.updated? literal with
  | none => exact .inl ⟨rfl, u, Machine.run_of_rest rfl⟩
  | some w =>
    rw [hw] at howned
    have hlast := howned.resolve_left fun hhalt => by cases hhalt
    refine .inr ⟨_, w, Machine.run_of_rest rfl, ⟨hlast.keeps, hlast.distinct⟩, rfl, ?_⟩
    refine ⟨?_, hstays.handles.trans hbecomes.handles, hstays.faults.trans hbecomes.faults, ?_,
      hstays.deallocations.trans hbecomes.deallocations⟩
    · show u.heap.objects.modify _ _ = _
      rw [hobjects, modify_append_singleton]
    · show u.statistics.allocations = _
      rw [hstays.allocations, hbecomes.allocations, UInt64.add_zero]

/-- A handle is made unique if the assignment means something for its value. -/
theorem State.Owned.run_makeUnique (h : s.Owned []) {handle : String} {literal : Literal}
    (hf : s.names.handles.find? handle = some o) {size : UInt64} {v : Value}
    (hobject : s.heap.object? o = some ⟨size, some o, .value v⟩)
    (hp : s.Permits [] (.makeUnique handle literal)) :
    (v.updated? literal = none ∧ ∃ u, (Machine.start (.makeUnique handle literal) s).run =
        ⟨u, .halt .malformed, []⟩) ∨
      ∃ u answer, (Machine.start (.makeUnique handle literal) s).run = ⟨u, .answer answer, []⟩ ∧
        u.Owned [] ∧ s.Makes u handle o literal answer := by
  have hstart : (Machine.start (.makeUnique handle literal) s).run =
      (Machine.makeUnique handle o literal s []).run := by
    refine Machine.run_of_next? ?_
    show some (Machine.perform s [] (.makeUnique handle literal)) = _
    simp only [Machine.perform, hf]
  rw [hstart]
  simp only [Machine.makeUnique, isUnique_of_keeps h.keeps (Owned.pos hf)]
  by_cases hone : s.owners [] o = 1
  · have hvalue := Heap.value?_of_object? hobject
    simp only [hone, decide_true, Machine.assigned, assign, hvalue, Option.bind_some]
    cases hw : v.updated? literal with
    | none => exact .inl ⟨rfl, s, Machine.run_of_rest rfl⟩
    | some w =>
      obtain ⟨hbecomes, howned⟩ := h.assign_of_unique hf hobject hw (.made false)
      exact .inr ⟨_, _, Machine.run_of_rest rfl, ⟨howned.keeps, howned.distinct⟩,
        .inPlace size v w hone hobject hw hbecomes⟩
  · obtain ⟨t, hcopy, hbecomes, howned⟩ := h.exists_copy hf literal hone hp hobject
    simp only [hone, decide_false, hcopy]
    rcases h.run_copies hf hone hbecomes howned with ⟨hnone, hrun⟩ | ⟨u, w, hrun, hu, hw, hlast⟩
    · exact .inl ⟨hnone, hrun⟩
    · exact .inr ⟨u, _, hrun, hu, .copied size v w hone hobject hw hlast⟩

/-- What comes of a copy on write, whether it is refused or not. -/
theorem State.Owned.makeUnique_cases (h : s.Owned []) {handle : String}
    (hf : s.names.handles.find? handle = some o) (literal : Literal) :
    let m := (Machine.start (.makeUnique handle literal) s).run
    (∃ halt, m.control = .halt halt) ∨
      (∃ cause, m.control = .unwind cause ∧ m.state.heap.objects = s.heap.objects ∧
        m.state.names.handles = s.names.handles) ∨
      ∃ answer, m.control = .answer answer ∧ m.state.Owned [] ∧
        s.Makes m.state handle o literal answer := by
  intro m
  by_cases hp : s.Permits [] (.makeUnique handle literal)
  · obtain ⟨size, v, count, hobject, _⟩ := h.keeps.live (Owned.pos hf)
    rcases h.run_makeUnique hf hobject hp with ⟨_, u, hrun⟩ | ⟨u, answer, hrun, hu, hmakes⟩
    · exact .inl ⟨_, congrArg Machine.control hrun⟩
    · refine .inr (.inr ⟨answer, congrArg Machine.control hrun, ?_⟩)
      rw [show m = ⟨u, .answer answer, []⟩ from hrun]
      exact ⟨hu, hmakes⟩
  · have hrefused : Refused [] s m := h.refused _ trivial hp
    cases hrefused with
    | halts halt control => exact .inl ⟨halt, control⟩
    | unwinds cause t machine objects handles owned =>
      rw [machine]
      exact .inr (.inl ⟨cause, rfl, objects, handles⟩)

/-! ### Whole steps -/

theorem State.Mirrors.of_copied (h : s.Mirrors copies) {handle : String} {literal : Literal}
    (hm : s.Makes t handle o literal (.made true)) (hf : s.names.handles.find? handle = some o)
    (ht : t.Owned []) : t.Mirrors (copies.write handle literal) := by
  cases hm with
  | copied size v w shared value updated becomes =>
    refine ⟨ht, ?_⟩
    rw [becomes.handles]
    exact h.mirrors.copy h.owned.keeps ht.keeps becomes.objects hf value rfl updated

theorem Copies.after_failed (step : Step) (cause : Cause) :
    copies.after step (.failed cause) = copies := by
  unfold after
  split
  · next heq => cases heq
  · next heq => cases heq
  · next heq => cases heq
  · rfl

/-- **What a step does to handles it does to private copies.** -/
theorem State.Mirrors.runs (h : s.Mirrors copies) {step : Step} (ha : s.Allows step)
    {result : Result} (hr : (Machine.start step s).run.control.result? = some result) :
    (Machine.start step s).run.state.Mirrors (copies.after step result) := by
  by_cases hp : s.Permits [] step
  · have hstart : (Machine.start step s).run = (Machine.perform s [] step).run :=
      Machine.run_of_next? rfl
    obtain ⟨hperforms, howned⟩ := h.owned.begins step (onHandles_of_allows ha) hp
    rw [lending_of_allows ha] at howned
    rw [hstart] at hr ⊢
    generalize Machine.perform s [] step = m at hperforms howned hr
    obtain ⟨t, control, stack⟩ := m
    cases control with
    | perform step => cases hperforms
    | unwind cause => cases hperforms
    | halt halt =>
      rw [Machine.run_of_rest rfl] at hr
      cases hr
    | answer answer =>
      obtain rfl : stack = [] := by cases hperforms <;> rfl
      rw [Machine.run_of_rest rfl] at hr ⊢
      cases hr
      exact h.performs ha hperforms (howned.resolve_left nofun)
    | release o =>
      have hm := howned.resolve_left nofun
      cases hperforms with
      | drops handle _ found =>
        have hcascades := h.cascades found
        simp only [Machine.perform, found] at hcascades
        obtain ⟨t, answer, hrun, hmirrors, _⟩ := hcascades.run
        rw [hrun] at hr ⊢
        cases hr
        exact hmirrors
      | copies handle literal _ size v _ found shared value becomes =>
        rcases h.owned.run_copies found shared becomes hm with
          ⟨_, u, hrun⟩ | ⟨u, w, hrun, hu, hw, hlast⟩
        · rw [hrun] at hr
          cases hr
        · rw [hrun] at hr ⊢
          cases hr
          exact h.of_copied (.copied size v w shared value hw hlast) found hu
  · have hrefused := h.owned.refused step ha hp
    cases hrefused with
    | halts halt control =>
      rw [control] at hr
      cases hr
    | unwinds cause t machine objects handles owned =>
      rw [machine] at hr ⊢
      cases hr
      rw [Copies.after_failed]
      refine ⟨owned, ?_⟩
      show t.heap.Mirrors (t.owners []) t.names.handles _
      rw [handles]
      exact h.mirrors.of_objects h.owned.keeps owned.keeps objects

end Custody
