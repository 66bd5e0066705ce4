import Custody.Proofs.Simulation

/-! Copy on write gives every handle a value of its own.

Handles share objects, and count who shares them; a script cannot tell. Between two steps every
handle shows what its private copy would be, whatever was cloned, written and dropped before
(`Session.valueSemantics`), and a write through one handle shows through no other. Nothing is
asked of counts and allocators: a step that is refused does nothing. -/
namespace Custody

variable {session : Session} {s t : State} {o : ObjectId} {n : Nat} {c : Copies}

/-! ### Sessions -/

namespace Stage

/-- The type of a handle allows the step that begins next, if one does. -/
def Allowed (st : Stage) : Prop :=
  match st.position, st.rest with
  | .between t, step :: _ => t.Allows step
  | _, _ => True

instance (st : Stage) : Decidable st.Allowed := by
  obtain ⟨records, rest, position⟩ := st
  cases position <;> cases rest <;> dsimp only [Allowed] <;> infer_instance

theorem allowed_of_rest {st : Stage} (h : session.next? st = none) : st.Allowed := by
  obtain ⟨records, rest, position⟩ := st
  cases position with
  | during m => trivial
  | between t =>
    cases rest with
    | nil => trivial
    | cons step rest => cases h

end Stage

namespace Session

/-- A session of steps that the type of a handle allows. -/
def Safe (session : Session) (s : State) : Prop :=
  ∀ n, (session.stage s n).Allowed

/-- Whether a session is safe shows before it rests. -/
theorem Safe.of_rest {N : Nat} (hrest : session.next? (session.stage s N) = none)
    (h : ∀ n < N, (session.stage s n).Allowed) : session.Safe s := by
  intro n
  rcases Nat.lt_or_ge n N with hn | hn
  · exact h n hn
  · obtain ⟨k, rfl⟩ := Nat.exists_eq_add_of_le hn
    rw [stage_add, after_of_rest hrest]
    exact Stage.allowed_of_rest hrest

/-- The private copies at a stage. -/
def copies (session : Session) (s : State) (n : Nat) : Copies :=
  .replay (session.steps.zip ((session.stage s n).records.map (·.result)))

end Session

theorem State.Bare.mirrors (h : s.Bare) : s.Mirrors [] := by
  refine ⟨h.owned, fun name => ?_, fun o ho => ?_⟩
  · rw [h.handles]
    exact .none
  · obtain ⟨size, v, count, hobject, _⟩ := h.owned.keeps.live ho
    rw [h.fresh.heap] at hobject
    cases hobject

/-- The records and the steps to come are those of the session; and a boundary mirrors the copies
that the records account for. -/
structure Stage.Mirrored (session : Session) (st : Stage) : Prop where
  steps : ∃ done, session.steps = done ++ st.rest ∧ done.length = st.records.length
  mirrors (t : State) (between : st.position = .between t) :
    t.Mirrors (.replay (session.steps.zip (st.records.map (·.result))))

/-- One more record accounts for one more step. -/
theorem Copies.replay_record {done rest : List Step} {results : List Result} (step : Step)
    (result : Result) (hlength : done.length = results.length) :
    replay ((done ++ step :: rest).zip (results ++ [result])) =
      (replay ((done ++ step :: rest).zip results)).after step result := by
  have hbefore : (done ++ step :: rest).zip results = done.zip results := by
    have hzip : (done ++ step :: rest).zip (results ++ []) =
        done.zip results ++ (step :: rest).zip [] := List.zip_append hlength
    rwa [List.append_nil, List.zip_nil_right, List.append_nil] at hzip
  rw [hbefore, List.zip_append hlength, List.zip_cons_cons, List.zip_nil_right]
  exact List.foldl_append

theorem Stage.Mirrored.conclude {records : List Record} {step : Step} {rest : List Step}
    {result : Result} (hm : Stage.Mirrored session ⟨records, step :: rest, .between t⟩)
    (ha : t.Allows step) (hr : (Session.runStep step t).control.result? = some result) :
    (session.conclude records rest result (Session.runStep step t).state).Mirrored session := by
  obtain ⟨⟨done, hsteps, hlength⟩, hmirrors⟩ := hm
  refine ⟨⟨done ++ [step], by simp [hsteps, Session.conclude], by simp [hlength, Session.conclude]⟩,
    fun u hu => ?_⟩
  have hruns := State.Mirrors.runs (s := {t with events := []})
    ((hmirrors t rfl).congr rfl rfl) ha hr
  have hresults : (session.conclude records rest result
      (Session.runStep step t).state).records.map (·.result) =
        records.map (·.result) ++ [result] := by
    simp [Session.conclude, Session.record]
  rw [hsteps] at hruns ⊢
  rw [hresults, Copies.replay_record step result (by simpa using hlength)]
  cases hu
  refine hruns.congr ?_ ?_
  · unfold Session.record
    split <;> rfl
  · unfold Session.record
    split <;> rfl

theorem Session.mirrors_between (h : s.Bare) (hs : session.Safe s)
    (hb : (session.stage s n).position = .between t) : t.Mirrors (session.copies s n) := by
  refine (boundary_induction (P := Stage.Mirrored session) ⟨⟨[], rfl, rfl⟩, fun t ht => ?_⟩ ?_
    hb).mirrors t hb
  · cases ht
    have hnone : session.steps.zip ([] : List Result) = [] := List.zip_nil_right
    show s.Mirrors (.replay (session.steps.zip []))
    rw [hnone]
    exact h.mirrors
  · intro k records step rest t result hstage hk hresult
    have hallowed := hs k
    rw [hstage] at hallowed hk
    exact hk.conclude hallowed hresult

/-- The same where the next step begins, which does not see what was observed before it. -/
theorem Session.mirrors_begun (h : s.Bare) (hs : session.Safe s)
    (hb : (session.stage s n).position = .between t) :
    State.Mirrors {t with events := []} (session.copies s n) :=
  (mirrors_between h hs hb).congr rfl rfl

/-! ### Reading -/

theorem Image.label?_image (v : Value) (kids : List Image) :
    (v.image kids).label? = match v with
      | .node label _ => some label
      | _ => none := by
  cases v <;> rfl

/-- What a value shows of itself is what its image does. -/
theorem State.valueAnswer?_eq {v : Value} {kids : List Image}
    (hkids : List.Forall₂ s.heap.Shows v.children kids) :
    s.valueAnswer? v = (v.image kids).answer? := by
  cases v with
  | node label children =>
    have hlabels : children.mapM s.labelOf? = kids.mapM Image.label? := by
      simp only [Value.children] at hkids
      induction hkids with
      | nil => rfl
      | @cons p kid os kids hs _ ih =>
        obtain ⟨w, below, hw, _, rfl⟩ := Heap.shows_iff.1 hs
        have hlabel : s.labelOf? p = (w.image below).label? := by
          rw [Image.label?_image, State.labelOf?, hw]
          cases w <;> rfl
        rw [List.mapM_cons, List.mapM_cons, hlabel, ih]
    simp only [State.valueAnswer?, Value.image, Image.answer?, hlabels]
  | _ => rfl

/-- Every handle leads to the image that is its copy. -/
theorem State.Mirrors.images (h : s.Mirrors c) :
    Bindings.Match (fun o image => s.heap.fullImage? o = some image) s.names.handles c :=
  h.mirrors.copied.imp fun _ _ _ _ hs => Heap.fullImage?_of_shows hs

/-- Reads through handles find what the copies show. -/
theorem State.Mirrors.reads (h : s.Mirrors c) {action : HandleAction} {answer : Answer}
    (ha : c.answer? action = some answer) : s.performHandle action = .returned answer s := by
  have hfind {name : String} {img : Image} (hname : c.find? name = some img) :
      ∃ o, s.names.handles.find? name = some o ∧ s.heap.Shows o img := by
    have := h.mirrors.copied name
    rw [hname] at this
    generalize s.names.handles.find? name = found at this
    cases this with
    | some hs => exact ⟨_, rfl, hs⟩
  cases action with
  | get handle =>
    obtain ⟨img, himg, hanswer⟩ := Option.bind_eq_some_iff.1 ha
    obtain ⟨o, ho, hs⟩ := hfind himg
    obtain ⟨v, kids, hv, hkids, rfl⟩ := Heap.shows_iff.1 hs
    simp only [performHandle, withHandle, ho, given, hv, valueAnswer?_eq hkids, hanswer]
  | equal handle other =>
    obtain ⟨x, hx, hmap⟩ := Option.bind_eq_some_iff.1 ha
    obtain ⟨y, hy, rfl⟩ := Option.map_eq_some_iff.1 hmap
    obtain ⟨a, ha, hsa⟩ := hfind hx
    obtain ⟨b, hb, hsb⟩ := hfind hy
    simp only [performHandle, withHandle, ha, hb, given, equalAnswer,
      Heap.fullImage?_of_shows hsa, Heap.fullImage?_of_shows hsb]
  | write handle form =>
    obtain ⟨img, himg, hmap⟩ := Option.bind_eq_some_iff.1 ha
    obtain ⟨text, htext, rfl⟩ := Option.map_eq_some_iff.1 hmap
    obtain ⟨o, ho, hs⟩ := hfind himg
    simp only [performHandle, withHandle, ho, given, Heap.fullImage?_of_shows hs, htext]
  | _ => cases ha

/-! ### Making a handle unique -/

/-- The object behind a handle that was made unique: the old one if the handle was alone, and else
a new one. -/
def State.uniqueObject (s : State) (o : ObjectId) : ObjectId :=
  if s.heap.countOf o = 1 then o else s.heap.objects.length

/-- What making a handle to `o` unique comes to. -/
structure State.MadeUnique (s t : State) (handle : String) (o : ObjectId) (answer : Answer) :
    Prop where
  answer : answer = .made (decide (s.heap.countOf o ≠ 1))
  /-- An object is allocated if the count was not 1, and only then. -/
  objects : t.heap.objects.length = s.heap.objects.length + if s.heap.countOf o = 1 then 0 else 1
  allocations : t.statistics.allocations =
    s.statistics.allocations + if s.heap.countOf o = 1 then 0 else 1
  deallocations : t.statistics.deallocations = s.statistics.deallocations
  /-- The handle is the only owner of its object. -/
  target : t.names.handles.find? handle = some (s.uniqueObject o)
  alone : t.heap.countOf (s.uniqueObject o) = 1
  /-- The others keep the old object, which loses one reference. -/
  left (shared : s.heap.countOf o ≠ 1) :
    t.heap.countOf o + 1 = s.heap.countOf o ∧ t.heap.link? o ≠ none

theorem State.Mirrors.madeUnique_inPlace (h : s.Mirrors c) {handle : String} {size : UInt64}
    {v w : Value} {literal : Literal} (hf : s.names.handles.find? handle = some o)
    (ht : t.Owned []) (hunique : s.owners [] o = 1)
    (hvalue : s.heap.object? o = some ⟨size, some o, .value v⟩)
    (hupdated : v.updated? literal = some w)
    (hbecomes : s.Becomes t (s.heap.setContents o (.value w)).objects s.names.handles 0) :
    s.MadeUnique t handle o (.made false) := by
  have hone : s.heap.countOf o = 1 := (h.owned.keeps.countOf_eq o).trans hunique
  have htarget : s.uniqueObject o = o := if_pos hone
  refine {
    answer := by simp [hone]
    objects := ?objects
    allocations := by rw [if_pos hone]; exact hbecomes.allocations
    deallocations := hbecomes.deallocations
    target := by rw [htarget, hbecomes.handles]; exact hf
    alone := ?alone
    left := fun shared => absurd hone shared }
  case objects =>
    rw [hbecomes.objects, if_pos hone]
    simp [Heap.setContents, Heap.updateObject]
  case alone =>
    have hholds := Heap.holds_setContents (p := o) hvalue (.value w)
    have hchildren : w.children = v.children := State.children_updated? hupdated
    have hsame : t.heap.holds o = (s.heap.setContents o (.value w)).holds o :=
      Heap.holds_congr hbecomes.objects
    simp only [Contents.children, hchildren] at hholds
    rw [htarget, ht.keeps.countOf_eq, hbecomes.owners_eq, hsame]
    unfold owners at hunique
    omega

/-- The new object holds what the old one does, but neither of the two, and the handle stands for
the new one. -/
theorem State.Mirrors.madeUnique_copied (h : s.Mirrors c) {handle : String} {v w : Value}
    {literal : Literal} (hf : s.names.handles.find? handle = some o) (ht : t.Owned [])
    (hshared : s.owners [] o ≠ 1) (hvalue : s.heap.value? o = some v)
    (hupdated : v.updated? literal = some w)
    (hbecomes : s.Becomes t
      (s.heap.objects ++ [⟨v.kind.size, some s.heap.objects.length, .value w⟩])
      (s.names.handles.bind handle s.heap.objects.length) 1) :
    s.MadeUnique t handle o (.made true) := by
  have hpos : 0 < s.owners [] o := Owned.pos hf
  have hmore : s.heap.countOf o ≠ 1 := by rwa [h.owned.keeps.countOf_eq]
  have htarget : s.uniqueObject o = s.heap.objects.length := if_neg hmore
  have hchildren : w.children = v.children := State.children_updated? hupdated
  have hreplace := h.owned.owners_replace hf hbecomes
  have hnew := (h.owned.keeps.unborn (Nat.le_refl _)).1
  have hne : o ≠ s.heap.objects.length := Nat.ne_of_lt (Heap.lt_of_value? hvalue)
  have hfresh : w.children.count s.heap.objects.length = 0 := by
    refine List.count_eq_zero.2 fun hmem => ?_
    rw [hchildren] at hmem
    exact Nat.ne_of_gt (State.owners_pos_of_child hvalue hmem) hnew
  have hself : w.children.count o = 0 := by
    obtain ⟨img, hs⟩ := h.mirrors.shows o hpos
    refine List.count_eq_zero.2 fun hmem => ?_
    rw [hchildren] at hmem
    exact hs.not_mem hvalue hmem
  have hold := hreplace o
  rw [if_pos rfl, if_neg hne.symm, hself] at hold
  refine {
    answer := by simp [hmore]
    objects := by rw [hbecomes.objects, if_neg hmore, List.length_append]; rfl
    allocations := by rw [if_neg hmore]; exact hbecomes.allocations
    deallocations := hbecomes.deallocations
    target := by rw [htarget, hbecomes.handles]; exact Bindings.find?_bind_self _ _ _
    alone := ?alone
    left := fun _ => ⟨?less, ?linked⟩ }
  case alone =>
    have hcount := hreplace s.heap.objects.length
    rw [if_neg hne, if_pos rfl, hfresh, hnew] at hcount
    rw [htarget, ht.keeps.countOf_eq]
    exact hcount
  case less =>
    rw [ht.keeps.countOf_eq, h.owned.keeps.countOf_eq]
    exact hold
  case linked =>
    rw [ne_eq, ht.keeps.link?_eq_none_iff]
    omega

theorem State.Mirrors.madeUnique (h : s.Mirrors c) {handle : String} {literal : Literal}
    {answer : Answer} (hf : s.names.handles.find? handle = some o) (ht : t.Owned [])
    (hm : s.Makes t handle o literal answer) : s.MadeUnique t handle o answer := by
  cases hm with
  | inPlace size v w unique value updated becomes =>
    exact h.madeUnique_inPlace hf ht unique value updated becomes
  | copied size v w shared value updated becomes =>
    exact h.madeUnique_copied hf ht shared (Heap.value?_of_object? value) updated becomes

namespace Session

/-- What handles show in a session. -/
structure ValueSemantics (session : Session) (s : State) : Prop where
  /-- Between two steps every handle shows its private copy. -/
  copied (n : Nat) (t : State) (between : (session.stage s n).position = .between t) :
    Bindings.Match (fun o image => t.heap.fullImage? o = some image) t.names.handles
      (session.copies s n)
  /-- What is read through a handle is read off its copy. -/
  read (n : Nat) (t : State) (between : (session.stage s n).position = .between t)
    (action : HandleAction) (answer : Answer)
    (expected : (session.copies s n).answer? action = some answer) :
    t.performHandle action = .returned answer t
  /-- What a step does shows through no handle but those it works on. -/
  apart (n : Nat) (t : State) (between : (session.stage s n).position = .between t) (step : Step)
    (allowed : t.Allows step) (result : Result)
    (ends : (runStep step t).control.result? = some result) (name : String)
    (other : name ∉ step.changes) :
    ((runStep step t).state.names.handles.find? name).bind (runStep step t).state.heap.fullImage? =
      (t.names.handles.find? name).bind t.heap.fullImage?
  /-- Making a handle unique allocates if the handle is not alone, and leaves the others their
  object. -/
  made (n : Nat) (t : State) (between : (session.stage s n).position = .between t)
    (handle : String) (o : ObjectId) (found : t.names.handles.find? handle = some o)
    (literal : Literal) (answer : Answer)
    (ends : (runStep (.makeUnique handle literal) t).control = .answer answer) :
    t.MadeUnique (runStep (.makeUnique handle literal) t).state handle o answer
  /-- It comes to an answer, if counts and allocator permit and the assignment means something. -/
  makes (n : Nat) (t : State) (between : (session.stage s n).position = .between t)
    (handle : String) (o : ObjectId) (found : t.names.handles.find? handle = some o)
    (literal : Literal) (permitted : t.Permits [] (.makeUnique handle literal))
    (fits : (t.heap.value? o).bind (·.updated? literal) ≠ none) :
    ∃ answer, (runStep (.makeUnique handle literal) t).control = .answer answer
  /-- If it fails, nothing is allocated and nothing is replaced. -/
  unmade (n : Nat) (t : State) (between : (session.stage s n).position = .between t)
    (handle : String) (o : ObjectId) (found : t.names.handles.find? handle = some o)
    (literal : Literal) (cause : Cause)
    (ends : (runStep (.makeUnique handle literal) t).control = .unwind cause) :
    (runStep (.makeUnique handle literal) t).state.heap.objects = t.heap.objects ∧
      (runStep (.makeUnique handle literal) t).state.names.handles = t.names.handles

/-- **Every handle has a value of its own**, however many share an object. -/
theorem valueSemantics (session : Session) {s : State} (h : s.Bare) (hs : session.Safe s) :
    session.ValueSemantics s where
  copied n t between := (mirrors_between h hs between).images
  read n t between action answer expected := (mirrors_between h hs between).reads expected
  apart n t between step allowed result ends name other := by
    have ht := mirrors_begun h hs between
    have hafter := (ht.runs allowed ends).images.bind_eq name
    rw [Copies.find?_after result other, ← ht.images.bind_eq name] at hafter
    exact hafter
  made n t between handle o found literal answer ends := by
    have ht := mirrors_begun h hs between
    rcases ht.owned.makeUnique_cases found literal with
      ⟨halt, hcontrol⟩ | ⟨cause, hcontrol, _⟩ | ⟨answer', hcontrol, hu, hmakes⟩
    · cases ends.symm.trans hcontrol
    · cases ends.symm.trans hcontrol
    · cases ends.symm.trans hcontrol
      obtain ⟨hanswer, hobjects, hallocations, hdeallocations, htarget, halone, hleft⟩ :=
        ht.madeUnique found hu hmakes
      exact ⟨hanswer, hobjects, hallocations, hdeallocations, htarget, halone, hleft⟩
  makes n t between handle o found literal permitted fits := by
    have ht := (mirrors_begun h hs between).owned
    obtain ⟨size, v, count, hobject, _⟩ := ht.keeps.live (State.Owned.pos found)
    have hpermits : State.Permits [] {t with events := []} (.makeUnique handle literal) := by
      intro p hp hshared w hw
      obtain ⟨hgrants, hchildren⟩ := permitted p hp hshared w hw
      have hsame := State.grants_congr (s := t) (t := {t with events := []}) rfl w.kind
      exact ⟨hsame.trans hgrants, hchildren⟩
    rcases ht.run_makeUnique found hobject hpermits with
      ⟨hnone, _⟩ | ⟨u, answer, hrun, _⟩
    · have hvalue : t.heap.value? o = some v := Heap.value?_of_object? hobject
      rw [hvalue, Option.bind_some] at fits
      exact absurd hnone fits
    · exact ⟨answer, congrArg Machine.control hrun⟩
  unmade n t between handle o found literal cause ends := by
    have ht := (mirrors_begun h hs between).owned
    rcases ht.makeUnique_cases found literal with
      ⟨halt, hcontrol⟩ | ⟨cause', hcontrol, hsame⟩ | ⟨answer, hcontrol, _⟩
    · cases ends.symm.trans hcontrol
    · exact hsame
    · cases ends.symm.trans hcontrol

/-- A tree with a leaf is cloned; the clone gives out no mutable view, but is made unique, and then
the tree does give one out. -/
def sharing : Session where
  steps := [
    .act (.handle (.create "leaf" .word (.number 1 0))),
    .act (.handle (.create "tree" .node (.node "old" ["leaf"]))),
    .act (.handle (.clone "tree" "copy")),
    .act (.handle (.set "copy" (.text "lost"))),
    .makeUnique "copy" (.text "new"),
    .act (.handle (.set "tree" (.text "last"))),
    .dropHandle "tree"]

theorem safe_sharing : sharing.Safe .embedded :=
  .of_rest (N := 28) rfl (by decide +kernel)

/-- Each handle shows what was written through it and not what was written through the other. -/
theorem valueSemantics_sharing :
    let before := (sharing.stage .embedded 12).state
    let after := (sharing.stage .embedded 20).state
    (before.names.handles.find? "copy").bind before.heap.fullImage? =
        some (.node "old" [.word 1]) ∧
      (after.names.handles.find? "copy").bind after.heap.fullImage? =
        some (.node "new" [.word 1]) ∧
      (after.names.handles.find? "tree").bind after.heap.fullImage? =
        some (.node "last" [.word 1]) ∧
      ∃ answer, before.MadeUnique (runStep (.makeUnique "copy" (.text "new")) before).state
        "copy" 1 answer := by
  have h := sharing.valueSemantics State.bare_embedded safe_sharing
  have hbefore := h.copied 12 (sharing.stage .embedded 12).state rfl
  have hafter := h.copied 20 (sharing.stage .embedded 20).state rfl
  refine ⟨hbefore.bind_eq "copy", hafter.bind_eq "copy", hafter.bind_eq "tree", ?_⟩
  obtain ⟨answer, ends⟩ := h.makes 12 (sharing.stage .embedded 12).state rfl "copy" 1 rfl
    (.text "new") (by decide +kernel) (by decide +kernel)
  exact ⟨answer, h.made 12 (sharing.stage .embedded 12).state rfl "copy" 1 rfl
    (.text "new") answer ends⟩

end Session
end Custody
