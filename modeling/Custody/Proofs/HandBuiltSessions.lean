import Custody.Proofs.HandBuiltSteps
import Custody.Proofs.SideBySide

/-! Objects put together by hand: sessions.

A session that allocates its objects is set beside one that puts some of them together by hand.
Both make the same transitions, so wherever they stand, inside of finalizers, while unwinding and
after an object is gone, they have given the same results, observed the same, and hold the same
objects under the same counts and locks (`Session.sameByHand`). What they differ in is what the
objects made by hand leave out, no more and no less: each of them is one allocation and one payload
that is not counted, one region that is not asked for, and one line that is missing in the log. -/
namespace Custody

/-! ### Records -/

/-- The same record, but for lines that are missing. -/
structure Record.Rebuilt (missing : List Log.Line) (r r' : Record) : Prop where
  result : r'.result = r.result
  events : r'.events = r.events
  counts : r'.counts = r.counts
  order : r'.lines.Sublist r.lines
  lines : r.lines.Perm (missing.map Log.Line.text ++ r'.lines)

/-- The same records, with all the lines that are missing in them. -/
inductive Records.Rebuilt : List Log.Line → List Record → List Record → Prop where
  | nil : Rebuilt [] [] []
  | concluded {told missing : List Log.Line} {rs rs' : List Record} {r r' : Record}
    (earlier : Rebuilt told rs rs') (last : r.Rebuilt missing r') :
    Rebuilt (told ++ missing) (rs ++ [r]) (rs' ++ [r'])

theorem State.Rebuilt.counts {made : List HandBuilt} {gone : List Log.Line} {s t : State}
    (h : s.Rebuilt made gone t) : t.counts = s.counts := by
  unfold State.counts
  simp only [h.heap.counts, h.names]

/-! ### Stages -/

inductive Position.Rebuilt (made : List HandBuilt) (gone : List Log.Line) :
    Position → Position → Prop where
  | between {s t : State} (h : s.Rebuilt made gone t) : Rebuilt made gone (.between s) (.between t)
  | during {m m' : Machine} (h : m.Rebuilt made gone m') :
    Rebuilt made gone (.during m) (.during m')

/-- The same stage, but for what objects made by hand leave out. Of the lines that tell of their
creation, some are missing in records and the others in the logger. -/
structure Stage.Rebuilt (made : List HandBuilt) (told gone : List Log.Line) (st st' : Stage) :
    Prop where
  records : Records.Rebuilt told st.records st'.records
  rest : List.Forall₂ Step.Rebuilt st.rest st'.rest
  position : st.position.Rebuilt made gone st'.position
  lines : (gone ++ told).Perm (made.filterMap (·.line))

/-- What two sessions come to. -/
structure HandBuilt.Endings (made : List HandBuilt) (e e' : List Record × Exit × State) :
    Prop where
  records : ∃ told, told ⊆ made.filterMap (·.line) ∧ Records.Rebuilt told e.1 e'.1
  exit : e'.2.1 = e.2.1
  state : ∃ gone, gone ⊆ made.filterMap (·.line) ∧ e.2.2.Rebuilt made gone e'.2.2

namespace Stage

/-- The object that the second session is about to put together by hand. -/
def handBuilt? (st st' : Stage) : Option HandBuilt :=
  match st.position, st'.position with
  | .during m, .during m' => m.handBuilt? m'
  | _, _ => none

/-- The request that the next transition comes to. -/
def request? (st : Stage) : Option Request :=
  match st.position with
  | .between _ => none
  | .during m => m.request?

end Stage

namespace Session

/-- The same session with other steps. -/
def following (session : Session) (steps : List Step) : Session :=
  {session with steps}

/-- What is put together by hand in the first transitions, the latest first. -/
def handBuilt (session : Session) (steps : List Step) (s : State) : Nat → List HandBuilt
  | 0 => []
  | n + 1 =>
    ((session.stage s n).handBuilt? ((session.following steps).stage s n)).toList ++
      session.handBuilt steps s n

variable {session : Session} {steps : List Step} {made : List HandBuilt}
  {told gone : List Log.Line} {s t : State} {st st' : Stage} {records records' : List Record}

theorem rebuilt_record (session : Session) (steps : List Step) (result : Result) (counted : Bool)
    (h : s.Rebuilt made gone t) : ∃ missing kept, (missing ++ kept).Perm gone ∧
      (session.record result counted s).1.Rebuilt missing
        ((session.following steps).record result counted t).1 ∧
      (session.record result counted s).2.Rebuilt made kept
        ((session.following steps).record result counted t).2 := by
  have hevents : t.events.reverse = s.events.reverse := by rw [h.events]
  unfold record following
  dsimp only
  rw [h.counts]
  cases session.takesLines with
  | false =>
    exact ⟨[], gone, .refl _, ⟨rfl, hevents, rfl, .refl _, .refl _⟩, h⟩
  | true =>
    obtain ⟨missing, kept, hlines, hcaptured, hcleared⟩ := h.logger.clear
    refine ⟨missing, kept, hlines, ⟨rfl, hevents, rfl, ?_, ?_⟩, {h with logger := hcleared}⟩
    · exact (h.logger.captured.map _).reverse
    · have htexts := hcaptured.map Log.Line.text
      rw [List.map_append] at htexts
      exact ((List.reverse_perm _).trans htexts).trans ((List.reverse_perm _).symm.append_left _)

theorem rebuilt_conclude (session : Session) (steps : List Step)
    (hrecords : Records.Rebuilt told records records') {rest rest' : List Step}
    (hrest : List.Forall₂ Step.Rebuilt rest rest') (result : Result) (h : s.Rebuilt made gone t)
    (hlines : (gone ++ told).Perm (made.filterMap (·.line))) :
    ∃ told gone, (session.conclude records rest result s).Rebuilt made told gone
      ((session.following steps).conclude records' rest' result t) := by
  obtain ⟨missing, kept, hgone, hrecord, hstate⟩ := rebuilt_record session steps result true h
  refine ⟨told ++ missing, kept, .concluded hrecords hrecord, hrest, .between hstate, ?_⟩
  calc (kept ++ (told ++ missing)).Perm (kept ++ (missing ++ told)) :=
        List.perm_append_comm.append_left kept
    List.Perm _ (missing ++ kept ++ told) := by
        rw [← List.append_assoc]
        exact List.perm_append_comm.append_right told
    List.Perm _ (gone ++ told) := hgone.append_right told
    List.Perm _ (made.filterMap (·.line)) := hlines

/-- **Both sessions lead on to the same stage**, but for an object that only one of them counts. -/
theorem rebuilt_stage_next? (session : Session) (steps : List Step)
    (h : st.Rebuilt made told gone st')
    (hoverlooks : ∀ m step, st.position = .during m → m.control = .perform step →
      step.overlooks = true)
    (hgranted : ∀ r, st.request? = some r → r.granted = true)
    (hsystem : (st.handBuilt? st').isSome = true → st.state.allocators.installed = none) :
    Option.Rel (fun a b => ∃ told gone, a.Rebuilt ((st.handBuilt? st').toList ++ made) told gone b)
      (session.next? st) ((session.following steps).next? st') := by
  obtain ⟨records, rest, position⟩ := st
  obtain ⟨records', rest', position'⟩ := st'
  obtain ⟨hrecords, hrest, hposition, hlines⟩ := h
  cases hposition with
  | between h =>
    cases hrest with
    | nil => exact .none
    | cons hstep hrest =>
      exact .some ⟨told, gone, hrecords, hrest, .during ⟨h.fresh, .perform hstep, .nil⟩, hlines⟩
  | @during m m' hm =>
    have hnext := Machine.rebuilt_next? hm (fun step => hoverlooks m step rfl) hgranted hsystem
    simp only [next?, Stage.handBuilt?]
    generalize hmoved : m.next? = moved at hnext
    generalize m'.next? = moved' at hnext
    cases hnext with
    -- Neither machine has come to rest, and the lines that are missing grow with what was made.
    | some hlike =>
      refine .some ⟨told, _, hrecords, hrest, .during hlike, ?_⟩
      cases m.handBuilt? m' with
      | none => exact hlines
      | some b =>
        rw [Option.bind_some, List.append_assoc]
        cases hline : b.line with
        | none => simpa [hline] using hlines
        | some line => simpa [hline] using hlines
    -- Both machines have come to rest, with the same answer or the same cause.
    | none =>
      obtain ⟨s, control, stack⟩ := m
      obtain ⟨t, control', stack'⟩ := m'
      obtain ⟨hstate, hcontrol, -⟩ := hm
      cases hcontrol with
      | perform hstep => cases hmoved
      | same control =>
        cases control with
        | answer answer =>
          have hconcluded :=
            rebuilt_conclude session steps hrecords hrest (.answered answer) hstate hlines
          exact .some hconcluded
        | unwind cause =>
          have hconcluded :=
            rebuilt_conclude session steps hrecords hrest (.failed cause) hstate hlines
          exact .some hconcluded
        | halt halt => exact .none
        | perform step => cases hmoved
        | release o => cases hmoved

/-- A session at rest is not about to make anything. -/
theorem handBuilt?_of_rest (hrest : session.next? st = none) : st.handBuilt? st' = none := by
  obtain ⟨records, rest, position⟩ := st
  cases position with
  | between s => rfl
  | during m =>
    obtain ⟨s, control, stack⟩ := m
    have hidle : ∀ step, control ≠ .perform step := by
      rintro step rfl
      simp [next?, Machine.next?] at hrest
    unfold Stage.handBuilt?
    split
    · next m m' hm hm' =>
      cases hm
      unfold Machine.handBuilt?
      cases control with
      | perform step => exact absurd rfl (hidle step)
      | _ => rfl
    · rfl

/-! ### The end of a session -/

theorem rebuilt_lastRecord (session : Session) (steps : List Step) (halt : Halt)
    (hrecords : Records.Rebuilt told records records') (h : s.Rebuilt made gone t) :
    ∃ missing, missing ⊆ gone ∧ Records.Rebuilt (told ++ missing)
      (records ++ (session.lastRecord halt s).toList)
      (records' ++ ((session.following steps).lastRecord halt t).toList) := by
  have hnothing : Records.Rebuilt (told ++ []) (records ++ []) (records' ++ []) := by
    simpa only [List.append_nil] using hrecords
  cases halt with
  | blocked | malformed => exact ⟨[], List.nil_subset _, hnothing⟩
  | exited fault =>
    obtain ⟨missing, kept, hgone, hrecord, -⟩ :=
      rebuilt_record session steps (.failed (.reported fault)) false h
    exact ⟨missing, fun line hline => hgone.subset (List.mem_append_left kept hline),
      .concluded hrecords hrecord⟩
  | aborted =>
    unfold lastRecord
    rw [h.events]
    dsimp only
    split
    · exact ⟨[], List.nil_subset _, hnothing⟩
    · exact ⟨[], List.nil_subset _, .concluded hrecords ⟨rfl, rfl, rfl, .refl _, .refl _⟩⟩

theorem rebuilt_ending (session : Session) (steps : List Step)
    (h : st.Rebuilt made told gone st') :
    HandBuilt.Endings made (session.ending st) ((session.following steps).ending st') := by
  obtain ⟨records, rest, position⟩ := st
  obtain ⟨records', rest', position'⟩ := st'
  obtain ⟨hrecords, -, hposition, hlines⟩ := h
  have htold : told ⊆ made.filterMap (·.line) :=
    fun line hline => hlines.subset (List.mem_append_right gone hline)
  have hgone : gone ⊆ made.filterMap (·.line) :=
    fun line hline => hlines.subset (List.mem_append_left told hline)
  cases hposition with
  | between h => exact ⟨⟨told, htold, hrecords⟩, rfl, gone, hgone, h⟩
  | @during m m' hm =>
    obtain ⟨s, control, stack⟩ := m
    obtain ⟨t, control', stack'⟩ := m'
    obtain ⟨hstate, hcontrol, -⟩ := hm
    have hblocked : HandBuilt.Endings made (records, .blocked, s) (records', .blocked, t) :=
      ⟨⟨told, htold, hrecords⟩, rfl, gone, hgone, hstate⟩
    cases hcontrol with
    | perform hstep => exact hblocked
    | same control =>
      cases control with
      | perform _ | release _ | answer _ | unwind _ => exact hblocked
      | halt halt =>
        obtain ⟨missing, hmissing, hended⟩ := rebuilt_lastRecord session steps halt hrecords hstate
        have hall : told ++ missing ⊆ made.filterMap (·.line) :=
          List.append_subset.2 ⟨htold, fun line hline => hgone (hmissing hline)⟩
        exact ⟨⟨told ++ missing, hall, hended⟩, rfl, gone, hgone, hstate⟩

/-! ### Sessions -/

/-- A session beside the one that puts some of its objects together by hand. -/
structure SameByHand (session : Session) (steps : List Step) (s : State) : Prop where
  /-- After every transition the two stand at the same stage, but for what was left out so far: the
  same results, events and counts are recorded, the same objects hold the same payloads in the same
  slots, the cells have the same counts and locks, and as many faults are counted. -/
  stages (n : Nat) : ∃ told gone, (session.stage s n).Rebuilt (session.handBuilt steps s n) told
    gone ((session.following steps).stage s n)
  /-- What was left out so far fits into the counters. -/
  bounded (n : Nat) : Layout.slotSize * (session.handBuilt steps s n).length +
    HandBuilt.payloads (session.handBuilt steps s n) < UInt64.size
  /-- They come to rest together, and to the same. -/
  ending : ∃ n, session.next? (session.stage s n) = none ∧
    (session.following steps).next? ((session.following steps).stage s n) = none ∧
    HandBuilt.Endings (session.handBuilt steps s n) (session.runFrom s session.steps)
      ((session.following steps).runFrom s steps)

theorem state_of_rebuilt (h : st.Rebuilt made told gone st') :
    st.state.Rebuilt made gone st'.state := by
  obtain ⟨records, rest, position⟩ := st
  obtain ⟨records', rest', position'⟩ := st'
  obtain ⟨-, -, hposition, -⟩ := h
  cases hposition with
  | between h => exact h
  | during h => exact h.state

section

variable (hfresh : s.Fresh) (hsteps : List.Forall₂ Step.Rebuilt session.steps steps)
  (hoverlooks : ∀ step ∈ session.steps, step.every Step.overlooks = true)
  (hgranted : ∀ n r, (session.stage s n).request? = some r → r.granted = true)
  (hsystem : ∀ n, ((session.stage s n).handBuilt? ((session.following steps).stage s n)).isSome =
    true → (session.stage s n).state.allocators.installed = none)
include hfresh hsteps hoverlooks hgranted hsystem

theorem rebuilt_stage (n : Nat) : ∃ told gone, (session.stage s n).Rebuilt
    (session.handBuilt steps s n) told gone ((session.following steps).stage s n) := by
  induction n with
  | zero => exact ⟨[], [], .nil, hsteps, .between (.refl s), .refl _⟩
  | succ n ih =>
    obtain ⟨told, gone, hstage⟩ := ih
    have hnext := rebuilt_stage_next? session steps hstage
      (fun m step hd hm => performs_every hfresh hoverlooks hd hm) (hgranted n) (hsystem n)
    rw [stage_succ, stage_succ, handBuilt]
    generalize hmoved : session.next? (session.stage s n) = moved at hnext
    generalize (session.following steps).next? ((session.following steps).stage s n) = moved'
      at hnext
    cases hnext with
    | some hlike => exact hlike
    | none =>
      rw [handBuilt?_of_rest hmoved]
      exact ⟨told, gone, hstage⟩

/-- **Objects put together by hand are as good as allocated ones**, whatever a session does with
them afterwards. All that is asked of the session that allocates is that it is granted what it asks
for, and that the system allocator serves the allocations that are replaced: one that was installed
would be seen to be asked. -/
theorem sameByHand : session.SameByHand steps s where
  stages := rebuilt_stage hfresh hsteps hoverlooks hgranted hsystem
  bounded n := by
    obtain ⟨told, gone, hstage⟩ := rebuilt_stage hfresh hsteps hoverlooks hgranted hsystem n
    have hbytes := (state_of_rebuilt hstage).allocators.bytes
    have hlt := (session.stage s n).state.allocators.system.bytes.toNat_lt
    rw [HandBuilt.regions_eq] at hbytes
    have hsize : UInt64.size = 2 ^ 64 := rfl
    omega
  ending := by
    obtain ⟨n, hrest, hrun⟩ := session.exists_ending s
    obtain ⟨told, gone, hstage⟩ := rebuilt_stage hfresh hsteps hoverlooks hgranted hsystem n
    have hnext := rebuilt_stage_next? session steps hstage
      (fun m step hd hm => performs_every hfresh hoverlooks hd hm) (hgranted n) (hsystem n)
    have hrest' := (eq_none_iff_of_rel hnext).1 hrest
    have hrun' : (session.following steps).runFrom s steps =
        (session.following steps).ending ((session.following steps).stage s n) :=
      runFrom_of_rest hrest'
    refine ⟨n, hrest, hrest', ?_⟩
    rw [hrun, hrun']
    exact rebuilt_ending session steps hstage

end

/-- A session at rest stays where it is. -/
theorem stage_min_of_rest {k : Nat} (hrest : session.next? (session.stage s k) = none) (n : Nat) :
    session.stage s n = session.stage s (min n k) := by
  rcases Nat.le_total n k with hle | hle
  · rw [Nat.min_eq_left hle]
  · obtain ⟨d, rfl⟩ := Nat.exists_eq_add_of_le hle
    rw [Nat.min_eq_right hle, stage_add, after_of_rest hrest]

/-- An object whose finalizer makes another one and releases a third, whose finalizer unwinds. The
third is asked about once it is gone. How these two are made is left open. -/
def makingWith (make : String → UInt64 → Option (Routine Step) → Step) : List Step :=
  [.act (.log (.setLevel .trace)),
    .act (.setting (.setReporter (some .unwinding))),
    make "inner" 8 (some ⟨.native, "inner", [.act (.panic "torn")]⟩),
    .call .retain (some "inner") 1 .native,
    .allocate "outer" 16 (some ⟨.native, "outer",
      [make "late" 24 none, .call .release (some "inner") 1 .native]⟩) none .native,
    .call .retain (some "outer") 1 .native,
    .call .release (some "outer") 1 .native,
    .act (.object (.count (some "inner") .native))]

def allocating : Session where
  steps := makingWith fun name size routine => .allocate name size routine none .native

def assembled : List Step :=
  makingWith .assemble

theorem rebuilt_assembled : List.Forall₂ Step.Rebuilt allocating.steps assembled := by
  have hlate : Step.Rebuilt (.allocate "late" 24 none none .native) (.assemble "late" 24 none) :=
    .byHand "late" rfl .none
  have hbody : List.Forall₂ Step.Rebuilt
      [.allocate "late" 24 none none .native, .call .release (some "inner") 1 .native]
      [.assemble "late" 24 none, .call .release (some "inner") 1 .native] :=
    .cons hlate (.cons (.same _) .nil)
  exact .cons (.same _) (.cons (.same _) (.cons
    (.byHand "inner" rfl (.some (Routine.Rebuilt.refl _))) (.cons (.same _) (.cons
      (.allocate "outer" 16 none .native (.some (.mk _ _ hbody)))
        (.cons (.same _) (.cons (.same _) (.cons (.same _) .nil)))))))

/-- Two of the three objects are put together by hand, one of them inside of the other's teardown.
Both sessions come to the end with one fault, and only the two are not counted. -/
theorem sameByHand_assembled :
    (allocating.handBuilt assembled .embedded 38).map (fun b => (b.object, b.size)) =
      [(2, 24), (0, 8)] ∧
    (allocating.stage .embedded 38).state.statistics.payloadBytes =
      ((allocating.following assembled).stage .embedded 38).state.statistics.payloadBytes + 32 ∧
    ((allocating.following assembled).stage .embedded 38).state.faults.count = 1 ∧
    ((allocating.following assembled).runFrom .embedded assembled).2.1 = .finished := by
  have hrest : allocating.next? (allocating.stage .embedded 38) = none :=
    Option.isNone_iff_eq_none.1 (by decide +kernel)
  have hgranted : ∀ n < 39,
      ((allocating.stage .embedded n).request?.all (·.granted)) = true := by
    decide +kernel
  have hsystem : ∀ n < 39,
      (allocating.stage .embedded n).state.allocators.installed = none := by
    decide +kernel
  have hlt (n : Nat) : min n 38 < 39 := Nat.lt_succ_of_le (Nat.min_le_right n 38)
  have h := sameByHand State.fresh_embedded rebuilt_assembled (by decide)
    (fun n r hr => by
      have hall := hgranted (min n 38) (hlt n)
      rw [← stage_min_of_rest hrest, hr] at hall
      exact hall)
    (fun n _ => by
      rw [stage_min_of_rest hrest]
      exact hsystem (min n 38) (hlt n))
  obtain ⟨told, gone, hstage⟩ := h.stages 38
  have hstate := state_of_rebuilt hstage
  obtain ⟨_, -, -, hending⟩ := h.ending
  have hpayloads :
      HandBuilt.payloads (allocating.handBuilt assembled .embedded 38) = 32 := by
    decide +kernel
  refine ⟨by decide +kernel, ?_, ?_, hending.exit.trans (by decide +kernel)⟩
  · have hbytes := hstate.statistics.payloadBytes
    rwa [hpayloads] at hbytes
  · rw [hstate.faults]
    decide +kernel

end Session
end Custody
