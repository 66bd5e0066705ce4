import Custody.Proofs.Stage
import Custody.Proofs.Transition

/-! The transitions of a session, by what they do to locks and finalizers.

A session adds to the transitions of its machines only that steps begin and conclude.
Neither touches the heap, and what is told goes on from one step to the next. So the
three kinds of transition are those of the machine (`Session.moves_of_next?`). -/
namespace Custody

namespace Stage

/-- The view of the state, with all that was told since the session began. -/
def view (st : Stage) : View :=
  {st.state.view with told := (st.events.filter (·.tellsRoutine)).reverse}

def edited? (st : Stage) : Option ObjectId :=
  match st.position with
  | .between _ => none
  | .during m => m.edited?

/-- The next transition clears or overwrites the object's slot by hand. -/
def Edits (st : Stage) (o : ObjectId) : Prop :=
  st.edited? = some o

instance (st : Stage) (o : ObjectId) : Decidable (st.Edits o) :=
  inferInstanceAs (Decidable (st.edited? = some o))

/-- The next transition is the release of an object's last reference. -/
def Releases (st : Stage) (o : ObjectId) (c : CellId) (cell : Cell) : Prop :=
  ∃ m, st.position = .during m ∧ m.LastRelease o c cell

/-- What the steps to come and the machine supply. -/
def pending (label : String) (st : Stage) : Nat :=
  bodySupply label st.rest +
    match st.position with
    | .between _ => 0
    | .during m => m.pending label

/-- The kinds of transition, seen from a session. -/
inductive Moves (st st' : Stage) : Prop where
  | shifts (rs : List (Routine Step)) (shifts : Shifts st.Edits rs st.view st'.view)
      (under : teardowns st'.stack = teardowns st.stack)
      (supply : ∀ label, total (Routine.supply label) rs + st'.pending label ≤ st.pending label)
      (other : ∀ o c cell, ¬ st.Releases o c cell)
  | begins (o : ObjectId) (c : CellId) (cell : Cell) (last : st.Releases o c cell)
      (view : st'.view = st.view.begin ⟨o, c⟩ cell.finalizer)
      (under : teardowns st'.stack = ⟨o, c⟩ :: teardowns st.stack)
      (supply : ∀ label, st'.pending label ≤
        bodySupply label (Machine.bodyOf cell.finalizer) + st.pending label)
  | finishes (t : Teardown) (view : st'.view = st.view.finish t)
      (under : teardowns st.stack = t :: teardowns st'.stack)
      (supply : ∀ label, st'.pending label ≤ st.pending label)
      (other : ∀ o c cell, ¬ st.Releases o c cell)

end Stage

/-- The view with what was told earlier. -/
def View.since (earlier : List Event) (v : View) : View :=
  {v with told := v.told ++ earlier}

theorem Shift.since {edits : ObjectId → Prop} {r : Option (Routine Step)} {v w : View}
    (h : Shift edits r v w) (earlier : List Event) :
    Shift edits r (v.since earlier) (w.since earlier) := by
  have hdiscard (finalizer : Option Finalizer) (x : View) :
      (x.discard finalizer).since earlier = (x.since earlier).discard finalizer := by
    simp [View.since, View.discard]
  cases h with
  | recount _ c count => exact .recount _ c count
  | create _ finalizer => exact .create _ finalizer
  | stand _ name finalizer => exact .stand _ name finalizer
  | relink _ o finalizer h => exact .relink _ o finalizer h
  | unlink _ o h => exact .unlink _ o h
  | @free _ name c h =>
    have hfree : (v.free name c).since earlier = (v.since earlier).free name c := by
      simp [View.since, View.free, View.freeCell, View.discard, View.cell?]
    rw [hfree]
    exact .free _ h
  | discard _ r =>
    rw [hdiscard]
    exact .discard _ r
  | waste _ r => exact .waste _ r

theorem Shifts.since {edits : ObjectId → Prop} {rs : List (Routine Step)} {v w : View}
    (h : Shifts edits rs v w) (earlier : List Event) :
    Shifts edits rs (v.since earlier) (w.since earlier) := by
  induction h with
  | refl v => exact .refl _
  | step first _ ih => exact .step (first.since earlier) ih

namespace Stage

/-- While a step goes on, what it has told comes after what the steps before it told. -/
theorem view_during (records : List Record) (rest : List Step) (m : Machine) :
    (Stage.mk records rest (.during m)).view =
      m.state.view.since (((records.flatMap (·.events)).filter (·.tellsRoutine)).reverse) := by
  simp [view, events, state, View.since, State.view]

/-- Writing a record of a step leaves the view as it is. -/
theorem view_conclude (session : Session) (records : List Record) (rest : List Step)
    (result : Result) (m : Machine) :
    (session.conclude records rest result m.state).view =
      (Stage.mk records rest (.during m)).view := by
  have hrecord : (session.record result true m.state).1.events = m.state.events.reverse := rfl
  have hstate : (session.record result true m.state).2.view = m.state.view := by
    unfold Session.record
    split <;> rfl
  simp only [view, events, state, Session.conclude, List.flatMap_append, List.flatMap_cons,
    List.flatMap_nil, List.append_nil, hrecord, hstate]

end Stage

theorem Stage.not_releases {records : List Record} {rest : List Step} {m : Machine}
    (h : ∀ o c cell, ¬ m.LastRelease o c cell) (o : ObjectId) (c : CellId) (cell : Cell) :
    ¬ (Stage.mk records rest (.during m)).Releases o c cell := by
  rintro ⟨m', hm, hlast⟩
  cases hm
  exact h o c cell hlast

namespace Session

variable {session : Session}

/-- **A session goes on by the transitions of its machine**, and by steps that begin and end. -/
theorem moves_of_next? {st st' : Stage} (h : session.next? st = some st') : st.Moves st' := by
  cases advances_of_next? h with
  | begins records rest s step =>
    refine .shifts [] (.of_eq ?_) rfl (fun label => ?_) (by rintro o c cell ⟨m, hm, _⟩; cases hm)
    · rw [Stage.view_during]
      simp [Stage.view, Stage.events, Stage.state, View.since, State.view, Machine.start]
    · show 0 + (bodySupply label rest + (step.supply label + 0)) ≤
        step.supply label + bodySupply label rest + 0
      omega
  | answers records rest s answer =>
    refine .shifts [] (.of_eq ?_) rfl (fun label => ?_)
      (Stage.not_releases (Machine.not_lastRelease fun o hcontrol => by cases hcontrol))
    · exact Stage.view_conclude session records rest _ ⟨s, .answer answer, []⟩
    · show 0 + (bodySupply label rest + 0) ≤ bodySupply label rest + (0 + 0)
      omega
  | fails records rest s cause =>
    refine .shifts [] (.of_eq ?_) rfl (fun label => ?_)
      (Stage.not_releases (Machine.not_lastRelease fun o hcontrol => by cases hcontrol))
    · exact Stage.view_conclude session records rest _ ⟨s, .unwind cause, []⟩
    · show 0 + (bodySupply label rest + 0) ≤ bodySupply label rest + (0 + 0)
      omega
  | @moves records rest m m' hm =>
    cases Machine.moves_of_next? hm with
    | shifts rs hshifts hunder hsupply hother =>
      refine .shifts rs ?_ hunder (fun label => ?_) (Stage.not_releases hother)
      · rw [Stage.view_during, Stage.view_during]
        exact hshifts.since _
      · show _ + (bodySupply label rest + m'.pending label) ≤
          bodySupply label rest + m.pending label
        have := hsupply label
        omega
    | begins o c cell hlast hafter =>
      obtain ⟨hview, hunder, hsupply⟩ := Machine.finalize_begin m.stack hlast.opens
      rw [← hafter] at hview hunder hsupply
      refine .begins o c cell ⟨m, rfl, hlast⟩ ?_ hunder fun label => ?_
      · rw [Stage.view_during, Stage.view_during, hview]
        simp [View.since, View.begin, View.updateCell]
      · show bodySupply label rest + m'.pending label ≤
          _ + (bodySupply label rest + m.pending label)
        have : stackSupply label m.stack ≤ m.pending label := Nat.le_add_left _ _
        have := hsupply label
        omega
    | finishes t stack htop hstate hunder hsupply hother =>
      refine .finishes t ?_ ?_ (fun label => Nat.add_le_add_left (hsupply label) _)
        (Stage.not_releases hother)
      · rw [Stage.view_during, Stage.view_during, hstate, State.view_finish]
        simp [View.since, View.finish, View.freeCell, View.unlink, View.discard, View.updateCell,
          View.cell?]
      · show teardowns m.stack = t :: teardowns m'.stack
        rw [htop, hunder, teardowns_teardown]

/-- A session at rest releases nothing. -/
theorem not_releases_of_rest {st : Stage} (h : session.next? st = none) (o : ObjectId) (c : CellId)
    (cell : Cell) : ¬ st.Releases o c cell := by
  obtain ⟨records, rest, position⟩ := st
  rintro ⟨m, rfl, hlast⟩
  have hm : m.next? = some (Machine.release o m.state m.stack) := by
    simp [Machine.next?, hlast.control]
  rw [next?_during hm] at h
  cases h

/-- From stage to stage there is one of the transitions, or the session rests and nothing
changes. -/
theorem moves_stage (session : Session) (s : State) (n : Nat) :
    (session.stage s n).Moves (session.stage s (n + 1)) := by
  cases h : session.next? (session.stage s n) with
  | none =>
    rw [stage_succ_of_rest h]
    exact .shifts [] (.refl _) rfl (fun label => Nat.le_of_eq (Nat.zero_add _))
      (not_releases_of_rest h)
  | some st =>
    rw [stage_succ_of_next? h]
    exact moves_of_next? h

end Session
end Custody
