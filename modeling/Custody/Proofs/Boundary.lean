import Custody.Proofs.Imaging

/-! What holds between the steps of a session.

A step runs from one boundary to the next and knows nothing of the session but the state it
starts from. So what holds at the start, and is kept by every step that comes to a result,
holds at every boundary (`Session.boundary_induction`). -/
namespace Custody

namespace Machine

variable {m m' : Machine}

theorem run_of_rest (h : m.next? = none) : m.run = m :=
  advance_of_rest h _

/-- A machine comes to the same end from wherever it has got to. -/
theorem run_of_next? (h : m.next? = some m') : m.run = m'.run := by
  obtain ⟨k, hk⟩ := Nat.exists_eq_add_of_lt (budget_next? h)
  have hstep : m.advance (m'.budget + k + 1) = m'.advance (m'.budget + k) := by
    simp only [advance, h]
  unfold run
  rw [hk, hstep, advance_add, advance_of_rest (next?_advance (Nat.le_refl _))]

theorem run_eq_of_advance {n : Nat} (h : (m.advance n).next? = none) : m.run = m.advance n := by
  induction n generalizing m with
  | zero => exact run_of_rest h
  | succ n ih =>
    unfold advance at h ⊢
    cases hm : m.next? with
    | none => exact run_of_rest hm
    | some m' =>
      rw [hm] at h
      exact (run_of_next? hm).trans (ih h)

/-- What every transition keeps holds at the end. -/
theorem run_induction {P : Machine → Prop} (hnext : ∀ m m', P m → m.next? = some m' → P m')
    (h : P m) : P m.run := by
  unfold run
  generalize m.budget = n
  induction n generalizing m with
  | zero => exact h
  | succ n ih =>
    unfold advance
    cases hm : m.next? with
    | none => exact h
    | some m' => exact ih (hnext m m' h hm)

end Machine

/-- What a machine that has come to rest means for its step. -/
def Control.result? : Control → Option Result
  | .answer a => some (.answered a)
  | .unwind cause => some (.failed cause)
  | _ => none

namespace Session

variable {session : Session} {s t : State} {n : Nat}

/-- A stage is a boundary, or its step runs from the last one. -/
theorem boundary_or_begun (session : Session) (s : State) (n : Nat) :
    (∃ t, (session.stage s n).position = .between t) ∨
      ∃ k ≤ n, ∃ records step rest t j,
        session.stage s k = ⟨records, step :: rest, .between t⟩ ∧
        session.stage s n =
          ⟨records, rest, .during ((Machine.start step {t with events := []}).advance j)⟩ := by
  induction n with
  | zero => exact .inl ⟨s, rfl⟩
  | succ n ih =>
    cases hnext : session.next? (session.stage s n) with
    | none =>
      rw [stage_succ_of_rest hnext]
      exact ih.imp_right fun ⟨k, hk, hbegun⟩ => ⟨k, Nat.le_succ_of_le hk, hbegun⟩
    | some st =>
      rw [stage_succ_of_next? hnext]
      generalize hn : session.stage s n = st' at hnext ih
      cases advances_of_next? hnext with
      | begins records rest t step =>
        exact .inr ⟨n, Nat.le_succ n, records, step, rest, t, 0, hn, rfl⟩
      | answers records rest t answer => exact .inl ⟨_, rfl⟩
      | fails records rest t cause => exact .inl ⟨_, rfl⟩
      | @moves records rest m m' hm =>
        rcases ih with ⟨t, ht⟩ | ⟨k, hk, records, step, rest, t, j, hbegun, heq⟩
        · cases ht
        · cases heq
          refine .inr ⟨k, Nat.le_succ_of_le hk, records, step, rest, t, j + 1, hbegun, ?_⟩
          rw [Machine.advance_add]
          simp only [Machine.advance, hm]

/-- **What every step keeps holds at every boundary.** -/
theorem boundary_induction {P : Stage → Prop} (hstart : P (session.stage s 0))
    (hstep : ∀ k records step rest t result,
      session.stage s k = ⟨records, step :: rest, .between t⟩ → P (session.stage s k) →
      (runStep step t).control.result? = some result →
      P (session.conclude records rest result (runStep step t).state))
    (ht : (session.stage s n).position = .between t) : P (session.stage s n) := by
  induction n using Nat.strongRecOn generalizing t with
  | ind n ih =>
    cases n with
    | zero => exact hstart
    | succ n =>
      cases hnext : session.next? (session.stage s n) with
      | none =>
        rw [stage_succ_of_rest hnext] at ht ⊢
        exact ih n (Nat.lt_succ_self n) ht
      | some st =>
        have hbegun := boundary_or_begun session s n
        rw [stage_succ_of_next? hnext] at ht ⊢
        generalize hn : session.stage s n = st' at hnext hbegun
        -- A step that has come to rest has run from the last boundary.
        have hconclude {records : List Record} {rest : List Step} {m : Machine} {result : Result}
            (heq : st' = ⟨records, rest, .during m⟩) (hrest : m.next? = none)
            (hresult : m.control.result? = some result) :
            P (session.conclude records rest result m.state) := by
          rcases hbegun with ⟨t, ht⟩ | ⟨k, hk, _, step, _, t, j, hbegun, hst⟩
          · rw [heq] at ht
            cases ht
          · rw [heq] at hst
            cases hst
            have hrun : runStep step t = (Machine.start step {t with events := []}).advance j :=
              Machine.run_eq_of_advance hrest
            have hk' : P (session.stage s k) := by
              refine ih k (Nat.lt_succ_of_le hk) (t := t) ?_
              rw [hbegun]
            have := hstep k records step rest t result hbegun hk' (by rw [hrun]; exact hresult)
            rwa [hrun] at this
        cases advances_of_next? hnext with
        | begins records rest t step => cases ht
        | moves records rest hm => cases ht
        | answers records rest t answer => exact hconclude rfl rfl rfl
        | fails records rest t cause => exact hconclude rfl rfl rfl

end Session
end Custody
