import Custody.State

/-! How an operation ends: with a result, by unwinding, or with the end of the
process. Each way carries the state it leaves behind. Two processes are held against each other
by how their operations end (`Outcome.Related`). -/
namespace Custody

inductive Outcome (α : Type) where
  | returned (result : α) (state : State)
  | unwound (cause : Cause) (state : State)
  | halted (halt : Halt) (state : State)

namespace Outcome

/-- Goes on with the result, if there is one. -/
def andThen (out : Outcome α) (next : α → State → Outcome β) : Outcome β :=
  match out with
  | returned result s => next result s
  | unwound cause s => unwound cause s
  | halted halt s => halted halt s

def map (f : α → β) (out : Outcome α) : Outcome β :=
  out.andThen fun result s => returned (f result) s

/-- The end of an operation called by convention: unwinding stops the process where it would leave
a foreign call. -/
def through (via : Convention) (out : Outcome α) : Outcome α :=
  match via, out with
  | .foreign, unwound _ s => halted .aborted s
  | _, out => out

/-- Changes the state on the way out, if the operation unwinds. -/
def whenUnwinding (f : State → State) : Outcome α → Outcome α
  | unwound cause s => unwound cause (f s)
  | out => out

@[simp] theorem andThen_returned (result : α) (s : State) (next : α → State → Outcome β) :
    (returned result s).andThen next = next result s := rfl

@[simp] theorem andThen_unwound (cause : Cause) (s : State) (next : α → State → Outcome β) :
    (unwound cause s).andThen next = unwound cause s := rfl

@[simp] theorem andThen_halted (halt : Halt) (s : State) (next : α → State → Outcome β) :
    (halted halt s).andThen next = halted halt s := rfl

@[simp] theorem through_native (out : Outcome α) : out.through .native = out := by
  cases out <;> rfl

end Outcome

namespace State

/-- Counts a fault and hands it to the reporter, or logs it and follows the policy. Neither way
returns. -/
def report (f : Fault) (s : State) : Outcome α :=
  let counted := {s with faults := {s.faults with count := s.faults.count + 1}}
  match s.faults.reporter with
  | some .unwinding => .unwound (.reported f) counted
  | some .exiting => .halted (.exited f) counted
  | none =>
    match s.faults.policy with
    | .abort => .halted .aborted (counted.log f.entry)
    | .panic => .unwound (.fault f) (counted.log f.entry)

/-- Goes on with what a look-up found. A name that stands for nothing ends the script. -/
def given (found : Option α) (s : State) (next : α → Outcome β) : Outcome β :=
  match found with
  | some x => next x
  | none => .halted .malformed s

end State

/-! ### Two outcomes side by side -/

namespace Outcome

/-- Two outcomes of one kind, with results and states that stand in the given relations. -/
inductive Related (S : State → State → Prop) (R : α → β → Prop) : Outcome α → Outcome β → Prop where
  | returned {a : α} {b : β} (result : R a b) {s t : State} (h : S s t) :
    Related S R (.returned a s) (.returned b t)
  | unwound (cause : Cause) {s t : State} (h : S s t) :
    Related S R (.unwound cause s) (.unwound cause t)
  | halted (halt : Halt) {s t : State} (h : S s t) :
    Related S R (.halted halt s) (.halted halt t)

namespace Related

variable {S : State → State → Prop} {R : α → β → Prop} {Q : γ → δ → Prop} {out : Outcome α}
  {out' : Outcome β} {s t : State}

/-- Related outcomes stay related when what goes on from related results does. -/
theorem andThen (h : out.Related S R out') {next : α → State → Outcome γ}
    {next' : β → State → Outcome δ}
    (hnext : ∀ a b s t, R a b → S s t → (next a s).Related S Q (next' b t)) :
    (out.andThen next).Related S Q (out'.andThen next') := by
  cases h with
  | returned result h => exact hnext _ _ _ _ result h
  | unwound cause h => exact .unwound cause h
  | halted halt h => exact .halted halt h

/-- Goes on after a result that is the same. -/
theorem thenSame {out out' : Outcome α} (h : out.Related S Eq out')
    {next : α → State → Outcome γ} {next' : α → State → Outcome δ}
    (hnext : ∀ a s t, S s t → (next a s).Related S Q (next' a t)) :
    (out.andThen next).Related S Q (out'.andThen next') :=
  h.andThen fun a _ s t heq => heq ▸ hnext a s t

theorem map (h : out.Related S R out') {f : α → γ} {g : β → δ}
    (hfg : ∀ a b, R a b → Q (f a) (g b)) :
    (out.map f).Related S Q (out'.map g) :=
  h.andThen fun a b _ _ result h => .returned (hfg a b result) h

theorem mapSame {out out' : Outcome α} (h : out.Related S Eq out') (f : α → γ) :
    (out.map f).Related S Eq (out'.map f) :=
  h.map fun _ _ => congrArg f

theorem through (h : out.Related S R out') (via : Convention) :
    (out.through via).Related S R (out'.through via) := by
  cases via with
  | native => rwa [through_native, through_native]
  | foreign =>
    cases h with
    | returned result h => exact .returned result h
    | unwound cause h => exact .halted .aborted h
    | halted halt h => exact .halted halt h

theorem whenUnwinding (h : out.Related S R out') {f g : State → State}
    (hfg : ∀ s t, S s t → S (f s) (g t)) :
    (out.whenUnwinding f).Related S R (out'.whenUnwinding g) := by
  cases h with
  | returned result h => exact .returned result h
  | unwound cause h => exact .unwound cause (hfg _ _ h)
  | halted halt h => exact .halted halt h

theorem given (h : S s t) {found : Option γ} {next : γ → Outcome α} {next' : γ → Outcome β}
    (hnext : ∀ x, found = some x → (next x).Related S R (next' x)) :
    (s.given found next).Related S R (t.given found next') := by
  cases found with
  | some x => exact hnext x rfl
  | none => exact .halted .malformed h

/-- **Faults are reported alike** where they are handled alike and one more fault counted, or one
more line logged, makes no difference. -/
theorem report (hfaults : t.faults = s.faults)
    (hcounted : ∀ faults, S {s with faults} {t with faults})
    (hlog : ∀ s t entry, S s t → S (s.log entry) (t.log entry)) (f : Fault) :
    (s.report f : Outcome α).Related S R (t.report f : Outcome β) := by
  unfold State.report
  rw [hfaults]
  dsimp only
  split
  · exact .unwound _ (hcounted _)
  · exact .halted _ (hcounted _)
  · split
    · exact .halted _ (hlog _ _ _ (hcounted _))
    · exact .unwound _ (hlog _ _ _ (hcounted _))

end Related
end Outcome
end Custody
