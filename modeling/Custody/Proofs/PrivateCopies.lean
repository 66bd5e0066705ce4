import Custody.Proofs.Refusal

/-! Handles with values of their own.

The plain meaning of steps on handles: every handle has a value to itself, a clone copies it, and
a write changes the value of one handle and no other. Nothing is shared here and nothing is
counted; whether a mutable view is given out is taken from the answer to the step. -/
namespace Custody

/-! ### Looking at an image -/

namespace Image

/-- The label of a node. -/
def label? : Image → Option String
  | .node label _ => some label
  | _ => none

/-- What an image shows of itself when it is read, as a value does. -/
def answer? : Image → Option Answer
  | .word n => some (.number n.toNat)
  | .unit => some .nothing
  | .double x => some (.flag x.isNaN)
  | .text t => some (.text t)
  | .integers l => some (.integers l)
  | .node label kids => (kids.mapM label?).map (.node label)

end Image

/-! ### What steps do to copies -/

/-- A value for each handle. -/
abbrev Copies := Bindings Image

namespace Copies

/-- The values of the handles that a literal names move into the new one. -/
def create (c : Copies) (handle : String) (kind : Kind) (literal : Literal) : Copies :=
  match literal.value? kind [] with
  | some v =>
    (literal.childNames.foldl Bindings.remove c).bind handle
      (v.image (literal.childNames.filterMap c.find?))
  | none => c

def clone (c : Copies) (handle copy : String) : Copies :=
  match c.find? handle with
  | some image => c.bind copy image
  | none => c

def write (c : Copies) (handle : String) (literal : Literal) : Copies :=
  match (c.find? handle).bind (·.updated? literal) with
  | some image => c.bind handle image
  | none => c

/-- A handle's value moves to the end of a node. -/
def push (c : Copies) (handle child : String) : Copies :=
  match c.find? handle, c.find? child with
  | some (.node label kids), some kid => (c.remove child).bind handle (.node label (kids ++ [kid]))
  | _, _ => c

/-- Writes through a mutable view take place if there is one. -/
def act (c : Copies) (action : HandleAction) (answer : Answer) : Copies :=
  match action, answer with
  | .create handle kind literal, _ => c.create handle kind literal
  | .clone handle copy, _ => c.clone handle copy
  | .set handle literal, .flag true => c.write handle literal
  | .push handle child, .flag true => c.push handle child
  | _, _ => c

/-- A step that fails does nothing. -/
def after (c : Copies) (step : Step) (result : Result) : Copies :=
  match step, result with
  | .act (.handle action), .answered answer => c.act action answer
  | .makeUnique handle literal, .answered _ => c.write handle literal
  | .dropHandle handle, .answered _ => c.remove handle
  | _, _ => c

/-- The copies after some steps, each with its result. -/
def replay (done : List (Step × Result)) : Copies :=
  done.foldl (fun c entry => c.after entry.1 entry.2) []

/-- What is read through handles. -/
def answer? (c : Copies) : HandleAction → Option Answer
  | .get handle => (c.find? handle).bind (·.answer?)
  | .equal handle other =>
    (c.find? handle).bind fun x => (c.find? other).map fun y => .flag (x.same y)
  | .write handle form =>
    (c.find? handle).bind fun image => (image.written? form).map .text
  | _ => none

end Copies

/-! ### What a step leaves alone -/

/-- The handles whose values an action can change. -/
def HandleAction.changes : HandleAction → List String
  | .create handle _ literal => handle :: literal.childNames
  | .clone _ copy => [copy]
  | .set handle _ => [handle]
  | .push handle child => [handle, child]
  | .intoObject handle _ => [handle]
  | .fromObject _ handle => [handle]
  | _ => []

def Step.changes : Step → List String
  | .act (.handle action) => action.changes
  | .dropHandle handle | .makeUnique handle _ => [handle]
  | _ => []

namespace Copies

variable {c : Copies} {name handle : String}

theorem find?_foldl_remove (names : List String) :
    Bindings.find? (names.foldl Bindings.remove c) name =
      if name ∈ names then none else c.find? name := by
  induction names generalizing c with
  | nil => simp
  | cons n rest ih =>
    rw [List.foldl_cons, ih, Bindings.find?_remove]
    by_cases hname : name = n
    · simp [hname]
    · simp [hname]

theorem find?_create (hname : name ≠ handle) (kind : Kind) (literal : Literal)
    (hnames : name ∉ literal.childNames) :
    (c.create handle kind literal).find? name = c.find? name := by
  unfold create
  split
  · rw [Bindings.find?_bind_of_ne _ _ hname, find?_foldl_remove, if_neg hnames]
  · rfl

theorem find?_clone {copy : String} (hname : name ≠ copy) :
    (c.clone handle copy).find? name = c.find? name := by
  unfold clone
  split
  · exact Bindings.find?_bind_of_ne _ _ hname
  · rfl

theorem find?_write (hname : name ≠ handle) (literal : Literal) :
    (c.write handle literal).find? name = c.find? name := by
  unfold write
  split
  · exact Bindings.find?_bind_of_ne _ _ hname
  · rfl

theorem find?_push {child : String} (hname : name ≠ handle) (hchild : name ≠ child) :
    (c.push handle child).find? name = c.find? name := by
  unfold push
  split
  · rw [Bindings.find?_bind_of_ne _ _ hname, Bindings.find?_remove_of_ne _ hchild]
  · rfl

/-- **A step changes the copies of no handle but those it works on.** -/
theorem find?_after {step : Step} (result : Result) (h : name ∉ step.changes) :
    (c.after step result).find? name = c.find? name := by
  unfold after
  split
  · next action answer =>
    unfold act
    split
    · next handle kind literal =>
      simp only [Step.changes, HandleAction.changes, List.mem_cons, not_or] at h
      exact find?_create h.1 kind literal h.2
    · next handle copy =>
      simp only [Step.changes, HandleAction.changes, List.mem_singleton] at h
      exact find?_clone h
    · next handle literal =>
      simp only [Step.changes, HandleAction.changes, List.mem_singleton] at h
      exact find?_write h literal
    · next handle child =>
      simp only [Step.changes, HandleAction.changes, List.mem_cons, List.not_mem_nil,
        or_false, not_or] at h
      exact find?_push h.1 h.2
    · rfl
  · next handle literal answer =>
    simp only [Step.changes, List.mem_singleton] at h
    exact find?_write h literal
  · next handle answer =>
    simp only [Step.changes, List.mem_singleton] at h
    exact Bindings.find?_remove_of_ne _ h
  · rfl

end Copies
end Custody
