import Custody.Action.Handle
import Custody.Action.Object
import Custody.Action.Setting

/-! The machine that runs a step.

Releasing the last reference to an object runs its finalizer, which runs steps of
its own: what remains to be done stands on a stack of frames. A transition either
starts something (`perform`, `release`), passes an answer to the frame on top, or
unwinds that frame. Frames that guard something do their work on both ways: a
teardown is finished, an attempt turns unwinding into an answer, and a barrier
stops the process where unwinding would leave a foreign call. -/
namespace Custody

/-- What is still to be done once the frames above are through. -/
inductive Frame where
  /-- The other repetitions of a call. -/
  | repeating (call : CountCall) (name : Option String) (times : Nat) (via : Convention)
  /-- The other steps of a routine. -/
  | routine (label : String) (rest : List Step)
  | teardown (t : Teardown)
  | barrier
  | attempt
  /-- The other calls of a thread, the threads behind it, and how those before it ended. -/
  | thread (rest : List CountCall) (object : ObjectId) (waiting : List (List CountCall))
      (ended : List Bool)
  /-- The other handles of a list that is dropped. With a cause one of those before them has
  unwound. -/
  | dropping (rest : List ObjectId) (cause : Option Cause)
  /-- Unwinding that waits for a cleanup, which may not be unwound itself. -/
  | cleaning (cause : Cause)
  /-- The assignment to a fresh copy, once the old reference is gone. -/
  | assigning (fresh : ObjectId) (literal : Literal)

inductive Control where
  | perform (step : Step)
  | release (object : ObjectId)
  | answer (answer : Answer)
  | unwind (cause : Cause)
  | halt (halt : Halt)

structure Machine where
  state : State
  control : Control
  stack : List Frame

namespace Machine

/-- The end of an operation that started nothing. -/
def settle (out : Outcome Answer) (stack : List Frame) : Machine :=
  match out with
  | .returned answer s => ⟨s, .answer answer, stack⟩
  | .unwound cause s => ⟨s, .unwind cause, stack⟩
  | .halted halt s => ⟨s, .halt halt, stack⟩

/-! ### Calls, repeated and by threads -/

def call (c : CountCall) (o : ObjectId) (s : State) (stack : List Frame) : Machine :=
  match c with
  | .retain => settle ((s.retain o).map fun _ => .done) stack
  | .release => ⟨s, .release o, stack⟩

/-- A call on a named object. An exported function may be handed null instead. -/
def callNamed (c : CountCall) (name : Option String) (s : State) (stack : List Frame) : Machine :=
  match name with
  | none => settle (s.report (.nullInstance c.exportName)) stack
  | some name =>
    match s.names.objects.find? name with
    | some o => call c o s stack
    | none => ⟨s, .halt .malformed, stack⟩

/-- The frames below something that is called by convention: a foreign call stands behind a
barrier. -/
def guarded (via : Convention) (stack : List Frame) : List Frame :=
  match via with
  | .native => stack
  | .foreign => .barrier :: stack

/-- One of several calls. -/
def repeatCall (c : CountCall) (name : Option String) (via : Convention) (s : State)
    (stack : List Frame) : Nat → Machine
  | 0 => ⟨s, .answer .done, stack⟩
  | times + 1 => callNamed c name s (guarded via (.repeating c name times via :: stack))

/-- The next call of the first thread that has one. Threads take turns as a whole: what they do to
the counts they share does not depend on the order. -/
def runThreads (o : ObjectId) (s : State) (stack : List Frame) :
    List (List CountCall) → List Bool → Machine
  | [], ended => ⟨s, .answer (.flags ended), stack⟩
  | [] :: waiting, ended => runThreads o s stack waiting (ended ++ [true])
  | (c :: rest) :: waiting, ended => call c o s (.thread rest o waiting ended :: stack)

/-- The calls of one thread. -/
def threadCalls (retains releases : Nat) : Nat → List CountCall
  | 0 => []
  | rounds + 1 =>
    List.replicate retains .retain ++ List.replicate releases .release ++
      threadCalls retains releases rounds

/-! ### Finalizers -/

def continueRoutine (label : String) (s : State) (stack : List Frame) : List Step → Machine
  | [] => ⟨s.observe (.left label), .answer .done, stack⟩
  | step :: rest => ⟨s, .perform step, .routine label rest :: stack⟩

def continueDropping (cause : Option Cause) (s : State) (stack : List Frame) :
    List ObjectId → Machine
  | [] =>
    match cause with
    | none => ⟨s, .answer .done, stack⟩
    | some cause => ⟨s, .unwind cause, stack⟩
  | o :: rest => ⟨s, .release o, .dropping rest cause :: stack⟩

/-- Drops the value in a payload: a node tells of it and lets go of its children in order. -/
def dropValue (o : ObjectId) (s : State) (stack : List Frame) : Machine :=
  let emptied := s.onHeap (·.setContents o .remains)
  match s.heap.value? o with
  | some (.node label children) =>
    continueDropping none (emptied.observe (.dropped label)) stack children
  | _ => ⟨emptied, .answer .done, stack⟩

/-- Runs a finalizer under its object's lock. -/
def finalize (t : Teardown) (finalizer : Option Finalizer) (s : State) (stack : List Frame) :
    Machine :=
  let stack := Frame.teardown t :: stack
  match finalizer with
  | none => ⟨s, .answer .done, stack⟩
  | some (.routine r) =>
    let locked := (s.heap.governing? t.object).map (·.locked)
    continueRoutine r.label (s.observe (.entered r.label t.object locked))
      (guarded r.convention stack) r.body
  | some .dropValue => dropValue t.object s (.barrier :: stack)

def release (o : ObjectId) (s : State) (stack : List Frame) : Machine :=
  match s.release o with
  | .returned none s => ⟨s, .answer .done, stack⟩
  | .returned (some (t, finalizer)) s => finalize t finalizer s stack
  | .unwound cause s => ⟨s, .unwind cause, stack⟩
  | .halted halt s => ⟨s, .halt halt, stack⟩

/-! ### Copy on write -/

/-- The answer to an assignment. -/
def assigned (o : ObjectId) (literal : Literal) (fresh : Bool) (s : State) : Outcome Answer :=
  s.given (s.assign o literal) fun s => .returned (.made fresh) s

/-- Gives a handle a copy of its value and then drops the old reference. The copy holds references
of its own to the children; if one of them cannot be had, the others are dropped again. -/
def copyOnWrite (handle : String) (o : ObjectId) (literal : Literal) (s : State)
    (stack : List Frame) : Machine :=
  match s.heap.value? o with
  | none => ⟨s, .halt .malformed, stack⟩
  | some v =>
    match s.retainEach v.children with
    | (retained, .unwound cause s) => continueDropping none s (.cleaning cause :: stack) retained
    | (_, .halted halt s) => ⟨s, .halt halt, stack⟩
    | (_, .returned _ s) =>
      match s.hold v with
      | .returned fresh s =>
        ⟨s.nameHandle handle fresh, .release o, .assigning fresh literal :: stack⟩
      | .unwound cause s => ⟨s, .unwind cause, stack⟩
      | .halted halt s => ⟨s, .halt halt, stack⟩

def makeUnique (handle : String) (o : ObjectId) (literal : Literal) (s : State)
    (stack : List Frame) : Machine :=
  match s.isUnique o with
  | .returned true s => settle (assigned o literal false s) stack
  | .returned false s => copyOnWrite handle o literal s stack
  | .unwound cause s => ⟨s, .unwind cause, stack⟩
  | .halted halt s => ⟨s, .halt halt, stack⟩

/-! ### Steps -/

def act (s : State) : Action → Outcome Answer
  | .object action => s.performObject action
  | .log action =>
    let (answer, s) := s.performLog action
    .returned answer s
  | .setting action => s.performSetting action
  | .handle action => s.performHandle action
  | .panic message => .unwound (.panic message) s

/-- The written form of a finalizer that may be absent. -/
def finalizerText : Option (Routine Step) → String
  | none => "None"
  | some r =>
    match r.convention with
    | .native => "Some(Closure(..))"
    | .foreign => "Some(Extern(<fn>))"

/-- What a foreign allocation hands over: it has no way to pass a native routine. -/
def passedRoutine (via : Convention) (routine : Option (Routine Step)) :
    Option (Routine Step) :=
  match via with
  | .native => routine
  | .foreign => routine.filter (·.convention == .foreign)

theorem passedRoutine_eq_or (via : Convention) (routine : Option (Routine Step)) :
    passedRoutine via routine = routine ∨ passedRoutine via routine = none := by
  cases via with
  | native => exact .inl rfl
  | foreign =>
    cases h : routine.filter (·.convention == .foreign) with
    | none => exact .inr h
    | some r => exact .inl (h.trans (Option.filter_eq_some_iff.1 h).1.symm)

/-- What a foreign allocation does not hand over weighs nothing. -/
theorem passedRoutine_le {weight : Option (Routine Step) → Nat} (hnone : weight none = 0)
    (via : Convention) (routine : Option (Routine Step)) :
    weight (passedRoutine via routine) ≤ weight routine := by
  obtain hall | hlost := passedRoutine_eq_or via routine
  · exact Nat.le_of_eq (congrArg weight hall)
  · rw [hlost, hnone]
    exact Nat.zero_le _

/-- The answer to a creation: where the payload lies in its region. -/
def created (name : String) (o : ObjectId) (s : State) : Outcome Answer :=
  .returned (.created (Layout.payloadOf 0 % Layout.regionAlign)) (s.nameObject name o)

def perform (s : State) (stack : List Frame) : Step → Machine
  | .allocate name size routine provider via =>
    let finalizer := (passedRoutine via routine).map Finalizer.routine
    let out := s.given (s.provider? provider) fun provider =>
      (s.allocate provider size (.bytes []) finalizer).andThen (created name)
    settle (out.through via) stack
  | .assemble name size routine =>
    let (o, s) := s.assemble size (routine.map .routine)
    settle (created name o s) stack
  | .reinstall name routine =>
    settle (s.withObject name fun o => .returned .done (s.reinstall o (routine.map .routine))) stack
  | .newCell name routine =>
    let (c, heap) := s.heap.addCell (routine.map .routine)
    ⟨{s with heap}.nameCell name c, .answer .done, stack⟩
  | .describe routine =>
    ⟨s.discard (routine.map .routine), .answer (.text (finalizerText routine)), stack⟩
  | .call c name times via => repeatCall c name via s stack times
  | .race name threads retains releases rounds =>
    match s.names.objects.find? name with
    | some o =>
      runThreads o s stack (List.replicate threads (threadCalls retains releases rounds)) []
    | none => ⟨s, .halt .malformed, stack⟩
  | .dropHandle handle =>
    match s.names.handles.find? handle with
    | some o => ⟨s.forgetHandle handle, .release o, stack⟩
    | none => ⟨s, .halt .malformed, stack⟩
  | .makeUnique handle literal =>
    match s.names.handles.find? handle with
    | some o => makeUnique handle o literal s stack
    | none => ⟨s, .halt .malformed, stack⟩
  | .attempt step => ⟨s, .perform step, .attempt :: stack⟩
  | .act action => settle (act s action) stack

/-! ### Frames -/

/-- The frame on top receives an answer. -/
def resume (answer : Answer) (s : State) (stack : List Frame) : Frame → Machine
  | .repeating c name times via => repeatCall c name via s stack times
  | .routine label rest => continueRoutine label (s.observe (.stepped answer)) stack rest
  | .teardown t => ⟨s.finish t, .answer .done, stack⟩
  | .barrier => ⟨s, .answer answer, stack⟩
  | .attempt => ⟨s, .answer (.succeeded answer), stack⟩
  | .thread rest o waiting ended => runThreads o s stack (rest :: waiting) ended
  | .dropping rest cause => continueDropping cause s stack rest
  | .cleaning cause => ⟨s, .unwind cause, stack⟩
  | .assigning fresh literal => settle (assigned fresh literal true s) stack

/-- The frame on top is unwound. A list of handles that is being dropped drops the rest first, but
a second cause while it does so stops the process, and so does any cause in a cleanup. -/
def unwind (cause : Cause) (s : State) (stack : List Frame) : Frame → Machine
  | .repeating _ _ _ _ => ⟨s, .unwind cause, stack⟩
  | .routine _ _ => ⟨s, .unwind cause, stack⟩
  | .teardown t => ⟨s.finish t, .unwind cause, stack⟩
  | .barrier => ⟨s, .halt .aborted, stack⟩
  | .attempt => ⟨s, .answer (.failed cause), stack⟩
  | .thread _ o waiting ended => runThreads o s stack waiting (ended ++ [false])
  | .dropping rest none => continueDropping (some cause) s stack rest
  | .dropping _ (some _) => ⟨s, .halt .aborted, stack⟩
  | .cleaning _ => ⟨s, .halt .aborted, stack⟩
  | .assigning _ _ => ⟨s, .unwind cause, stack⟩

/-! ### Transitions -/

/-- The machine after a transition, if it has not come to rest. -/
def next? (m : Machine) : Option Machine :=
  match m.control, m.stack with
  | .perform step, stack => some (perform m.state stack step)
  | .release o, stack => some (release o m.state stack)
  | .answer answer, frame :: stack => some (resume answer m.state stack frame)
  | .unwind cause, frame :: stack => some (unwind cause m.state stack frame)
  | .answer _, [] => none
  | .unwind _, [] => none
  | .halt _, _ => none

/-- At most `n` transitions. -/
def advance (m : Machine) : Nat → Machine
  | 0 => m
  | n + 1 =>
    match m.next? with
    | some m => m.advance n
    | none => m

/-- A machine about to run a step. -/
def start (step : Step) (s : State) : Machine :=
  ⟨s, .perform step, []⟩

theorem advance_of_rest {m : Machine} (h : m.next? = none) (n : Nat) : m.advance n = m := by
  cases n with
  | zero => rfl
  | succ n => simp [advance, h]

theorem advance_add (m : Machine) (a b : Nat) : m.advance (a + b) = (m.advance a).advance b := by
  induction a generalizing m with
  | zero => rw [Nat.zero_add]; rfl
  | succ a ih =>
    rw [Nat.succ_add]
    cases h : m.next? with
    | none => simp [advance_of_rest h]
    | some m' => simpa [advance, h] using ih m'

end Machine
end Custody
