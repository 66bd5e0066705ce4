import Custody.Proofs.Locking
import Custody.Session

/-! The ideal of counting: objects without cells, locks and memory.

Of an object there is only where it stands: it has a count, a natural number, or it is
being torn down, or it has been deallocated. An ideal machine runs the same steps on
that, and calls and finalizers nest as they should. Two things it is told: how a fault
unwinds, and whether the process ends over an allocation, which is up to the allocators.
An object begins with a count of zero, counts up and down in steps of one, goes from one
into its teardown and from there for good (`follows_stage`); no count passes the largest
one (`count_le`). -/
namespace Custody

/-! ### Steps that count -/

mutual

/-- A step that allocates, counts or panics, with finalizers that do no more than that. -/
def Step.counting : Step → Bool
  | .allocate _ _ routine _ _ => routineCounting routine
  | .call _ _ _ _ => true
  | .attempt step => step.counting
  | .act (.object (.count _ _)) => true
  | .act (.object (.isUnique _ _)) => true
  | .act (.panic _) => true
  | _ => false

def routineCounting : Option (Routine Step) → Bool
  | none => true
  | some routine => Routine.counting routine

def Routine.counting : Routine Step → Bool
  | ⟨_, _, body⟩ => bodyCounting body

def bodyCounting : List Step → Bool
  | [] => true
  | step :: rest => step.counting && bodyCounting rest

end

theorem routineCounting_some (r : Routine Step) :
    routineCounting (some r) = bodyCounting r.body := by
  cases r
  rw [routineCounting, Routine.counting]

namespace Ideal

inductive Standing where
  | counted (n : Nat)
  | going
  | gone
  deriving DecidableEq, Repr

/-- The objects by number: where each stands, and the routine that it was created with. -/
structure World where
  standings : List Standing := []
  routines : List (Option (Routine Step)) := []
  names : Bindings ObjectId := []

inductive Frame where
  | repeating (call : CountCall) (name : Option String) (times : Nat) (via : Convention)
  | routine (label : String) (rest : List Step)
  /-- The object is deallocated once the frames above are through. -/
  | closing (o : ObjectId)
  | barrier
  | attempt

structure Machine where
  world : World
  control : Control
  stack : List Frame

namespace World

def put (o : ObjectId) (standing : Standing) (w : World) : World :=
  {w with standings := w.standings.set o standing}

def routine? (w : World) (o : ObjectId) : Option (Routine Step) :=
  w.routines[o]?.join

/-- A new object, whose count is zero. -/
def create (name : String) (routine : Option (Routine Step)) (w : World) : World where
  standings := w.standings ++ [.counted 0]
  routines := w.routines ++ [routine]
  names := w.names.bind name w.standings.length

variable {w : World} {o p : ObjectId} {standing : Standing}

/-- A change to one object leaves the others where they stand. -/
theorem getElem?_put :
    (w.put o standing).standings[p]? =
      if o = p then w.standings[p]?.map fun _ => standing else w.standings[p]? := by
  unfold put
  simp only [List.getElem?_set]
  by_cases h : o = p
  · subst h
    by_cases hlt : o < w.standings.length
    · simp [hlt]
    · simp [hlt]
  · simp [h]

/-- A new object is the last one, and stands at no reference. -/
theorem getElem?_create (name : String) (routine : Option (Routine Step)) :
    (w.create name routine).standings[p]? =
      if p = w.standings.length then some (.counted 0) else w.standings[p]? :=
  getElem?_snoc _ _ _

theorem routine?_create (name : String) (routine : Option (Routine Step)) :
    (w.create name routine).routine? p =
      if p = w.routines.length then routine else w.routine? p := by
  unfold routine? create
  rw [getElem?_snoc]
  split <;> rfl

end World

variable (raise : Fault → Cause)

/-! ### Operations -/

namespace Machine

/-- Goes on with an object's count. Whoever waits for an object that is being torn down waits for
himself. -/
def counted (o : ObjectId) (w : World) (stack : List Frame) (next : Nat → Machine) : Machine :=
  match w.standings[o]? with
  | some (.counted n) => next n
  | some .going => ⟨w, .halt .blocked, stack⟩
  | some .gone | none => ⟨w, .unwind (raise (.useAfterFree (.object o))), stack⟩

def retain (o : ObjectId) (w : World) (stack : List Frame) : Machine :=
  counted raise o w stack fun n =>
    if n < maxCount.toNat then ⟨w.put o (.counted (n + 1)), .answer .done, stack⟩
    else ⟨w, .unwind (raise (.retainOverflow (.object o) maxCount)), stack⟩

def guarded (via : Convention) (stack : List Frame) : List Frame :=
  match via with
  | .native => stack
  | .foreign => .barrier :: stack

def continueRoutine (label : String) (w : World) (stack : List Frame) : List Step → Machine
  | [] => ⟨w, .answer .done, stack⟩
  | step :: rest => ⟨w, .perform step, .routine label rest :: stack⟩

/-- Starts to tear an object down: its routine runs, and then it is gone. -/
def close (o : ObjectId) (w : World) (stack : List Frame) : Machine :=
  match w.routine? o with
  | none => ⟨w.put o .going, .answer .done, .closing o :: stack⟩
  | some r =>
    continueRoutine r.label (w.put o .going) (guarded r.convention (.closing o :: stack)) r.body

def release (o : ObjectId) (w : World) (stack : List Frame) : Machine :=
  counted raise o w stack fun
    | 0 => ⟨w, .unwind (raise (.releaseUnderflow (.object o))), stack⟩
    | 1 => close o w stack
    | n + 2 => ⟨w.put o (.counted (n + 1)), .answer .done, stack⟩

/-- Goes on with a named object. -/
def named (exportName : String) (name : Option String) (w : World) (stack : List Frame)
    (next : ObjectId → Machine) : Machine :=
  match name with
  | none => ⟨w, .unwind (raise (.nullInstance exportName)), stack⟩
  | some name =>
    match w.names.find? name with
    | some o => next o
    | none => ⟨w, .halt .malformed, stack⟩

def call (c : CountCall) (o : ObjectId) (w : World) (stack : List Frame) : Machine :=
  match c with
  | .retain => retain raise o w stack
  | .release => ⟨w, .release o, stack⟩

def repeatCall (c : CountCall) (name : Option String) (via : Convention) (w : World)
    (stack : List Frame) : Nat → Machine
  | 0 => ⟨w, .answer .done, stack⟩
  | times + 1 =>
    let stack := guarded via (.repeating c name times via :: stack)
    named raise c.exportName name w stack fun o => call raise c o w stack

/-- The end of an operation called by convention. -/
def through (via : Convention) (m : Machine) : Machine :=
  match via, m.control with
  | .foreign, .unwind _ => {m with control := .halt .aborted}
  | _, _ => m

/-- A question about an object's count. -/
def ask (exportName : String) (name : Option String) (via : Convention) (answer : Nat → Answer)
    (w : World) (stack : List Frame) : Machine :=
  through via <| named raise exportName name w stack fun o =>
    counted raise o w stack fun n => ⟨w, .answer (answer n), stack⟩

/-- The answer to whether a reference is the only one, which foreign callers get as a number. -/
def onlyOne (via : Convention) (n : Nat) : Answer :=
  match via with
  | .native => .flag (decide (n = 1))
  | .foreign => .number (if n = 1 then 1 else 0)

/-- A creation, unless the process ends over it. -/
def allocate (ends : Option Halt) (name : String) (size : UInt64)
    (routine : Option (Routine Step)) (via : Convention) (w : World) (stack : List Frame) :
    Machine :=
  through via <|
    match ends, Layout.ofPayload? size with
    | some halt, _ => ⟨w, .halt halt, stack⟩
    | none, none => ⟨w, .unwind (raise (.layoutOverflow size)), stack⟩
    | none, some _ => ⟨w.create name (Custody.Machine.passedRoutine via routine),
        .answer (.created (Layout.payloadOf 0 % Layout.regionAlign)), stack⟩

/-! ### Transitions -/

def perform (ends : Option Halt) (w : World) (stack : List Frame) : Step → Machine
  | .allocate name size routine _ via => allocate raise ends name size routine via w stack
  | .call c name times via => repeatCall raise c name via w stack times
  | .attempt step => ⟨w, .perform step, .attempt :: stack⟩
  | .act (.object (.count name via)) =>
    ask raise "rcbox_retain_count" name via (fun n => .number n) w stack
  | .act (.object (.isUnique name via)) =>
    ask raise "rcbox_is_uniquely_referenced" name via (onlyOne via) w stack
  | .act (.panic message) => ⟨w, .unwind (.panic message), stack⟩
  | _ => ⟨w, .halt .malformed, stack⟩

def resume (answer : Answer) (w : World) (stack : List Frame) : Frame → Machine
  | .repeating c name times via => repeatCall raise c name via w stack times
  | .routine label rest => continueRoutine label w stack rest
  | .closing o => ⟨w.put o .gone, .answer .done, stack⟩
  | .barrier => ⟨w, .answer answer, stack⟩
  | .attempt => ⟨w, .answer (.succeeded answer), stack⟩

def unwind (cause : Cause) (w : World) (stack : List Frame) : Frame → Machine
  | .repeating _ _ _ _ => ⟨w, .unwind cause, stack⟩
  | .routine _ _ => ⟨w, .unwind cause, stack⟩
  | .closing o => ⟨w.put o .gone, .unwind cause, stack⟩
  | .barrier => ⟨w, .halt .aborted, stack⟩
  | .attempt => ⟨w, .answer (.failed cause), stack⟩

def next? (ends : Option Halt) (m : Machine) : Option Machine :=
  match m.control, m.stack with
  | .perform step, stack => some (perform raise ends m.world stack step)
  | .release o, stack => some (release raise o m.world stack)
  | .answer answer, frame :: stack => some (resume raise answer m.world stack frame)
  | .unwind cause, frame :: stack => some (unwind cause m.world stack frame)
  | .answer _, [] => none
  | .unwind _, [] => none
  | .halt _, _ => none

end Machine

/-! ### Sessions -/

inductive Position where
  | between (w : World)
  | during (m : Machine)

structure Stage where
  results : List Result
  rest : List Step
  position : Position

namespace Stage

def world (st : Stage) : World :=
  match st.position with
  | .between w => w
  | .during m => m.world

def next? (ends : Option Halt) : Stage → Option Stage
  | ⟨_, [], .between _⟩ => none
  | ⟨results, step :: rest, .between w⟩ => some ⟨results, rest, .during ⟨w, .perform step, []⟩⟩
  | ⟨results, rest, .during m⟩ =>
    match m.next? raise ends with
    | some m => some ⟨results, rest, .during m⟩
    | none =>
      match m.control with
      | .answer answer => some ⟨results ++ [.answered answer], rest, .between m.world⟩
      | .unwind cause => some ⟨results ++ [.failed cause], rest, .between m.world⟩
      | .halt _ | .perform _ | .release _ => none

end Stage

/-- Where the ideal of a session stands after `n` transitions. -/
def stage (ends : Nat → Option Halt) (steps : List Step) : Nat → Stage
  | 0 => ⟨[], steps, .between {}⟩
  | n + 1 => ((stage ends steps n).next? raise (ends n)).getD (stage ends steps n)

/-! ### Where objects can go -/

/-- What one transition can do to where an object stands. -/
inductive Standing.Follows : Option Standing → Option Standing → Prop where
  | same (standing : Option Standing) : Follows standing standing
  | create : Follows none (some (.counted 0))
  | retain {n : Nat} (h : n < maxCount.toNat) :
    Follows (some (.counted n)) (some (.counted (n + 1)))
  | release {n : Nat} (h : 0 < n) : Follows (some (.counted (n + 1))) (some (.counted n))
  | close : Follows (some (.counted 1)) (some .going)
  | closed : Follows (some .going) (some .gone)

def Frame.closing? : Frame → Option ObjectId
  | .closing o => some o
  | _ => none

/-- The objects being torn down, innermost first. -/
def closings (stack : List Frame) : List ObjectId :=
  stack.filterMap Frame.closing?

@[simp] theorem closings_guarded (via : Convention) (stack : List Frame) :
    closings (Machine.guarded via stack) = closings stack := by
  cases via <;> rfl

/-- One change to where objects stand, with the teardowns before it and after. -/
inductive World.Turns (w : World) : List ObjectId → World → List ObjectId → Prop where
  | same (os : List ObjectId) : Turns w os w os
  | retain (os : List ObjectId) (o : ObjectId) {n : Nat} (h : w.standings[o]? = some (.counted n))
      (hn : n < maxCount.toNat) : Turns w os (w.put o (.counted (n + 1))) os
  | release (os : List ObjectId) (o : ObjectId) {n : Nat}
      (h : w.standings[o]? = some (.counted (n + 1))) (hn : 0 < n) :
    Turns w os (w.put o (.counted n)) os
  | close (os : List ObjectId) (o : ObjectId) (h : w.standings[o]? = some (.counted 1)) :
    Turns w os (w.put o .going) (o :: os)
  | closed (os : List ObjectId) (o : ObjectId) : Turns w (o :: os) (w.put o .gone) os
  | create (os : List ObjectId) (name : String) (routine : Option (Routine Step)) :
    Turns w os (w.create name routine) os

/-! ### What a transition does -/

namespace Machine

variable {raise} {w : World} {os : List ObjectId} {stack : List Frame} {o : ObjectId}
  {m m' : Machine} {ends : Option Halt}

/-- The machine has come from a world and from teardowns by one change. -/
def From (m : Machine) (w : World) (os : List ObjectId) : Prop :=
  w.Turns os m.world (closings m.stack)

theorem from_of_idle (control : Control) : From ⟨w, control, stack⟩ w (closings stack) :=
  .same _

/-- Only a counted object is gone on with, and the others report faults. -/
theorem from_counted {next : Nat → Machine}
    (h : ∀ n, w.standings[o]? = some (.counted n) → (next n).From w (closings stack)) :
    (counted raise o w stack next).From w (closings stack) := by
  unfold counted
  split
  · next n hn => exact h n hn
  · exact from_of_idle _
  · exact from_of_idle _
  · exact from_of_idle _

theorem from_retain : (retain raise o w stack).From w (closings stack) := by
  refine from_counted fun n hn => ?_
  split
  · next hlt => exact .retain _ o hn hlt
  · exact from_of_idle _

theorem from_continueRoutine (label : String) (steps : List Step) :
    (continueRoutine label w stack steps).From w (closings stack) := by
  cases steps <;> exact .same _

/-- The last release closes the object, whose teardown is then the innermost. -/
theorem from_close (h : w.standings[o]? = some (.counted 1)) :
    (close o w stack).From w (closings stack) := by
  unfold close
  split
  · exact .close _ o h
  · next r _ =>
    have hclosings : closings (guarded r.convention (.closing o :: stack)) =
        o :: closings stack :=
      closings_guarded _ _
    unfold From
    cases r.body with
    | nil =>
      simp only [continueRoutine, hclosings]
      exact .close _ o h
    | cons step rest =>
      show w.Turns _ (w.put o .going) (closings (guarded r.convention (.closing o :: stack)))
      rw [hclosings]
      exact .close _ o h

theorem from_release : (release raise o w stack).From w (closings stack) := by
  refine from_counted fun n hn => ?_
  split
  · exact from_of_idle _
  · exact from_close hn
  · next n => exact .release _ o hn (Nat.succ_pos n)

theorem from_named {exportName : String} {name : Option String} {next : ObjectId → Machine}
    (h : ∀ o, (next o).From w (closings stack)) :
    (named raise exportName name w stack next).From w (closings stack) := by
  unfold named
  split
  · exact from_of_idle _
  · split
    · exact h _
    · exact from_of_idle _

theorem from_repeatCall (c : CountCall) (name : Option String) (via : Convention) (times : Nat) :
    (repeatCall raise c name via w stack times).From w (closings stack) := by
  cases times with
  | zero => exact from_of_idle _
  | succ times =>
    have hframes : closings (guarded via (.repeating c name times via :: stack)) =
        closings stack :=
      closings_guarded via _
    rw [← hframes]
    refine from_named fun o => ?_
    cases c with
    | retain => exact from_retain
    | release => exact from_of_idle _

theorem from_through (via : Convention) (h : m.From w os) : (through via m).From w os := by
  unfold through
  split
  · exact h
  · exact h

theorem from_ask (exportName : String) (name : Option String) (via : Convention)
    (answer : Nat → Answer) :
    (ask raise exportName name via answer w stack).From w (closings stack) :=
  from_through via (from_named fun _ => from_counted fun _ _ => from_of_idle _)

/-- A step makes one change at most before it starts or ends something. -/
theorem from_perform (step : Step) :
    (perform raise ends w stack step).From w (closings stack) := by
  unfold perform
  split
  · refine from_through _ ?_
    split
    · exact from_of_idle _
    · exact from_of_idle _
    · exact .create _ _ _
  · exact from_repeatCall _ _ _ _
  · exact .same _
  · exact from_ask _ _ _ _
  · exact from_ask _ _ _ _
  · exact from_of_idle _
  · exact from_of_idle _

/-- A teardown that is answered leaves its object gone. -/
theorem from_resume (answer : Answer) (frame : Frame) :
    (resume raise answer w stack frame).From w (closings (frame :: stack)) := by
  cases frame with
  | repeating c name times via => exact from_repeatCall c name via times
  | routine label rest => exact from_continueRoutine label rest
  | closing o => exact .closed _ o
  | barrier => exact from_of_idle _
  | attempt => exact from_of_idle _

/-- A teardown that is unwound leaves its object gone as well. -/
theorem from_unwind (cause : Cause) (frame : Frame) :
    (unwind cause w stack frame).From w (closings (frame :: stack)) := by
  cases frame with
  | closing o => exact .closed _ o
  | _ => exact from_of_idle _

/-- **A transition makes one change to where objects stand.** -/
theorem from_next? (h : m.next? raise ends = some m') : m'.From m.world (closings m.stack) := by
  obtain ⟨w, control, stack⟩ := m
  cases control with
  | perform step =>
    cases h
    exact from_perform step
  | release o =>
    cases h
    exact from_release
  | halt halt => cases h
  | answer answer =>
    cases stack with
    | nil => cases h
    | cons frame stack =>
      cases h
      exact from_resume answer frame
  | unwind cause =>
    cases stack with
    | nil => cases h
    | cons frame stack =>
      cases h
      exact from_unwind cause frame

end Machine

/-! ### What changes keep -/

namespace World

variable {w w' : World} {o p : ObjectId} {os os' : List ObjectId} {standing : Standing}

/-- The teardowns under way are of different objects, each of which is being torn down. -/
structure Closes (w : World) (os : List ObjectId) : Prop where
  going (o : ObjectId) (mem : o ∈ os) : w.standings[o]? = some .going
  nodup : os.Nodup

theorem follows_put {found : Standing} (h : w.standings[o]? = some found)
    (hf : Standing.Follows (some found) (some standing)) :
    Standing.Follows w.standings[p]? (w.put o standing).standings[p]? := by
  rw [getElem?_put]
  split
  · next hop =>
    subst hop
    rw [h]
    exact hf
  · exact .same _

/-- A change takes no object anywhere but where it can go: a closing one comes to be gone, since its
teardown is under way. -/
theorem Turns.follows (h : w.Turns os w' os') (hw : w.Closes os) (p : ObjectId) :
    Standing.Follows w.standings[p]? w'.standings[p]? := by
  cases h with
  | same => exact .same _
  | retain _ o h hn => exact follows_put h (.retain hn)
  | release _ o h hn => exact follows_put h (.release hn)
  | close _ o h => exact follows_put h .close
  | closed _ o => exact follows_put (hw.going o List.mem_cons_self) .closed
  | create _ name routine =>
    rw [getElem?_create]
    split
    · next hp =>
      rw [hp, List.getElem?_eq_none (Nat.le_refl _)]
      exact .create
    · exact .same _

/-- Teardowns stay those of different objects: one is begun for an object that was counted. -/
theorem Turns.closes (h : w.Turns os w' os') (hw : w.Closes os) : w'.Closes os' := by
  have hput {o p : ObjectId} {standing found : Standing} (h : w.standings[o]? = some found)
      (hfound : found ≠ .going) (hp : p ∈ os) : (w.put o standing).standings[p]? = some .going := by
    have hgoing := hw.going p hp
    have hop : o ≠ p := by
      rintro rfl
      rw [h] at hgoing
      exact hfound (Option.some.inj hgoing)
    rw [getElem?_put, if_neg hop]
    exact hgoing
  cases h with
  | same => exact hw
  | retain _ o h _ => exact ⟨fun p hp => hput h nofun hp, hw.nodup⟩
  | release _ o h _ => exact ⟨fun p hp => hput h nofun hp, hw.nodup⟩
  | close _ o h =>
    refine ⟨fun p hp => ?_, List.nodup_cons.2 ⟨fun ho => ?_, hw.nodup⟩⟩
    · rcases List.mem_cons.1 hp with rfl | hp
      · rw [getElem?_put, if_pos rfl, h]
        rfl
      · exact hput h nofun hp
    · have := h.symm.trans (hw.going o ho)
      cases this
  | closed _ o =>
    obtain ⟨ho, hnodup⟩ := List.nodup_cons.1 hw.nodup
    refine ⟨fun p hp => ?_, hnodup⟩
    have hop : o ≠ p := fun hop => ho (hop ▸ hp)
    rw [getElem?_put, if_neg hop]
    exact hw.going p (List.mem_cons_of_mem _ hp)
  | create _ name routine =>
    refine ⟨fun p hp => ?_, hw.nodup⟩
    have hgoing := hw.going p hp
    have hlt : p < w.standings.length := (List.getElem?_eq_some_iff.1 hgoing).1
    rw [getElem?_create, if_neg (Nat.ne_of_lt hlt)]
    exact hgoing

end World

/-! ### Stages -/

namespace Stage

def closings (st : Stage) : List ObjectId :=
  match st.position with
  | .between _ => []
  | .during m => Ideal.closings m.stack

end Stage

variable {raise} {ends : Nat → Option Halt} {steps : List Step}

theorem turns_next? {st st' : Stage} {ends : Option Halt} (h : st.next? raise ends = some st') :
    st.world.Turns st.closings st'.world st'.closings := by
  obtain ⟨results, rest, position⟩ := st
  cases position with
  | between w =>
    cases rest with
    | nil => cases h
    | cons step rest =>
      cases h
      exact .same _
  | during m =>
    simp only [Stage.next?] at h
    split at h
    · next m' hm =>
      cases h
      exact Machine.from_next? hm
    · next hm =>
      obtain ⟨w, control, stack⟩ := m
      cases control with
      | answer answer =>
        cases stack with
        | nil => cases h; exact .same _
        | cons frame stack => cases hm
      | unwind cause =>
        cases stack with
        | nil => cases h; exact .same _
        | cons frame stack => cases hm
      | _ => cases h

theorem stage_succ (raise : Fault → Cause) (ends : Nat → Option Halt) (steps : List Step)
    (n : Nat) :
    stage raise ends steps (n + 1) =
      ((stage raise ends steps n).next? raise (ends n)).getD (stage raise ends steps n) := rfl

/-- From stage to stage there is one change or none. -/
theorem turns_stage (raise : Fault → Cause) (ends : Nat → Option Halt) (steps : List Step)
    (n : Nat) :
    (stage raise ends steps n).world.Turns (stage raise ends steps n).closings
      (stage raise ends steps (n + 1)).world (stage raise ends steps (n + 1)).closings := by
  rw [stage_succ]
  cases h : (stage raise ends steps n).next? raise (ends n) with
  | none => exact .same _
  | some st => exact turns_next? h

theorem closes_stage (n : Nat) :
    (stage raise ends steps n).world.Closes (stage raise ends steps n).closings := by
  induction n with
  | zero => exact ⟨nofun, .nil⟩
  | succ n ih => exact (turns_stage raise ends steps n).closes ih

/-- **Objects stand where they can go.** -/
theorem follows_stage (raise : Fault → Cause) (ends : Nat → Option Halt) (steps : List Step)
    (n : Nat) (o : ObjectId) :
    Standing.Follows (stage raise ends steps n).world.standings[o]?
      (stage raise ends steps (n + 1)).world.standings[o]? :=
  (turns_stage raise ends steps n).follows (closes_stage n) o

/-- No count is larger than the largest one. -/
theorem count_le (n : Nat) {o : ObjectId} {k : Nat}
    (h : (stage raise ends steps n).world.standings[o]? = some (.counted k)) :
    k ≤ maxCount.toNat := by
  induction n generalizing k with
  | zero => cases h
  | succ n ih =>
    have hfollows := follows_stage raise ends steps n o
    rw [h] at hfollows
    generalize hbefore : (stage raise ends steps n).world.standings[o]? = before at hfollows
    cases hfollows with
    | same => exact ih hbefore
    | create => exact Nat.zero_le _
    | retain hlt => exact hlt
    | release _ => exact Nat.le_of_succ_le (ih hbefore)

/-- An object that has been deallocated stays so. -/
theorem gone_of_le {i j : Nat} (hij : i ≤ j) {o : ObjectId}
    (h : (stage raise ends steps i).world.standings[o]? = some .gone) :
    (stage raise ends steps j).world.standings[o]? = some .gone := by
  induction hij with
  | refl => exact h
  | @step j _ ih =>
    have hfollows := follows_stage raise ends steps j o
    rw [ih] at hfollows
    generalize (stage raise ends steps (j + 1)).world.standings[o]? = after at hfollows
    cases hfollows
    rfl

end Ideal
end Custody
