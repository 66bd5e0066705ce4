import Custody.Machine.Budget

/-! Sessions: steps run one after the other, and the record of what came of each.

A session of its own process starts from the defaults and can end early: a step
during which the process stops has no result. A session inside a larger process
starts with faults that unwind and a logger that captures. -/
namespace Custody

/-- The version of the library, as it tells it. -/
def version : String := "0.1.0"

structure Session where
  steps : List Step
  isolated : Bool := false
  /-- Whether captured lines go into the record of the step. -/
  takesLines : Bool := true
  /-- Whether records show the retain counts of everything that has a name. -/
  showsCounts : Bool := true

inductive Result where
  | answered (answer : Answer)
  | failed (cause : Cause)
  /-- The process stopped during the step. -/
  | died

structure Record where
  result : Result
  /-- What was observed during the step, in order. -/
  events : List Event := []
  lines : List String := []
  /-- The retain count behind each name, none where the object has been deallocated. -/
  counts : List (String × Option UInt32) := []

inductive Exit where
  | finished
  | aborted
  | exited
  /-- A step waits for a lock that is never returned. -/
  | blocked
  | malformed
  deriving DecidableEq, Repr

structure Transcript where
  records : List Record
  exit : Exit
  outputTexts : List String
  errorTexts : List String

namespace State

/-- Where a process of its own starts, with some memory to draw on. -/
def initial (memory : UInt64 → Bool) : State where
  allocators := {memory}

/-- Where a session inside a larger process starts. -/
def embedded : State where
  logger := {sink := .capture}
  faults := {policy := .panic}

/-- The counts behind the names of objects and of handles, these marked as such. -/
def counts (s : State) : List (String × Option UInt32) :=
  let countOf (o : ObjectId) : Option UInt32 := (s.heap.governing? o).map (·.count)
  s.names.objects.map (fun (name, o) => (name, countOf o)) ++
    s.names.handles.map (fun (name, o) => ("~" ++ name, countOf o))

end State

namespace Session

/-- Runs a step from a state without events. -/
def runStep (step : Step) (s : State) : Machine :=
  (Machine.start step {s with events := []}).run

/-- What a step leaves behind, and the state for the next one. -/
def record (session : Session) (result : Result) (counted : Bool) (s : State) : Record × State :=
  let kept : Record :=
    { result
      events := s.events.reverse
      lines := if session.takesLines then s.logger.capturedTexts else []
      counts := if counted && session.showsCounts then s.counts else [] }
  (kept, if session.takesLines then s.onLogger (·.clearCaptured) else s)

/-- The record of a step that the process does not survive, if there is anything to tell. -/
def lastRecord (session : Session) (halt : Halt) (s : State) : Option Record :=
  match halt with
  | .exited f => some (session.record (.failed (.reported f)) false s).1
  | .aborted => if s.events.isEmpty then none else some ⟨.died, s.events.reverse, [], []⟩
  | .blocked | .malformed => none

def exitOf : Halt → Exit
  | .aborted => .aborted
  | .exited _ => .exited
  | .blocked => .blocked
  | .malformed => .malformed

def runFrom (session : Session) (s : State) : List Step → List Record × Exit × State
  | [] => ([], .finished, s)
  | step :: rest =>
    let m := runStep step s
    let continueWith (result : Result) : List Record × Exit × State :=
      let (r, s) := session.record result true m.state
      let (records, exit, s) := session.runFrom s rest
      (r :: records, exit, s)
    match m.control with
    | .answer answer => continueWith (.answered answer)
    | .unwind cause => continueWith (.failed cause)
    | .halt halt => ((session.lastRecord halt m.state).toList, exitOf halt, m.state)
    | .perform _ | .release _ => ([], .blocked, m.state)

def run (session : Session) : Transcript :=
  let (records, exit, s) :=
    session.runFrom (if session.isolated then .initial Quota.backed else .embedded) session.steps
  ⟨records, exit, Log.Logger.streamTexts s.logger.outputLines,
    Log.Logger.streamTexts s.logger.errorLines⟩

end Session
end Custody
