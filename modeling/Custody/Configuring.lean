import Custody.Outcome

/-! Putting a configuration into force.

A configuration takes effect as a whole or not at all. Its log entry is emitted
under the new settings. The environment's configuration gives way to the default
one if it is not valid, with an entry under the old settings. -/
namespace Custody.State

/-- The settings of a configuration, and the entry that tells of them. -/
def apply (c : Configuration) (s : State) : State :=
  let settled := {s with
    logger := {s.logger with level := c.level, format := c.format}
    faults := {s.faults with policy := c.policy}
    allocators := {s.allocators with system := {s.allocators.system with limit := c.maxHeapSize}}}
  settled.log c.entry

def configure (c : Configuration) (s : State) : Except ConfigurationError Unit × State :=
  match c.validate with
  | .error e => (.error e, s)
  | .ok () => (.ok (), {s.apply c with configuration := some c})

/-- Logs a message without target or fields. -/
def say (level : Log.Level) (message : String) (s : State) : State :=
  s.log ⟨level, message, none, [], 0⟩

/-- The environment's configuration, after a warning for each variable that is not understood. -/
def readEnvironment (s : State) : Configuration × State :=
  (s.environment.configuration,
    s.environment.warnings.foldl (fun s warning => s.say .warn warning.message) s)

def configureFromEnvironment (s : State) : Except ConfigurationError Unit × State :=
  let (c, s) := s.readEnvironment
  match c.validate with
  | .ok () => s.configure c
  | .error e =>
    let s := s.say .error (e.message ++ "; falling back to default configuration")
    (.error e, (s.configure {}).2)

end Custody.State
