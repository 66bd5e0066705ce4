import Custody.Fault.Basic
import Custody.Fault.Policy

/-! Who handles a fault.

Every fault is counted. A custom reporter, if one is set, decides alone and logs
nothing; without one the fault is logged and the policy decides. -/
namespace Custody

/-- A custom reporter hands the fault to whoever catches it, or ends the process. -/
inductive Reporter where
  | unwinding
  | exiting
  deriving DecidableEq, Repr

structure FaultHandling where
  policy : Policy := .abort
  reporter : Option Reporter := none
  count : UInt64 := 0

/-- Why control leaves an operation without an answer. -/
inductive Cause where
  | panic (message : String)
  | fault (f : Fault)
  /-- A fault that a custom reporter passed on. -/
  | reported (f : Fault)
  deriving DecidableEq, Repr

def Cause.message : Cause → String
  | panic message => message
  | fault f => "rcbox fatal error: " ++ f.message
  | reported f => f.message

/-- Why nothing runs any more. -/
inductive Halt where
  /-- The process was stopped on the spot. -/
  | aborted
  /-- The process ended because the exiting reporter was told of a fault. -/
  | exited (f : Fault)
  /-- An operation waits for a lock that its own caller holds. -/
  | blocked
  /-- A step names something that does not exist. -/
  | malformed
  deriving DecidableEq, Repr

end Custody
