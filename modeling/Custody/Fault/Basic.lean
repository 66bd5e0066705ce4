import Custody.Address
import Custody.Log.Entry
import Custody.Text.Quoted
import Custody.Text.Shape

/-! Faults: the ways in which a caller can break the rules of retaining and releasing.

A fault is never an answer. It is counted and reported, and reporting does not
come back (`Custody.Fault.Handling`). -/
namespace Custody

inductive Fault where
  | useAfterFree (address : Address)
  | retainOverflow (address : Address) (count : UInt32)
  | releaseUnderflow (address : Address)
  | teardownViolation (address : Address) (count : UInt32)
  | layoutOverflow (size : UInt64)
  | nullInstance (operation : String)
  /-- Raised by compiled code for a reason of its own. -/
  | raised (message : String)
  deriving DecidableEq, Repr

namespace Fault

def kind : Fault → String
  | useAfterFree _ => "use_after_free"
  | retainOverflow _ _ => "retain_overflow"
  | releaseUnderflow _ => "release_underflow"
  | teardownViolation _ _ => "teardown_invariant_violation"
  | layoutOverflow _ => "layout_overflow"
  | nullInstance _ => "null_instance"
  | raised _ => "runtime"

def address? : Fault → Option Address
  | useAfterFree a => some a
  | retainOverflow a _ => some a
  | releaseUnderflow a => some a
  | teardownViolation a _ => some a
  | layoutOverflow _ => none
  | nullInstance _ => none
  | raised _ => none

def message : Fault → String
  | useAfterFree a => "object (" ++ a.text ++ ") used after deallocation"
  | retainOverflow a count =>
    "retain count overflow: object (" ++ a.text ++ ") already has retain count " ++
      toString count.toNat
  | releaseUnderflow a => "attempting to release object with retain count 0 (" ++ a.text ++ ")"
  | teardownViolation a count =>
    "object (" ++ a.text ++ ") deallocated with retain count " ++ toString count.toNat ++ " > 0"
  | layoutOverflow size =>
    "allocation layout overflow: payload of " ++ toString size.toNat ++
      " bytes cannot be allocated"
  | nullInstance operation => "null object passed to " ++ operation
  | raised message => message

/-- The fault as a structured value. -/
def shape : Fault → Text.Shape
  | useAfterFree a => .full "UseAfterFree" [("address", .atom a.plain)]
  | retainOverflow a count =>
    .full "RetainOverflow" [("address", .atom a.plain), ("count", .atom (toString count.toNat))]
  | releaseUnderflow a => .full "ReleaseUnderflow" [("address", .atom a.plain)]
  | teardownViolation a count =>
    .full "TeardownInvariantViolation"
      [("address", .atom a.plain), ("count", .atom (toString count.toNat))]
  | layoutOverflow size => .full "LayoutOverflow" [("size", .atom (toString size.toNat))]
  | nullInstance operation => .full "NullInstance" [("operation", .atom (Text.quoted operation))]
  | raised message => .full "Runtime" [("message", .atom (Text.quoted message))]

/-- The log entry that reports a fault. -/
def entry (f : Fault) : Log.Entry where
  level := .error
  target := some "rcbox::fatal"
  message := f.message
  fields := ⟨"kind", .text f.kind⟩ :: f.address?.toList.map fun a => ⟨"address", .address a⟩

end Fault
end Custody
