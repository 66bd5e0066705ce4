import Custody.Configuration.Environment
import Custody.Fault.Handling
import Custody.Heap.Value
import Custody.Log.Logger

/-! Scripts: the steps that drive objects, handles and settings.

Steps name objects, handles, cells and allocators; a name means what it stands
for when the step runs. A routine is a list of steps that an object carries and
that runs when its last reference is released. -/
namespace Custody

/-- How a call is made. Nothing unwinds out of a foreign call: the process stops there instead. -/
inductive Convention where
  | native
  | foreign
  deriving DecidableEq, Repr

structure Routine (σ : Type) where
  convention : Convention
  label : String
  body : List σ

/-- The two calls that change a retain count. -/
inductive CountCall where
  | retain
  | release
  deriving DecidableEq, Repr

/-- Steps on objects and cells that take one transition. -/
inductive ObjectAction where
  | count (name : Option String) (via : Convention)
  | isUnique (name : Option String) (via : Convention)
  | isDeallocated (name : String)
  | hasCell (name : String)
  | resolve (name : String)
  | slotIsNull (name : String)
  | clearSlot (name : String)
  | offsets (name : String)
  | guard (name : String)
  | forceCount (name : String) (count : UInt32)
  | write (name : String) (start : Nat) (bytes : List UInt8)
  | read (name : String) (start : Nat) (length : Nat)
  | guardCell (name : String)
  | freeCell (name : String)
  | statistics
  | faultCount

inductive LogAction where
  | state
  | setLevel (level : Log.Level)
  | setFormat (format : Log.Format)
  | setSink (sink : Log.Sink)
  | wouldLog (level : Log.Level)
  | emit (entry : Log.Entry)
  | takeCaptured

/-- Steps on fault handling, configuration and allocators. -/
inductive SettingAction where
  | policy
  | setPolicy (policy : Policy)
  | setReporter (reporter : Option Reporter)
  | report (fault : Fault)
  /-- A fault raised by compiled code, with a message of bytes. -/
  | raiseForeign (message : Option (List UInt8))
  | setVariables (values : List (String × Option (List UInt8)))
  | readEnvironment
  | configure (settings : List Setting)
  | configureFromEnvironment (via : Convention)
  | configuration
  | systemLimit
  | setSystemLimit (limit : UInt64)
  | systemQuota
  | newAllocator (name : String) (limit : UInt64)
  | setAllocatorLimit (name : String) (limit : UInt64)
  | allocatorQuota (name : String)
  | installAllocator (name : String)
  | globalIsSystem

/-- Steps on handles that take one transition. -/
inductive HandleAction where
  | create (handle : String) (kind : Kind) (literal : Literal)
  | clone (handle : String) (copy : String)
  | get (handle : String)
  | count (handle : String)
  | isUnique (handle : String)
  | set (handle : String) (literal : Literal)
  | push (handle : String) (child : String)
  | equal (handle : String) (other : String)
  | sameObject (handle : String) (other : String)
  | write (handle : String) (form : Writing)
  | intoObject (handle : String) (name : String)
  | asObject (handle : String) (name : String)
  | fromObject (name : String) (handle : String)

inductive Action where
  | object (action : ObjectAction)
  | log (action : LogAction)
  | setting (action : SettingAction)
  | handle (action : HandleAction)
  | panic (message : String)

inductive Step where
  /-- Takes memory from the named allocator, or from the global one. -/
  | allocate (name : String) (size : UInt64) (routine : Option (Routine Step))
      (provider : Option String) (via : Convention)
  /-- Puts an object together by hand, from a region of its own. -/
  | assemble (name : String) (size : UInt64) (routine : Option (Routine Step))
  /-- Writes a new cell over an object's back-link. -/
  | reinstall (name : String) (routine : Option (Routine Step))
  | newCell (name : String) (routine : Option (Routine Step))
  | describe (routine : Option (Routine Step))
  | call (call : CountCall) (name : Option String) (times : Nat) (via : Convention)
  /-- Threads that each go through a number of rounds of retains and then releases. -/
  | race (name : String) (threads retains releases rounds : Nat)
  | dropHandle (handle : String)
  /-- Assigns through a handle, giving it a copy of the value if others refer to it. -/
  | makeUnique (handle : String) (literal : Literal)
  | attempt (step : Step)
  | act (action : Action)

end Custody
