import Custody.Allocation.Quota
import Custody.Script.Step
import Custody.Statistics

/-! What steps answer, and what can be observed while they run. -/
namespace Custody

/-- A cell as its guard sees it: the count, whether a finalizer waits, whether the lock is held,
and the cell's written form. -/
structure GuardView where
  count : UInt32
  hasFinalizer : Bool
  held : Bool
  written : String
  deriving DecidableEq, Repr

inductive Answer where
  | done
  | nothing
  | flag (b : Bool)
  | flags (l : List Bool)
  | number (n : Nat)
  | integer (i : Int)
  | integers (l : List Int)
  | text (s : String)
  | texts (l : List String)
  | node (label : String) (children : List String)
  /-- A new object, with its address modulo the alignment of regions. -/
  | created (residue : Nat)
  | resolved
  /-- How far the payload lies behind its base, and whether the base leads back to it. -/
  | offsets (distance : Nat) (returns : Bool)
  /-- A cell under its guard, and its lock and form afterwards where they were looked at. -/
  | guarded (view : GuardView) (after : Option (Bool × String))
  | statistics (s : Statistics)
  | policy (policy : Policy)
  | logState (level : Log.Level) (format : Log.Format)
  | configuration (c : Option Configuration)
  | environment (c : Configuration)
  | invalid (e : ConfigurationError)
  | quota (q : Quota)
  | alreadyInstalled
  /-- An assignment that went through, to a fresh object or in place. -/
  | made (fresh : Bool)
  | succeeded (answer : Answer)
  | failed (cause : Cause)

inductive Event where
  /-- A routine starts; `locked` says whether its object's cell is, if there is one. -/
  | entered (label : String) (object : ObjectId) (locked : Option Bool)
  | stepped (answer : Answer)
  | left (label : String)
  /-- A routine is thrown away without having run. -/
  | discarded (label : String)
  | dropped (label : String)
  | requested (allocator : String) (size align : UInt64) (granted : Bool)

end Custody
