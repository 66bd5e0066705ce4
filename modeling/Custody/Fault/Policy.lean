import Custody.Text.LowerCase

/-! What a fault does to the process when nobody else decides. -/
namespace Custody

inductive Policy where
  | abort
  | panic
  deriving DecidableEq, Repr

namespace Policy

def all : List Policy :=
  [abort, panic]

def name : Policy → String
  | abort => "abort"
  | panic => "panic"

def spellings : Policy → List String
  | abort => ["abort"]
  | panic => ["panic", "unwind"]

def parse? (s : String) : Option Policy :=
  Text.ofSpelling? all spellings s

theorem mem_all (policy : Policy) : policy ∈ all := by
  cases policy <;> decide

end Policy
end Custody
