import Custody.Text.LowerCase

/-! Log levels: five grades of severity, and `off`, which no entry passes. -/
namespace Custody.Log

inductive Level where
  | trace
  | debug
  | info
  | warn
  | error
  | off
  deriving DecidableEq, Repr

namespace Level

def all : List Level :=
  [trace, debug, info, warn, error, off]

def rank : Level → Nat
  | trace => 0
  | debug => 1
  | info => 2
  | warn => 3
  | error => 4
  | off => 5

def ofRank? (n : Nat) : Option Level :=
  all.find? (·.rank == n)

def name : Level → String
  | trace => "TRACE"
  | debug => "DEBUG"
  | info => "INFO"
  | warn => "WARN"
  | error => "ERROR"
  | off => "OFF"

/-- The digit counts how much is let through, so it runs against the rank. -/
def spellings : Level → List String
  | trace => ["trace", "5"]
  | debug => ["debug", "4"]
  | info => ["info", "3"]
  | warn => ["warn", "warning", "2"]
  | error => ["error", "err", "1"]
  | off => ["off", "none", "0"]

def parse? (s : String) : Option Level :=
  Text.ofSpelling? all spellings s

/-- Whether an entry of this level is let through under a least level. -/
def passes (level least : Level) : Bool :=
  level != off && least != off && least.rank ≤ level.rank

theorem mem_all (level : Level) : level ∈ all := by
  cases level <;> decide

theorem ofRank?_rank (level : Level) : ofRank? level.rank = some level := by
  cases level <;> rfl

theorem rank_injective {a b : Level} (h : a.rank = b.rank) : a = b := by
  cases a <;> cases b <;> first | rfl | exact absurd h (by decide)

end Level
end Custody.Log
