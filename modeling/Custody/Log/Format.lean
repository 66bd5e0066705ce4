import Custody.Text.LowerCase

/-! The two forms of a log line. -/
namespace Custody.Log

inductive Format where
  | plain
  | json
  deriving DecidableEq, Repr

namespace Format

def all : List Format :=
  [plain, json]

def name : Format → String
  | plain => "plain"
  | json => "json"

def spellings : Format → List String
  | plain => ["plain", "text"]
  | json => ["json"]

def parse? (s : String) : Option Format :=
  Text.ofSpelling? all spellings s

theorem mem_all (format : Format) : format ∈ all := by
  cases format <;> decide

end Format
end Custody.Log
