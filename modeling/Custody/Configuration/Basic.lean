import Custody.Fault.Policy
import Custody.Log.Entry
import Custody.Log.Format

/-! Configurations, how they are put together, and which of them are valid. -/
namespace Custody

/-- The settings; a heap limit of 0 means that there is none. -/
structure Configuration where
  maxHeapSize : UInt64 := 0
  policy : Policy := .abort
  level : Log.Level := .warn
  format : Log.Format := .plain
  deriving DecidableEq, Repr

inductive ConfigurationError where
  | invalidValue (field : String) (message : String)
  | unparsableVariable (variableName : String) (message : String)
  deriving DecidableEq, Repr

def ConfigurationError.message : ConfigurationError → String
  | invalidValue field message => "invalid configuration for '" ++ field ++ "': " ++ message
  | unparsableVariable variableName message =>
    "failed to parse environment variable '" ++ variableName ++ "': " ++ message

/-- One choice made while a configuration is put together. -/
inductive Setting where
  | maxHeapSize (bytes : UInt64)
  | policy (policy : Policy)
  | level (level : Log.Level)
  | format (format : Log.Format)
  deriving DecidableEq, Repr

namespace Configuration

def minHeapSize : UInt64 := 4096

def set (c : Configuration) : Setting → Configuration
  | .maxHeapSize bytes => {c with maxHeapSize := bytes}
  | .policy policy => {c with policy}
  | .level level => {c with level}
  | .format format => {c with format}

/-- The default configuration with settings made in order, valid or not. -/
def ofSettings (settings : List Setting) : Configuration :=
  settings.foldl set {}

/-- A limit below the smallest useful heap is refused. -/
def validate (c : Configuration) : Except ConfigurationError Unit :=
  if c.maxHeapSize ≠ 0 ∧ c.maxHeapSize < minHeapSize then
    .error (.invalidValue "memory.max_heap_size"
      ("must be 0 (unlimited) or at least " ++ toString minHeapSize.toNat ++ " bytes"))
  else .ok ()

def build (settings : List Setting) : Except ConfigurationError Configuration :=
  (ofSettings settings).validate.map fun _ => ofSettings settings

/-- The log entry for a configuration that takes effect. -/
def entry (c : Configuration) : Log.Entry where
  level := .debug
  target := some "rcbox::config"
  message := "runtime configured"
  fields := [⟨"max_heap_size", .natural c.maxHeapSize⟩, ⟨"fatal_policy", .text c.policy.name⟩,
    ⟨"log_format", .text c.format.name⟩]

theorem validate_default : validate {} = .ok () := rfl

end Configuration
end Custody
