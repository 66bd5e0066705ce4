import Custody.Configuration.Basic
import Custody.Text.Quoted
import Custody.Text.Utf8

/-! Configurations from environment variables.

Each setting has a variable. One that is not set, or whose bytes are not a text,
is passed over in silence; one whose text is not understood earns a warning. The
setting keeps its default in both cases. -/
namespace Custody

/-- The values of the environment variables, as bytes. -/
abbrev Environment := List (String × List UInt8)

namespace Environment

/-- Sets a variable, or removes it. -/
def set (env : Environment) (name : String) (bytes : Option (List UInt8)) : Environment :=
  let others := env.filter (·.1 != name)
  match bytes with
  | none => others
  | some bytes => (name, bytes) :: others

def text? (env : Environment) (name : String) : Option String :=
  (env.lookup name).bind Text.Utf8.decode?

/-- A variable's effect: a setting, a warning, or nothing. -/
inductive Finding where
  | absent
  | rejected (warning : ConfigurationError)
  | accepted (setting : Setting)

def find (env : Environment) (name : String) (parse? : String → Option Setting) : Finding :=
  match env.text? name with
  | none => .absent
  | some raw =>
    match parse? raw with
    | some setting => .accepted setting
    | none =>
      .rejected (.unparsableVariable name
        ("unrecognized value " ++ Text.quoted raw ++ ", using default"))

/-- What each variable sets, in the order in which they are read. -/
def settingReaders : List (String × (String → Option Setting)) :=
  [("RCBOX_MAX_HEAP_SIZE", fun s => (Text.word? s).map .maxHeapSize),
   ("RCBOX_FATAL_POLICY", fun s => (Policy.parse? s).map .policy),
   ("RCBOX_LOG_LEVEL", fun s => (Log.Level.parse? s).map .level),
   ("RCBOX_LOG_FORMAT", fun s => (Log.Format.parse? s).map .format)]

def findings (env : Environment) : List Finding :=
  settingReaders.map fun (name, parse?) => env.find name parse?

def Finding.setting? : Finding → Option Setting
  | accepted setting => some setting
  | absent | rejected _ => none

def Finding.warning? : Finding → Option ConfigurationError
  | rejected warning => some warning
  | absent | accepted _ => none

def configuration (env : Environment) : Configuration :=
  .ofSettings (env.findings.filterMap (·.setting?))

def warnings (env : Environment) : List ConfigurationError :=
  env.findings.filterMap (·.warning?)

end Environment
end Custody
