import Custody.Configuring

/-! Steps on the logger, none of which fails, and on fault handling, configuration and allocators. -/
namespace Custody.State

def performLog (s : State) : LogAction → Answer × State
  | .state => (.logState s.logger.level s.logger.format, s)
  | .setLevel level => (.done, s.onLogger fun l => {l with level})
  | .setFormat format => (.done, s.onLogger fun l => {l with format})
  | .setSink sink => (.done, s.onLogger fun l => {l with sink})
  | .wouldLog level => (.flag (s.logger.wouldLog level), s)
  | .emit entry => (.done, s.log entry)
  | .takeCaptured => (.texts s.logger.capturedTexts, s.onLogger (·.clearCaptured))

def configurationAnswer : Except ConfigurationError Unit → Answer
  | .ok () => .done
  | .error e => .invalid e

/-- The exported initialiser only tells success from failure. -/
def initialiserAnswer (via : Convention) (result : Except ConfigurationError Unit) : Answer :=
  match via, result with
  | .native, result => configurationAnswer result
  | .foreign, .ok () => .integer 0
  | .foreign, .error _ => .integer (-1)

/-- A message from compiled code, which may be missing and need not be a text. -/
def foreignMessage : Option (List UInt8) → String
  | none => "unknown error"
  | some bytes => Text.Utf8.decodeLossy bytes

def setQuota (allocator : Option AllocatorId) (q : Quota) (s : State) : State :=
  {s with allocators := s.allocators.setQuota q allocator}

/-- The account of a custom allocator, by its name. -/
def withAllocator (name : String) (s : State) (next : AllocatorId → Quota → Outcome α) :
    Outcome α :=
  s.given (s.names.allocators.find? name) fun i =>
    s.given (s.allocators.quota? (some i)) (next i)

def performSetting (s : State) : SettingAction → Outcome Answer
  | .policy => .returned (.policy s.faults.policy) s
  | .setPolicy policy => .returned .done {s with faults := {s.faults with policy}}
  | .setReporter reporter => .returned .done {s with faults := {s.faults with reporter}}
  | .report fault => s.report fault
  | .raiseForeign message => (s.report (.raised (foreignMessage message))).through .foreign
  | .setVariables values =>
    .returned .done
      {s with environment := values.foldl (fun env (name, bytes) => env.set name bytes) s.environment}
  | .readEnvironment =>
    let (c, s) := s.readEnvironment
    .returned (.environment c) s
  | .configure settings =>
    let (result, s) := s.configure (.ofSettings settings)
    .returned (configurationAnswer result) s
  | .configureFromEnvironment via =>
    let (result, s) := s.configureFromEnvironment
    .returned (initialiserAnswer via result) s
  | .configuration => .returned (.configuration s.configuration) s
  | .systemLimit => .returned (.number s.allocators.system.limit.toNat) s
  | .setSystemLimit limit =>
    .returned .done (s.setQuota none {s.allocators.system with limit})
  | .systemQuota => .returned (.quota s.allocators.system) s
  | .newAllocator name limit =>
    let (i, allocators) := s.allocators.add name limit
    .returned .done ({s with allocators}.nameAllocator name i)
  | .setAllocatorLimit name limit =>
    s.withAllocator name fun i q => .returned .done (s.setQuota (some i) {q with limit})
  | .allocatorQuota name => s.withAllocator name fun _ q => .returned (.quota q) s
  | .installAllocator name =>
    s.withAllocator name fun i _ =>
      match s.allocators.install i with
      | some allocators => .returned .done {s with allocators}
      | none => .returned .alreadyInstalled s
  | .globalIsSystem => .returned (.flag s.allocators.installed.isNone) s

end Custody.State
