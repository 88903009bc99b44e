/-
The state of the network proxy under concurrent use: `network-proxy/src/runtime.rs`.

The configuration and the telemetry of blocked requests are one value behind a lock.  Methods
run as tasks; a step is one section under the lock, so that a method that reads in one section
and writes in a later one can be overtaken in between.  The functions on configurations that
an update calls are a parameter: no telemetry goes through them.
-/
import Mathlib.Algebra.Group.Nat.Defs
import SushiGpt.Lib.Text

namespace SushiGpt.NetworkProxy

def maxBlockedEvents : Nat := 200

/-- The largest value of a `u64`. -/
def u64Max : Nat := 2 ^ 64 - 1

inductive NetworkMode where
  | limited
  | full
  deriving DecidableEq

inductive DomainListKind where
  | allow
  | deny

def DomainListKind.opposite : DomainListKind → DomainListKind
  | allow => deny
  | deny => allow

structure BlockedRequest where
  host : Text
  reason : Text
  client : Option Text
  method : Option Text
  mode : Option NetworkMode
  protocol : Text
  executionId : Option Text
  decision : Option Text
  source : Option Text
  port : Option Nat
  timestamp : Int
  deriving DecidableEq

/-- What updates call: hosts, the domain lists of a configuration, and its checks. -/
structure Policies (Config Constraints Platform : Type) where
  parseHost : Text → Option Text
  normalizeHost : Text → Text
  entries : DomainListKind → Config → List Text
  upsertDomainPermission : Config → Text → DomainListKind → Config
  withMode : Config → NetworkMode → Config
  resolvedConfig : Config → Config
  validatePolicyAgainstConstraints : Config → Constraints → Bool
  /-- The configuration in the state that `build_config_state` makes. -/
  buildConfigState : Config → Constraints → Platform → Option Config

section

variable {Config Constraints Platform : Type}

structure ConfigState (Config Constraints Platform : Type) where
  executorOs : Platform
  config : Config
  constraints : Constraints
  blocked : List BlockedRequest
  blockedTotal : Nat

/-- What `update_domain_list` reads, and the state it has built from it. -/
structure Snapshot (Config Constraints Platform : Type) where
  previousCfg : Config
  constraints : Constraints
  executorOs : Platform
  newState : ConfigState Config Constraints Platform

/-- A method and how far it is.  The states that reloads and replacements publish come from
outside. -/
inductive Task (Config Constraints Platform : Type) where
  | recordBlocked (entry : BlockedRequest)
  | drainBlocked
  | updateDomainList (host : Text) (target : DomainListKind)
      (snapshot : Option (Snapshot Config Constraints Platform))
  | setNetworkMode (mode : NetworkMode) (constraints : Option Constraints)
  | replaceConfigState (newState : ConfigState Config Constraints Platform)
  | forceReload (newState : ConfigState Config Constraints Platform)
  | reload (newState : ConfigState Config Constraints Platform)
  | done

namespace ConfigState

/-- Drops the oldest entries of a buffer that is too long. -/
def popFront : List BlockedRequest → List BlockedRequest
  | [] => []
  | entry :: rest =>
    if maxBlockedEvents < (entry :: rest).length then popFront rest else entry :: rest

def recordBlocked (state : ConfigState Config Constraints Platform) (executionId : Option Text)
    (entry : BlockedRequest) : ConfigState Config Constraints Platform :=
  { state with
    blocked := popFront (state.blocked ++ [{ entry with executionId }])
    blockedTotal := min (state.blockedTotal + 1) u64Max }

def drainBlocked (state : ConfigState Config Constraints Platform) :
    ConfigState Config Constraints Platform :=
  { state with blocked := [] }

/-- `replace_config_state` and `reload_if_needed`. -/
def replace (state newState : ConfigState Config Constraints Platform) :
    ConfigState Config Constraints Platform :=
  { newState with blocked := state.blocked, blockedTotal := state.blockedTotal }

def forceReload (state newState : ConfigState Config Constraints Platform) :
    ConfigState Config Constraints Platform :=
  { newState with blocked := state.blocked }

/-- The first section of `update_domain_list`: nothing to do, refused, or a new state. -/
def readForUpdate (policies : Policies Config Constraints Platform)
    (state : ConfigState Config Constraints Platform) (normalizedHost : Text)
    (target : DomainListKind) : Option (Snapshot Config Constraints Platform) :=
  let contains (kind : DomainListKind) : Bool :=
    (policies.entries kind state.config).any fun entry =>
      policies.normalizeHost entry == normalizedHost
  if contains target && !contains target.opposite then none
  else
    let candidate := policies.upsertDomainPermission state.config normalizedHost target
    if !policies.validatePolicyAgainstConstraints (policies.resolvedConfig candidate)
        state.constraints then none
    else do
      let config ← policies.buildConfigState candidate state.constraints state.executorOs
      some ⟨state.config, state.constraints, state.executorOs,
        ⟨state.executorOs, config, state.constraints, state.blocked, state.blockedTotal⟩⟩

/-- Nothing an update depends on has changed since its snapshot. -/
def isCurrent [DecidableEq Config] [DecidableEq Constraints] [DecidableEq Platform]
    (state : ConfigState Config Constraints Platform)
    (snapshot : Snapshot Config Constraints Platform) : Bool :=
  state.constraints == snapshot.constraints && state.config == snapshot.previousCfg &&
    state.executorOs == snapshot.executorOs

end ConfigState

/-- An event of the telemetry, in the order of the sections that caused it. -/
inductive Event where
  | recorded (entry : BlockedRequest)
  | drained

/-- The proxy and its tasks.  `log` is what the telemetry should be judged by; no method
reads it. -/
structure Proxy (Config Constraints Platform : Type) where
  state : ConfigState Config Constraints Platform
  executionId : Option Text
  tasks : List (Task Config Constraints Platform)
  log : List Event

/-- A method is called, or a task runs its next section. -/
inductive Action (Config Constraints Platform : Type) where
  | call (task : Task Config Constraints Platform)
  | resume (index : Nat)

variable [DecidableEq Config] [DecidableEq Constraints] [DecidableEq Platform]

namespace Proxy

/-- The next section of a task: the state, the task and the events after it. -/
def runSection (policies : Policies Config Constraints Platform) (executionId : Option Text)
    (state : ConfigState Config Constraints Platform) :
    Task Config Constraints Platform →
      Option (ConfigState Config Constraints Platform × Task Config Constraints Platform ×
        List Event)
  | .recordBlocked entry =>
    some (state.recordBlocked executionId entry, .done, [.recorded { entry with executionId }])
  | .drainBlocked => some (state.drainBlocked, .done, [.drained])
  | .updateDomainList host target none =>
    match policies.parseHost host with
    | none => some (state, .done, [])
    | some normalizedHost =>
      match state.readForUpdate policies normalizedHost target with
      | none => some (state, .done, [])
      | some snapshot => some (state, .updateDomainList host target (some snapshot), [])
  | .updateDomainList host target (some snapshot) =>
    -- On a change of the policy the update starts over.
    if state.isCurrent snapshot then some (snapshot.newState, .done, [])
    else some (state, .updateDomainList host target none, [])
  | .setNetworkMode mode none =>
    let candidate := policies.withMode state.config mode
    if !policies.validatePolicyAgainstConstraints (policies.resolvedConfig candidate)
        state.constraints then some (state, .done, [])
    else some (state, .setNetworkMode mode (some state.constraints), [])
  | .setNetworkMode mode (some constraints) =>
    if state.constraints = constraints then
      some ({ state with config := policies.withMode state.config mode }, .done, [])
    else some (state, .setNetworkMode mode none, [])
  | .replaceConfigState newState => some (state.replace newState, .done, [])
  | .forceReload newState => some (state.forceReload newState, .done, [])
  | .reload newState => some (state.replace newState, .done, [])
  | .done => none

/-- A method that is called has read nothing. -/
def fresh : Task Config Constraints Platform → Bool
  | .updateDomainList _ _ snapshot => snapshot.isNone
  | .setNetworkMode _ constraints => constraints.isNone
  | _ => true

def step (policies : Policies Config Constraints Platform)
    (proxy : Proxy Config Constraints Platform) :
    Action Config Constraints Platform → Option (Proxy Config Constraints Platform)
  | .call task =>
    if fresh task then some { proxy with tasks := proxy.tasks ++ [task] } else none
  | .resume index => do
    let task ← proxy.tasks[index]?
    let (state, next, events) ← runSection policies proxy.executionId proxy.state task
    some { proxy with
      state
      tasks := proxy.tasks.set index next
      log := proxy.log ++ events }

end Proxy

end

end SushiGpt.NetworkProxy
