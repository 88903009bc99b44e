/-
Approvals of network requests: `core/src/tools/network_approval.rs`.

A request looks into the caches of the session under the commit lock.  If neither knows its host
it joins the pending approval of its key, or becomes the owner of a new one, asks for a review,
updates the caches under the commit lock and hands its decision to those that joined.  Each step
here is what a request does between two points at which another one may run; a request can be
dropped wherever it waits.

Which call a request belongs to, the settings of a review and what the review says are given from
outside.  The outcomes recorded for tool calls and the telemetry are left out.
-/
import SushiGpt.Lib.Text

namespace SushiGpt.Core.NetworkApproval

/-! ### Keys and decisions -/

inductive NetworkApprovalProtocol where
  | http
  | https
  | socks5Tcp
  | socks5Udp
  deriving DecidableEq

structure NetworkPolicyRequest where
  protocol : NetworkApprovalProtocol
  host : Text
  port : Nat
  deriving DecidableEq

def protocolKeyLabel : NetworkApprovalProtocol → Text
  | .http => "http".toList
  | .https => "https".toList
  | .socks5Tcp => "socks5-tcp".toList
  | .socks5Udp => "socks5-udp".toList

structure HostApprovalKey where
  environmentId : Text
  host : Text
  protocol : Text
  port : Nat
  deriving DecidableEq

def HostApprovalKey.fromRequest (request : NetworkPolicyRequest) (environmentId : Text) :
    HostApprovalKey where
  environmentId
  host := Text.toAsciiLowercase request.host
  protocol := protocolKeyLabel request.protocol
  port := request.port

structure PendingHostApprovalKey where
  host : HostApprovalKey
  turnId : Text
  executionId : Option Text
  deriving DecidableEq

inductive PendingApprovalDecision where
  | allowOnce
  | allowForSession
  | deny
  deriving DecidableEq

inductive NetworkDecision where
  | allow
  | deny (reason : Text)
  deriving DecidableEq

def reasonNotAllowed : Text := "not_allowed".toList

def PendingApprovalDecision.toNetworkDecision : PendingApprovalDecision → NetworkDecision
  | allowOnce | allowForSession => .allow
  | deny => .deny reasonNotAllowed

inductive NetworkPolicyRuleAction where
  | allow
  | deny
  deriving DecidableEq

inductive ReviewDecision where
  | approved
  | approvedExecpolicyAmendment
  | approvedForSession
  | approvedMcpPolicyAmendment
  | networkPolicyAmendment (action : NetworkPolicyRuleAction)
  | denied
  | timedOut
  | abort
  deriving DecidableEq

/-- These are decided under the commit lock. -/
def ReviewDecision.commits : ReviewDecision → Bool
  | approved | approvedExecpolicyAmendment | approvedForSession | networkPolicyAmendment _ => true
  | approvedMcpPolicyAmendment | denied | timedOut | abort => false

/-! ### The service -/

/-- `notified` counts the calls of `notify_waiters`; a waiter is woken by those after it began to
listen. -/
structure PendingHostApproval where
  decision : Option PendingApprovalDecision
  notified : Nat

structure PendingHostApprovalOwner where
  key : PendingHostApprovalKey
  generation : Nat
  decisionOnDrop : PendingApprovalDecision
  deriving DecidableEq

/-- What `on_policy_applied` does. -/
def PendingHostApprovalOwner.onPolicyApplied (owner : PendingHostApprovalOwner)
    (action : NetworkPolicyRuleAction) : PendingHostApprovalOwner :=
  { owner with decisionOnDrop := match action with
    | .allow => .allowForSession
    | .deny => .deny }

/-- How an owner ends: it returns its decision, perhaps after it has amended the policy, or it was
dropped. -/
inductive Ending where
  | returning (decision : PendingApprovalDecision) (amended : Option NetworkPolicyRuleAction)
  | dropping (decision : PendingApprovalDecision)
  deriving DecidableEq

namespace Ending

def decision : Ending → PendingApprovalDecision
  | returning decision _ | dropping decision => decision

def amended? : Ending → Option NetworkPolicyRuleAction
  | returning _ amended => amended
  | dropping _ => none

end Ending

inductive Stage where
  | permitting
  | reviewing
  /-- Waits for the commit lock, if the decision needs it. -/
  | locking (decision : ReviewDecision)
  | deciding (decision : ReviewDecision)
  /-- Approved for the session, and the host is not denied. -/
  | approving
  | persisting (action : NetworkPolicyRuleAction)
  /-- Sends the message or the warning about an amendment. -/
  | recording (action : NetworkPolicyRuleAction)
  /-- About to update the first of the two caches. -/
  | updating (action : NetworkPolicyRuleAction)
  /-- About to update the second one. -/
  | updated (action : NetworkPolicyRuleAction)
  /-- `publish_and_remove`, step by step. -/
  | removing (ending : Ending)
  | publishing (ending : Ending)
  | notifying (ending : Ending)
  | leaving (ending : Ending)
  deriving DecidableEq

/-- The turn of a request and the execution it belongs to. -/
structure ActiveTurn where
  turnId : Text
  executionId : Option Text
  deriving DecidableEq

/-- Where a call of `handle_inline_policy_request` stands. -/
inductive Phase where
  | idle
  | started (request : NetworkPolicyRequest)
  | checking (key : HostApprovalKey) (turn : Option ActiveTurn)
  | checkingDenied (key : HostApprovalKey) (turn : Option ActiveTurn)
  | checkingApproved (key : HostApprovalKey) (turn : Option ActiveTurn)
  | joining (key : HostApprovalKey) (turn : Option ActiveTurn)
  /-- `wait_for_decision`: at the head of the loop, with a `Notified`, and waiting for it. -/
  | waiting (key : HostApprovalKey) (generation : Nat)
  | listening (key : HostApprovalKey) (generation seen : Nat)
  | parked (key : HostApprovalKey) (generation seen : Nat)
  | owning (owner : PendingHostApprovalOwner) (stage : Stage)
  /-- Returned, with the decision of a pending approval or without one. -/
  | finished (handed : Option (Nat × PendingApprovalDecision)) (decision : NetworkDecision)
  | dropped
  deriving DecidableEq

/-- What has happened, as far as it matters to others. -/
inductive Event where
  | started (i : Nat)
  /-- A request that committed an amendment returned, or was dropped. -/
  | amended (i : Nat) (key : HostApprovalKey) (action : NetworkPolicyRuleAction) (returned : Bool)
  | finished (i : Nat) (key : HostApprovalKey) (allowed : Bool)
  deriving DecidableEq

/-- `generations` are the pending approvals that were ever created.  `log` has the newest event
first; nothing reads it. -/
structure NetworkApprovalService where
  pendingHostApprovals : PendingHostApprovalKey → Option Nat
  generations : Nat → PendingHostApproval
  created : Nat
  commitLock : Option Nat
  approvedHosts : HostApprovalKey → Bool
  deniedHosts : HostApprovalKey → Bool
  phases : Nat → Phase
  log : List Event

inductive ReviewOutcome where
  /-- The execution was cancelled, or the approval failed. -/
  | failed
  | decided (decision : ReviewDecision)

inductive Action where
  | start (i : Nat) (request : NetworkPolicyRequest)
  /-- The request is attributed to an environment and perhaps to a turn, or denied. -/
  | resolve (i : Nat) (environmentId : Option Text) (turn : Option ActiveTurn)
  | advance (i : Nat)
  /-- Whether the settings let the request be reviewed. -/
  | permit (i : Nat) (allowed : Bool)
  | reviewed (i : Nat) (outcome : ReviewOutcome)
  /-- The amendment takes effect while it is being persisted. -/
  | applied (i : Nat)
  | persisted (i : Nat) (ok : Bool)
  | abandon (i : Nat)

namespace NetworkApprovalService

def new : NetworkApprovalService where
  pendingHostApprovals := fun _ => none
  generations := fun _ => ⟨none, 0⟩
  created := 0
  commitLock := none
  approvedHosts := fun _ => false
  deniedHosts := fun _ => false
  phases := fun _ => .idle
  log := []

variable (s : NetworkApprovalService)

def setPhase (i : Nat) (phase : Phase) : NetworkApprovalService :=
  { s with phases := Function.update s.phases i phase }

/-- The guard of the commit lock is dropped, if the request has it. -/
def unlock (i : Nat) : NetworkApprovalService :=
  { s with commitLock := if s.commitLock = some i then none else s.commitLock }

def record (event : Event) : NetworkApprovalService := { s with log := event :: s.log }

def setApproved (key : HostApprovalKey) (approved : Bool) : NetworkApprovalService :=
  { s with approvedHosts := Function.update s.approvedHosts key approved }

def setDenied (key : HostApprovalKey) (denied : Bool) : NetworkApprovalService :=
  { s with deniedHosts := Function.update s.deniedHosts key denied }

def setPending (key : PendingHostApprovalKey) (generation : Option Nat) : NetworkApprovalService :=
  { s with pendingHostApprovals := Function.update s.pendingHostApprovals key generation }

def setGeneration (generation : Nat) (pending : PendingHostApproval) : NetworkApprovalService :=
  { s with generations := Function.update s.generations generation pending }

def finish (i : Nat) (key : HostApprovalKey) (handed : Option (Nat × PendingApprovalDecision))
    (decision : NetworkDecision) : NetworkApprovalService :=
  (s.record (.finished i key (decision = .allow))).setPhase i (.finished handed decision)

/-- `get_or_create_pending_approval`, and the owner of a new one. -/
def join (i : Nat) (pendingKey : PendingHostApprovalKey) : NetworkApprovalService :=
  match s.pendingHostApprovals pendingKey with
  | some generation => s.setPhase i (.waiting pendingKey.host generation)
  | none =>
    { (s.setPending pendingKey (some s.created)).setGeneration s.created ⟨none, 0⟩ with
      created := s.created + 1 }.setPhase i (.owning ⟨pendingKey, s.created, .deny⟩ .permitting)

/-- The owner has its decision and did not amend the policy. -/
def resolved (decision : PendingApprovalDecision) : Stage := .removing (.returning decision none)

/-- What the owner does with the decision of the review. -/
def decide (i : Nat) (owner : PendingHostApprovalOwner) : ReviewDecision → NetworkApprovalService
  | .approved | .approvedExecpolicyAmendment =>
    if s.deniedHosts owner.key.host then s.setPhase i (.owning owner (resolved .deny))
    else s.setPhase i (.owning owner (resolved .allowOnce))
  | .approvedForSession =>
    if s.deniedHosts owner.key.host then s.setPhase i (.owning owner (resolved .deny))
    else s.setPhase i (.owning owner .approving)
  | .networkPolicyAmendment action => s.setPhase i (.owning owner (.persisting action))
  | .approvedMcpPolicyAmendment | .denied | .timedOut | .abort =>
    s.setPhase i (.owning owner (resolved .deny))

def advanceOwner (i : Nat) (owner : PendingHostApprovalOwner) :
    Stage → Option NetworkApprovalService
  | .locking decision =>
    if decision.commits then
      if s.commitLock.isSome then none
      else some { s.setPhase i (.owning owner (.deciding decision)) with commitLock := some i }
    else some (s.setPhase i (.owning owner (.deciding decision)))
  | .deciding decision => some (s.decide i owner decision)
  | .approving =>
    some ((s.setApproved owner.key.host true).setPhase i
      (.owning owner (resolved .allowForSession)))
  | .recording action => some (s.setPhase i (.owning owner (.updating action)))
  | .updating .allow =>
    if owner.decisionOnDrop = .allowForSession then
      some ((s.setDenied owner.key.host false).setPhase i (.owning owner (.updated .allow)))
    else some (s.setPhase i (.owning owner (resolved .deny)))
  | .updating .deny =>
    some ((s.setApproved owner.key.host false).setPhase i (.owning owner (.updated .deny)))
  | .updated .allow =>
    some ((s.setApproved owner.key.host true).setPhase i
      (.owning owner (.removing (.returning .allowForSession (some .allow)))))
  | .updated .deny =>
    some ((s.setDenied owner.key.host true).setPhase i
      (.owning owner (.removing (.returning .deny (some .deny)))))
  | .removing ending =>
    if s.pendingHostApprovals owner.key = some owner.generation then
      some ((s.setPending owner.key none).setPhase i (.owning owner (.publishing ending)))
    else some (s.setPhase i (.owning owner (.publishing ending)))
  | .publishing ending =>
    let pending := s.generations owner.generation
    if pending.decision.isNone then
      some ((s.setGeneration owner.generation { pending with decision := ending.decision })
        |>.setPhase i (.owning owner (.notifying ending)))
    else some (s.setPhase i (.owning owner (.leaving ending)))
  | .notifying ending =>
    let pending := s.generations owner.generation
    some ((s.setGeneration owner.generation { pending with notified := pending.notified + 1 })
      |>.setPhase i (.owning owner (.leaving ending)))
  | .leaving (.returning decision amended) =>
    let logged := match amended with
      | some action => s.record (.amended i owner.key.host action true)
      | none => s
    some ((logged.unlock i).finish i owner.key.host (some (owner.generation, decision))
      decision.toNetworkDecision)
  | .leaving (.dropping _) => some (s.setPhase i .dropped)
  | .permitting | .reviewing | .persisting _ => none

def advance (i : Nat) : Phase → Option NetworkApprovalService
  | .checking key turn =>
    if s.commitLock.isSome then none
    else some { s.setPhase i (.checkingDenied key turn) with commitLock := some i }
  | .checkingDenied key turn =>
    if s.deniedHosts key then some ((s.unlock i).finish i key none (.deny reasonNotAllowed))
    else some (s.setPhase i (.checkingApproved key turn))
  | .checkingApproved key turn =>
    if s.approvedHosts key then some ((s.unlock i).finish i key none .allow)
    else some ((s.unlock i).setPhase i (.joining key turn))
  | .joining key none => some (s.finish i key none (.deny reasonNotAllowed))
  | .joining key (some turn) => some (s.join i ⟨key, turn.turnId, turn.executionId⟩)
  | .waiting key generation =>
    some (s.setPhase i (.listening key generation (s.generations generation).notified))
  | .listening key generation seen =>
    match (s.generations generation).decision with
    | some decision =>
      some (s.finish i key (some (generation, decision)) decision.toNetworkDecision)
    | none => some (s.setPhase i (.parked key generation seen))
  | .parked key generation seen =>
    if seen < (s.generations generation).notified then
      some (s.setPhase i (.waiting key generation))
    else none
  | .owning owner stage => s.advanceOwner i owner stage
  | .idle | .started _ | .finished _ _ | .dropped => none

def resolve (i : Nat) (environmentId : Option Text) (turn : Option ActiveTurn) :
    Phase → Option NetworkApprovalService
  | .started request =>
    match environmentId with
    | none => some (s.setPhase i (.finished none (.deny reasonNotAllowed)))
    | some environmentId =>
      some (s.setPhase i (.checking (.fromRequest request environmentId) turn))
  | _ => none

def permit (i : Nat) (allowed : Bool) : Phase → Option NetworkApprovalService
  | .owning owner .permitting =>
    some (s.setPhase i (.owning owner (if allowed then .reviewing else resolved .deny)))
  | _ => none

def reviewed (i : Nat) (outcome : ReviewOutcome) : Phase → Option NetworkApprovalService
  | .owning owner .reviewing =>
    match outcome with
    | .failed => some (s.setPhase i (.owning owner (resolved .deny)))
    | .decided decision => some (s.setPhase i (.owning owner (.locking decision)))
  | _ => none

def applied (i : Nat) : Phase → Option NetworkApprovalService
  | .owning owner (.persisting action) =>
    some (s.setPhase i (.owning (owner.onPolicyApplied action) (.persisting action)))
  | _ => none

/-- Persisting succeeds only when the amendment took effect; it may fail after that as well. -/
def persisted (i : Nat) (ok : Bool) : Phase → Option NetworkApprovalService
  | .owning owner (.persisting action) =>
    let owner := if ok then owner.onPolicyApplied action else owner
    some (s.setPhase i (.owning owner (.recording action)))
  | _ => none

/-- The guard of the commit lock is dropped before the owner of the pending approval, which
publishes the decision it has for this case. -/
def dropOwner (i : Nat) (owner : PendingHostApprovalOwner)
    (amending : Option NetworkPolicyRuleAction) : NetworkApprovalService :=
  let logged := match amending with
    | some .allow =>
      if owner.decisionOnDrop = PendingApprovalDecision.allowForSession then
        s.record (.amended i owner.key.host .allow false)
      else s
    | _ => s
  (logged.unlock i).setPhase i (.owning owner (.removing (.dropping owner.decisionOnDrop)))

def abandon (i : Nat) : Phase → Option NetworkApprovalService
  | .started _ | .checking _ _ | .parked _ _ _ => some (s.setPhase i .dropped)
  | .checkingDenied _ _ | .checkingApproved _ _ => some ((s.unlock i).setPhase i .dropped)
  | .owning owner stage =>
    match stage with
    | .reviewing | .locking _ | .deciding _ | .approving => some (s.dropOwner i owner none)
    | .persisting action | .recording action | .updating action | .updated action =>
      some (s.dropOwner i owner (some action))
    | .permitting | .removing _ | .publishing _ | .notifying _ | .leaving _ => none
  | .idle | .joining _ _ | .waiting _ _ | .listening _ _ _ | .finished _ _ | .dropped => none

def step (s : NetworkApprovalService) : Action → Option NetworkApprovalService
  | .start i request =>
    match s.phases i with
    | .idle => some ((s.record (.started i)).setPhase i (.started request))
    | _ => none
  | .resolve i environmentId turn => s.resolve i environmentId turn (s.phases i)
  | .advance i => s.advance i (s.phases i)
  | .permit i allowed => s.permit i allowed (s.phases i)
  | .reviewed i outcome => s.reviewed i outcome (s.phases i)
  | .applied i => s.applied i (s.phases i)
  | .persisted i ok => s.persisted i ok (s.phases i)
  | .abandon i => s.abandon i (s.phases i)

end NetworkApprovalService

end SushiGpt.Core.NetworkApproval
