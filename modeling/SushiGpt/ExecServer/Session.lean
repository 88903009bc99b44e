/-
The events of one remote process on the client: `SessionState` of `exec-server/src/client.rs`
and its recovery in `exec-server/src/client_recovery.rs`.

Notifications carry sequence numbers and may come in any order.  An event is published once all
earlier ones have been; until then it waits in `pending`.  After a reconnect the client reads
what the server retains and fills the gaps from it.

Every function here runs under one lock, so a call is one step.  A recovery changes the state
as it goes, also when it fails in the end: it fails with the state it has reached.
-/
import SushiGpt.ExecServer.Protocol
import SushiGpt.Lib.OrderedMap

namespace SushiGpt.ExecServer

def maxPendingProcessEvents : Nat := 256

def maxPendingProcessEventBytes : Nat := 1024 * 1024

def decimal (n : Nat) : Text := n.repr.toList

def pendingProcessEventBytes : ExecProcessEvent → Nat
  | .output chunk => chunk.chunk.length
  | .failed message => message.utf8.length
  | .exited .. => 0
  | .closed _ => 0

/-- `OrderedSessionEvents` with what has been published and the value of `wake_tx`. -/
structure SessionState where
  lastPublishedSeq : Nat
  exitPublished : Bool
  closedPublished : Bool
  pending : OrderedMap Nat ExecProcessEvent
  pendingBytes : Nat
  failure : Option Text
  events : List ExecProcessEvent
  wake : Nat

namespace SessionState

def new : SessionState := ⟨0, false, false, .empty, 0, none, [], 0⟩

variable (state : SessionState) (response : ReadResponse) (targetSeq : Nat)
  (recovering : Recovering)

def noteChange (seq : Nat) : SessionState :=
  { state with wake := max state.wake seq }

def insertPending (event : ExecProcessEvent) : Except Text SessionState :=
  match event.seq with
  | none => .error "cannot reorder an unsequenced process event".toList
  | some seq =>
    if (state.pending.get? seq).isSome then .ok state
    else
      let closesGap := seq == state.lastPublishedSeq + 1
      let eventBytes := pendingProcessEventBytes event
      let pendingBytes := state.pendingBytes + eventBytes
      if !closesGap && state.pending.size ≥ maxPendingProcessEvents then
        .error ("process event reorder buffer exceeds ".toList ++
          decimal maxPendingProcessEvents ++ " entries".toList)
      else if eventBytes > maxPendingProcessEventBytes then
        .error ("process event exceeds ".toList ++ decimal maxPendingProcessEventBytes ++
          " bytes".toList)
      else if !closesGap && pendingBytes > maxPendingProcessEventBytes then
        .error ("process event reorder buffer exceeds ".toList ++
          decimal maxPendingProcessEventBytes ++ " bytes".toList)
      else .ok { state with pending := state.pending.insert seq event, pendingBytes }

/-- Publishes the event with the next number, which is taken out of `pending`. -/
def publishNext (event : ExecProcessEvent) : SessionState :=
  { state with
    lastPublishedSeq := state.lastPublishedSeq + 1
    exitPublished := state.exitPublished || event.isExited
    closedPublished := state.closedPublished || event.isClosed
    pending := state.pending.erase (state.lastPublishedSeq + 1)
    pendingBytes := state.pendingBytes - pendingProcessEventBytes event
    events := state.events ++ [event] }

def publishReadyLoop : Nat → SessionState → SessionState × Bool
  | 0, state => (state, false)
  | fuel + 1, state =>
    match state.pending.get? (state.lastPublishedSeq + 1) with
    | none => (state, false)
    | some event =>
      let after := publishReadyLoop fuel (state.publishNext event)
      (after.1, event.isClosed || after.2)

/-- Every round takes one event out of `pending`. -/
def publishReady : SessionState × Bool :=
  publishReadyLoop state.pending.size state

def publishOrderedEvent (event : ExecProcessEvent) : SessionState × Except Text Bool :=
  match event.seq with
  | none => ({ state with events := state.events ++ [event] }, .ok false)
  | some seq =>
    if state.failure.isSome || state.closedPublished || seq ≤ state.lastPublishedSeq then
      (state, .ok false)
    else
      match state.insertPending event with
      | .error message => (state, .error message)
      | .ok inserted => (inserted.publishReady.1, .ok inserted.publishReady.2)

def setFailure (message : Text) : SessionState :=
  if state.failure.isSome || state.closedPublished then state
  else
    { state with
      failure := some message
      pending := .empty
      pendingBytes := 0
      events := state.events ++ [.failed message]
      wake := state.wake + 1 }

/-! ### Recovery -/

/-- A recovery under way: the state, whether the exit is published or pending, and whether
the close has been published. -/
structure Recovering where
  session : SessionState
  exitKnown : Bool
  publishedClosed : Bool

/-- A failed recovery leaves the state as far as it got. -/
abbrev Recovery := Except (SessionState × Text) Recovering

namespace Recovering

def insert (recovering : Recovering) (event : ExecProcessEvent) : Recovery :=
  match recovering.session.insertPending event with
  | .error message => .error (recovering.session, message)
  | .ok inserted => .ok { recovering with session := inserted }

def publish (recovering : Recovering) : Recovering :=
  { recovering with
    session := recovering.session.publishReady.1
    publishedClosed := recovering.publishedClosed || recovering.session.publishReady.2 }

end Recovering

def missingExitCode : Text := "recovering exited process did not include its exit code".toList

def recoveryGapError : Text :=
  "process events are no longer retained while recovering through sequence ".toList ++
    decimal targetSeq

/-- The exit is neither published nor pending, and a chunk lies beyond the next number: the
next event is taken for the exit. -/
def infersExit (chunk : ProcessOutputChunk) : Bool :=
  response.exited && !recovering.exitKnown && chunk.seq > recovering.session.lastPublishedSeq + 1

def recoverExitBefore (chunk : ProcessOutputChunk) : Recovery :=
  if infersExit response recovering chunk then
    match response.exitCode with
    | none => .error (recovering.session, missingExitCode)
    | some exitCode =>
      (recovering.insert (.exited (recovering.session.lastPublishedSeq + 1) exitCode
        (some response.sandboxDenied))).map fun inserted =>
          { inserted.publish with exitKnown := true }
  else .ok recovering

def recoverOutput (chunk : ProcessOutputChunk) : Recovery :=
  if chunk.seq > recovering.session.lastPublishedSeq then
    (recovering.insert (.output chunk)).map (·.publish)
  else .ok recovering

def recoverChunk (chunk : ProcessOutputChunk) : Recovery :=
  if chunk.seq > targetSeq then
    .error (recovering.session, "recovered process output sequence ".toList ++
      decimal chunk.seq ++ " exceeds target sequence ".toList ++ decimal targetSeq)
  else (recoverExitBefore response recovering chunk).bind fun recovering =>
    recoverOutput recovering chunk

def recoverChunks (response : ReadResponse) (targetSeq : Nat) :
    Recovering → List ProcessOutputChunk → Recovery
  | recovering, [] => .ok recovering
  | recovering, chunk :: rest =>
    (recoverChunk response targetSeq recovering chunk).bind fun recovering =>
      recoverChunks response targetSeq recovering rest

def recoverClosed : Recovery :=
  if response.closed && !recovering.session.closedPublished &&
      !((recovering.session.pending.get? targetSeq).any (·.isClosed)) then
    recovering.insert (.closed targetSeq)
  else .ok recovering

/-- The loop of `first_missing_seq` over the pending numbers. -/
def firstMissingLoop : Nat → List Nat → Nat
  | expected, [] => expected
  | expected, seq :: rest =>
    if seq ≠ expected then expected else firstMissingLoop (expected + 1) rest

def firstMissingSeq : Nat :=
  let expected := state.lastPublishedSeq + 1
  firstMissingLoop expected ((state.pending.range expected targetSeq).map Prod.fst)

/-- How many events up to the target are neither published nor pending. -/
def missingCount : Nat :=
  targetSeq - state.lastPublishedSeq -
    (if state.lastPublishedSeq + 1 ≤ targetSeq then
      (state.pending.range (state.lastPublishedSeq + 1) targetSeq).length
    else 0)

def recoverExited : Recovery :=
  if response.exited && !recovering.exitKnown then
    if missingCount recovering.session targetSeq ≠ 1 then
      .error (recovering.session, recoveryGapError targetSeq)
    else
      match response.exitCode with
      | none => .error (recovering.session, missingExitCode)
      | some exitCode =>
        recovering.insert (.exited (firstMissingSeq recovering.session targetSeq) exitCode
          (some response.sandboxDenied))
  else if missingCount recovering.session targetSeq ≠ 0 then
    .error (recovering.session, recoveryGapError targetSeq)
  else .ok recovering

/-- The number of the exit among the pending events up to the target. -/
def pendingExit : Option Nat :=
  (state.pending.entries.find? fun entry => entry.1 ≤ targetSeq && entry.2.isExited).map Prod.fst

def addDenial (sandboxDenied : Bool) : ExecProcessEvent → ExecProcessEvent
  | .exited seq exitCode pendingSandboxDenied =>
    .exited seq exitCode (some (pendingSandboxDenied.getD false || sandboxDenied))
  | event => event

/-- The state with the server's verdict on the pending exit. -/
def beginRecovery : Recovering :=
  match state.pendingExit targetSeq with
  | none => ⟨state, state.exitPublished, false⟩
  | some seq =>
    ⟨{ state with pending := state.pending.modify seq (addDenial response.sandboxDenied) },
      true, false⟩

/-- The close would have the number of something else. -/
def closeConflicts : Bool :=
  response.closed &&
    ((state.pending.get? targetSeq).any (fun event => !event.isClosed) ||
      response.chunks.any fun chunk => chunk.seq == targetSeq)

def recoverFrom : Recovery :=
  ((recoverChunks response targetSeq recovering response.chunks).bind
    (recoverClosed response targetSeq)).bind (recoverExited response targetSeq)

/-- Publishes what is ready after a recovery that has not failed. -/
def finishRecovery : Recovery → SessionState × Except Text Bool
  | .error (reached, message) => (reached, .error message)
  | .ok recovered => (recovered.publish.session.noteChange targetSeq,
      .ok recovered.publish.publishedClosed)

def recoverEvents : SessionState × Except Text Bool :=
  match response.failure with
  | some message => (state, .error ("process failed while recovering: ".toList ++ message))
  | none =>
    let targetSeq := response.nextSeq - 1
    if state.failure.isSome || state.closedPublished || targetSeq ≤ state.lastPublishedSeq then
      (state, .ok false)
    else
      let recovering := beginRecovery state response targetSeq
      if closeConflicts recovering.session response targetSeq then
        (recovering.session, .error ("process close sequence ".toList ++ decimal targetSeq ++
          " conflicts with recovered output".toList))
      else finishRecovery targetSeq (recoverFrom response targetSeq recovering)

end SessionState

end SushiGpt.ExecServer
