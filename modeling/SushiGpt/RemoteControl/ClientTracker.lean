/-
The connections of remote-control clients:
`app-server-transport/src/transport/remote_control/client_tracker.rs` and the loop of
`run_websocket_reader_inner` in `websocket.rs`.

The reader of the websocket holds the tracker while it runs, so each round of its loop is one
step: an envelope of a client, the end of an outbound task, or an idle sweep.  A send may fail,
because it times out or nobody receives any more, and the reader may be aborted while it waits
for one.  The event of a closed connection is sent by a task of its own, which an aborted
reader leaves behind.
-/
import Mathlib.Data.List.AList
import SushiGpt.Lib.Text

namespace SushiGpt.RemoteControl

abbrev ClientId := Text

abbrev StreamId := Text

abbrev ClientKey := ClientId × StreamId

/-- In milliseconds. -/
def remoteControlClientIdleTimeout : Nat := 10 * 60 * 1000

inductive ClientEvent (Message : Type) where
  | clientMessage (message : Message)
  | clientMessageChunk
  | ack
  | ping
  | clientClosed

structure ClientEnvelope (Message : Type) where
  event : ClientEvent Message
  clientId : ClientId
  streamId : Option StreamId
  seqId : Option Nat

inductive TransportEvent (Message : Type) where
  | connectionOpened (connectionId : Nat)
  | incomingMessage (connectionId : Nat) (message : Message)
  | connectionClosed (connectionId : Nat)

structure ClientState where
  connectionId : Nat
  lastActivityAt : Nat
  lastInboundSeqId : Option Nat

/-- A task of the join set.  It ends with its key when its token is cancelled, when a channel
closes, or when the app server drops its writer. -/
structure OutboundTask where
  connectionId : Nat
  key : ClientKey
  cancelled : Bool
  ended : Bool

inductive CloseCause where
  | clientClosed
  | reinitialized
  | initializeFailed
  | idle
  /-- The task of a connection ended. -/
  | taskEnded (connectionId : Nat)
  | shutdown
  deriving DecidableEq

inductive SendOutcome where
  | sent
  /-- It fails with `Stopped`. -/
  | stopped
  /-- The sender is aborted while it waits. -/
  | aborted

/-- `closing` are the tasks that still have to send the event of a closed connection, and
`events` is what the app server receives.  `closes` tells which connections have been closed
and why; nothing reads it. -/
structure ClientTracker (Message : Type) where
  clients : AList fun _ : ClientKey => ClientState
  legacyStreamIds : AList fun _ : ClientId => StreamId
  joinSet : List OutboundTask
  closing : List Nat
  events : List (TransportEvent Message)
  nextConnectionId : Nat
  closes : List (Nat × CloseCause)

namespace ClientTracker

variable {Message : Type}

def new (nextConnectionId : Nat) : ClientTracker Message :=
  ⟨∅, ∅, [], [], [], nextConnectionId, []⟩

/-- A handler goes on, or ends where a send did not go through. -/
abbrev Handled (Message : Type) := Except (ClientTracker Message) (ClientTracker Message)

def left : Handled Message → ClientTracker Message
  | .ok tracker => tracker
  | .error tracker => tracker

variable (tracker : ClientTracker Message) (key : ClientKey)

def sendTransportEvent (event : TransportEvent Message) : SendOutcome → Handled Message
  | .sent => .ok { tracker with events := tracker.events ++ [event] }
  | .stopped | .aborted => .error tracker

def cancel (connectionId : Nat) : ClientTracker Message :=
  { tracker with
    joinSet := tracker.joinSet.map fun task =>
      if task.connectionId = connectionId then { task with cancelled := true } else task }

def removeClient : ClientTracker Message :=
  { tracker with
    clients := tracker.clients.erase key
    legacyStreamIds :=
      if tracker.legacyStreamIds.lookup key.1 = some key.2 then
        tracker.legacyStreamIds.erase key.1
      else tracker.legacyStreamIds }

def disconnect (connectionId : Nat) (cause : CloseCause) : ClientTracker Message :=
  { (tracker.removeClient key).cancel connectionId with
    closes := tracker.closes ++ [(connectionId, cause)] }

/-- The event of a closed connection.  When nobody receives any more it is lost; when the
reader is aborted, the task that sends it goes on. -/
def sendConnectionClosed (connectionId : Nat) : SendOutcome → Handled Message
  | .sent => .ok { tracker with events := tracker.events ++ [.connectionClosed connectionId] }
  | .stopped => .error tracker
  | .aborted => .error { tracker with closing := tracker.closing ++ [connectionId] }

def closeClient (cause : CloseCause) (outcome : SendOutcome) : Handled Message :=
  match tracker.clients.lookup key with
  | none => .ok tracker
  | some client =>
    (tracker.disconnect key client.connectionId cause).sendConnectionClosed
      client.connectionId outcome

def recordInboundMessageDelivery (seqId : Option Nat) : ClientTracker Message :=
  match seqId, tracker.clients.lookup key with
  | some seqId, some client =>
    { tracker with
      clients := tracker.clients.insert key { client with lastInboundSeqId := some seqId } }
  | _, _ => tracker

def forwardMessage (client : ClientState) (message : Message) (seqId : Option Nat) (now : Nat)
    (outcome : SendOutcome) : Handled Message :=
  let touched : ClientTracker Message :=
    { tracker with clients := tracker.clients.insert key { client with lastActivityAt := now } }
  (touched.sendTransportEvent (.incomingMessage client.connectionId message) outcome).map
    (recordInboundMessageDelivery · key seqId)

def insertConnection (isLegacyStreamId : Bool) (now : Nat) : ClientTracker Message :=
  let connectionId := tracker.nextConnectionId
  { tracker with
    clients := tracker.clients.insert key ⟨connectionId, now, none⟩
    legacyStreamIds :=
      if isLegacyStreamId then tracker.legacyStreamIds.insert key.1 key.2
      else tracker.legacyStreamIds
    joinSet := tracker.joinSet ++ [⟨connectionId, key, false, false⟩]
    events := tracker.events ++ [.connectionOpened connectionId]
    nextConnectionId := connectionId + 1 }

/-- Opens a connection with its first message.  If that cannot be forwarded, the connection is
given up and a task is left to say so. -/
def openConnection (message : Message) (isLegacyStreamId : Bool) (seqId : Option Nat) (now : Nat)
    (opened incoming : SendOutcome) : Handled Message :=
  let connectionId := tracker.nextConnectionId
  match opened with
  | .stopped | .aborted => .error { tracker with nextConnectionId := connectionId + 1 }
  | .sent =>
    let inserted := tracker.insertConnection key isLegacyStreamId now
    match incoming with
    | .sent =>
      let sent : ClientTracker Message :=
        { inserted with
          events := inserted.events ++ [.incomingMessage connectionId message] }
      .ok (if isLegacyStreamId then sent else sent.recordInboundMessageDelivery key seqId)
    | .stopped =>
      let disconnected := inserted.disconnect key connectionId .initializeFailed
      .error { disconnected with closing := disconnected.closing ++ [connectionId] }
    | .aborted => .error inserted

/-- The time, the random stream id and the fate of the sends while an envelope is handled. -/
structure Circumstances where
  now : Nat
  random : StreamId
  close : SendOutcome
  opened : SendOutcome
  incoming : SendOutcome

/-- A message with a number that has already been delivered. -/
def isDelivered (seqId : Option Nat) : Bool :=
  match seqId, tracker.clients.lookup key with
  | some seqId, some client => client.lastInboundSeqId.any fun last => last ≥ seqId
  | _, _ => false

def handleClientMessage (message : Message) (isInitialize isLegacyStreamId : Bool)
    (seqId : Option Nat) (given : Circumstances) : Handled Message :=
  if tracker.isDelivered key seqId && !isInitialize then .ok tracker
  else
    (if isInitialize then tracker.closeClient key .reinitialized given.close
      else .ok tracker).bind fun tracker =>
        match tracker.clients.lookup key with
        | some client => tracker.forwardMessage key client message seqId given.now given.incoming
        | none =>
          if !isInitialize then .ok tracker
          else
            tracker.openConnection key message isLegacyStreamId seqId given.now given.opened
              given.incoming

/-- `last_activity_at` of a client that pings. -/
def touch (now : Nat) : ClientTracker Message :=
  match tracker.clients.lookup key with
  | none => tracker
  | some client =>
    { tracker with clients := tracker.clients.insert key { client with lastActivityAt := now } }

section

variable (method : Message → Option Text)

/-- A request to initialize. -/
def startsConnection (event : ClientEvent Message) : Bool :=
  match event with
  | .clientMessage message => method message == some "initialize".toList
  | _ => false

variable (tracker : ClientTracker Message)

/-- The stream of an envelope.  Old clients do not send one; theirs is remembered. -/
def resolveStream (envelope : ClientEnvelope Message) (random : StreamId) :
    StreamId × ClientTracker Message :=
  match envelope.streamId with
  | some streamId => (streamId, tracker)
  | none =>
    let remembered := tracker.legacyStreamIds.lookup envelope.clientId
    if startsConnection method envelope.event then
      (remembered.getD random, { tracker with
        legacyStreamIds := tracker.legacyStreamIds.erase envelope.clientId })
    else
      match envelope.event with
      | .ping => (remembered.getD random, tracker)
      | _ => (remembered.getD [], tracker)

def handleMessage (envelope : ClientEnvelope Message) (given : Circumstances) : Handled Message :=
  let (streamId, tracker) := tracker.resolveStream method envelope given.random
  if streamId = [] then .ok tracker
  else
    let key := (envelope.clientId, streamId)
    match envelope.event with
    | .clientMessage message =>
      tracker.handleClientMessage key message (startsConnection method envelope.event)
        envelope.streamId.isNone envelope.seqId given
    | .clientMessageChunk => .ok tracker
    | .ack => .ok tracker
    | .ping => .ok (tracker.touch key given.now)
    | .clientClosed => tracker.closeClient key .clientClosed given.close

end

def isExpired (now : Nat) (client : ClientState) : Bool :=
  now - client.lastActivityAt ≥ remoteControlClientIdleTimeout

def expiredKeys (now : Nat) : List ClientKey :=
  (tracker.clients.entries.filter fun entry => isExpired now entry.2).map Sigma.fst

/-- Closes clients one after the other, until a send does not go through. -/
def closeClients (cause : CloseCause) : ClientTracker Message → List (ClientKey × SendOutcome) →
    Handled Message
  | tracker, [] => .ok tracker
  | tracker, (key, outcome) :: rest =>
    (tracker.closeClient key cause outcome).bind fun tracker => closeClients cause tracker rest

/-- The loop of `shutdown`, which goes on after a send that did not go through. -/
def closeAll : ClientTracker Message → List (ClientKey × SendOutcome) → ClientTracker Message
  | tracker, [] => tracker
  | tracker, (key, outcome) :: rest =>
    closeAll (left (tracker.closeClient key .shutdown outcome)) rest

end ClientTracker

/-- The order in which a hash map is walked is given with the action. -/
inductive TrackerAction (Message : Type) where
  | envelope (envelope : ClientEnvelope Message) (given : ClientTracker.Circumstances)
  /-- An outbound task ends. -/
  | taskEnds (task : Nat)
  /-- `bookkeep_join_set` reports a task that has ended. -/
  | bookkeep (task : Nat) (outcome : SendOutcome)
  /-- A task that panicked is dropped without a report. -/
  | panicked (task : Nat)
  | sweep (now : Nat) (expired : List (ClientKey × SendOutcome))
  /-- A task that was left behind sends the event of a closed connection, or fails to. -/
  | closeSent (index : Nat) (received : Bool)
  | shutdown (clients : List (ClientKey × SendOutcome))

namespace ClientTracker

variable {Message : Type} (method : Message → Option Text)

def step (tracker : ClientTracker Message) : TrackerAction Message → Option (ClientTracker Message)
  | .envelope envelope given => some (left (tracker.handleMessage method envelope given))
  | .taskEnds index =>
    (tracker.joinSet[index]?).map fun task =>
      { tracker with joinSet := tracker.joinSet.set index { task with ended := true } }
  | .bookkeep index outcome => do
    let task ← tracker.joinSet[index]?
    if task.ended then
      some (left ({ tracker with joinSet := tracker.joinSet.eraseIdx index }.closeClient
        task.key (.taskEnded task.connectionId) outcome))
    else none
  | .panicked index => some { tracker with joinSet := tracker.joinSet.eraseIdx index }
  | .sweep now expired =>
    if (expired.map Prod.fst).isPerm (tracker.expiredKeys now) then
      some (left (closeClients .idle tracker expired))
    else none
  | .closeSent index received =>
    (tracker.closing[index]?).map fun connectionId =>
      { tracker with
        closing := tracker.closing.eraseIdx index
        events :=
          if received then tracker.events ++ [.connectionClosed connectionId]
          else tracker.events }
  | .shutdown clients =>
    if (clients.map Prod.fst).isPerm tracker.clients.keys then
      some { closeAll tracker clients with joinSet := [] }
    else none

end ClientTracker

end SushiGpt.RemoteControl
