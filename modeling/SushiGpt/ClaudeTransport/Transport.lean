/-
Who owns the session: `claude-transport/src/lib.rs`.

A transport keeps at most one session, parked behind a mutex between two streams.  Every
stream spawns a task that leases the session, runs one sampling request with it and publishes
it again, and a watcher that fails a session parked in the middle of a turn when the turn is
cancelled; dropping the transport spawns a task that stops a parked session.  The tasks
interleave freely, so the transport is a transition system here: one action is one section
between two awaits, and a section under the lock is not interrupted by another one.
-/
import SushiGpt.ClaudeTransport.Sampling

namespace SushiGpt.ClaudeTransport

open CodexApi

/-! ### The provider of a stream -/

/-- The settings of a provider that are checked; of most only whether they are set. -/
structure ModelProviderInfo where
  cliCommand : Option Text
  baseUrl : Bool
  envKey : Bool
  auth : Bool
  gatewayOauth : Bool
  aws : Bool
  experimentalBearerToken : Bool
  requiresOpenaiAuth : Bool
  supportsWebsockets : Bool

def validateProvider (provider : ModelProviderInfo) : Except String Unit :=
  if provider.cliCommand.all List.isEmpty then
    .error "Local Claude requires an explicit cli_command executable."
  else if provider.baseUrl || provider.envKey || provider.auth || provider.gatewayOauth ||
      provider.aws || provider.experimentalBearerToken || provider.requiresOpenaiAuth ||
      provider.supportsWebsockets then
    .error "Local Claude uses CLI-managed authentication, without HTTP provider settings."
  else .ok ()

/-- The arguments of `Transport::stream`; its turn token is the one of the turn. -/
structure StreamRequest where
  provider : ModelProviderInfo
  prompt : Prompt
  outputSchema : Bool
  cyberAccessProgram : Bool
  model : Text
  turnId : Option Text

def StreamRequest.validate (request : StreamRequest) : Except CodexErr Unit :=
  match validateProvider request.provider with
  | .error message => .error (failure message)
  | .ok () =>
    if request.outputSchema || request.cyberAccessProgram then
      .error (failure "output schemas and access programs are unsupported")
    else .ok ()

/-! ### The state behind the mutex -/

/-- A session with the turn it was last used for.  `key` is the number of its child process,
by which sessions are told apart. -/
structure Owned where
  key : Nat
  session : Session
  turnId : Option Text

/-- Exactly one of: parked (with or without a session), streaming, or failed. -/
inductive State where
  | idle (session : Option Owned)
  | active
  | failed

namespace State

def takeSession : State → Except CodexErr (Option Owned) × State
  | idle session => (.ok session, active)
  | active => (.error (failure "overlapping native sampling requests"), active)
  | failed => (.error (failure "session failed; replay is disabled"), failed)

def takeIdle : State → Option Owned × State
  | idle session => (session, idle none)
  | active => (none, active)
  | failed => (none, failed)

/-- Fails the transport and returns a session parked in the middle of the given turn. -/
def failParked (turnId : Option Text) : State → Option Owned × State
  | idle (some owned) =>
    if owned.session.inTurn && owned.turnId == turnId then (some owned, failed)
    else (none, idle (some owned))
  | state => (none, state)

end State

/-! ### Tasks -/

inductive Task where
  /-- Spawned; the lease has not been taken. -/
  | queued
  /-- Inside `select!`, with the session it has leased or started. -/
  | running (session : Option Owned)
  /-- Inside `Session::start`, whose child process runs. -/
  | starting (key : Nat)
  /-- `select!` is over. -/
  | ended (session : Option Owned) (outcome : Except CodexErr ResponseEvent)
  /-- The lock is held and the tokens have been read. -/
  | publishing (session : Option Owned) (outcome : Except CodexErr ResponseEvent)
  /-- The lock is free again and a session is left to stop. -/
  | stopping (session : Owned) (outcome : Except CodexErr ResponseEvent)
  | done (outcome : Except CodexErr ResponseEvent)

/-- The watcher of a stream, or the task of the drop, which stop the session they take. -/
inductive Stopper where
  | waiting
  | stopping (session : Owned)
  | done

structure Stream where
  prompt : Prompt
  model : Text
  turnId : Option Text
  consumerDropped : Bool
  task : Task
  watcher : Stopper

/-- What the tasks share.  `created` are the sessions that `Session::start` has returned,
`stopped` those that have been stopped, and `killed` the child processes that were dropped,
and thereby killed, before their session was returned. -/
structure Shared where
  state : State
  cancelledTurns : List (Option Text)
  shutdown : Bool
  children : Nat
  created : List Nat
  stopped : List Nat
  killed : List Nat

structure Transport where
  shared : Shared
  streams : List Stream
  /-- The task of the drop, once the transport has been dropped. -/
  dropTask : Option Stopper

namespace Transport

def new : Transport where
  shared := ⟨.idle none, [], false, 0, [], [], []⟩
  streams := []
  dropTask := none

end Transport

/-- What one of the tasks of a stream does next. -/
inductive StreamAction where
  | lease
  /-- `Session::start` spawns the child process. -/
  | spawn
  | startFails (error : CodexErr)
  /-- `Session::start` returns, having read the frames. -/
  | starts (frames : List Json)
  /-- `Session::sample` returns `Ok`, having read the inputs. -/
  | samples (uuid : Text) (inputs : List Input)
  /-- `Session::sample` fails and leaves the session as given. -/
  | sampleFails (error : CodexErr) (left : Session)
  /-- Another branch of `select!` wins, and leaves the session, which will be stopped, as
  given. -/
  | aborts (left : Session)
  | check
  | publish
  | stop
  | dropConsumer
  | watch
  | watcherStops

namespace Stream

/-- One of the tokens that `select!` waits for is cancelled. -/
def interrupted (stream : Stream) (shared : Shared) : Bool :=
  stream.consumerDropped || shared.cancelledTurns.contains stream.turnId || shared.shutdown

/-- The outcome as it is after the tokens have been read under the lock. -/
def checked (stream : Stream) (shared : Shared) (session : Option Owned)
    (outcome : Except CodexErr ResponseEvent) : Except CodexErr ResponseEvent :=
  if stream.consumerDropped || shared.shutdown ||
      (shared.cancelledTurns.contains stream.turnId &&
        session.any fun owned => owned.session.inTurn) then .error .turnAborted
  else outcome

/-- The session is parked when the outcome is `Ok`; otherwise it is left to stop. -/
def afterPublish (session : Option Owned) (outcome : Except CodexErr ResponseEvent) :
    State × Task :=
  match outcome, session with
  | .ok _, session => (.idle session, .done outcome)
  | .error _, some owned => (.failed, .stopping owned outcome)
  | .error _, none => (.failed, .done outcome)

/-- The tasks of a stream.  `locked` tells that some task holds the lock, `alive` that the
state behind the mutex still exists. -/
def step (serde : Serde) (locked alive : Bool) (shared : Shared) (stream : Stream) :
    StreamAction → Option (Shared × Stream)
  | .lease =>
    match stream.task with
    | .queued =>
      if locked then none
      else
        match shared.state.takeSession with
        | (.ok session, state) =>
          some ({ shared with state }, { stream with task := .running session })
        | (.error error, state) =>
          some ({ shared with state }, { stream with task := .done (.error error) })
    | _ => none
  | .spawn =>
    match stream.task with
    | .running none =>
      some ({ shared with children := shared.children + 1 },
        { stream with task := .starting shared.children })
    | _ => none
  | .startFails error =>
    match stream.task with
    | .running none => some (shared, { stream with task := .ended none (.error error) })
    | .starting key =>
      -- The child process is killed when the session under construction is dropped.
      some ({ shared with killed := key :: shared.killed },
        { stream with task := .ended none (.error error) })
    | _ => none
  | .starts frames =>
    match stream.task with
    | .starting key =>
      match Session.start serde stream.prompt stream.model frames with
      | some session =>
        some ({ shared with created := key :: shared.created },
          { stream with task := .running (some ⟨key, session, none⟩) })
      | none => none
    | _ => none
  | .samples uuid inputs =>
    match stream.task with
    | .running (some owned) =>
      match owned.session.sample serde ⟨stream.prompt, stream.model, uuid, inputs⟩ with
      | some state =>
        match state.completed with
        | .ok event =>
          some (shared, { stream with
            task := .ended (some ⟨owned.key, state.session, stream.turnId⟩) (.ok event) })
        | .error _ => none
      | none => none
    | _ => none
  | .sampleFails error left =>
    match stream.task with
    | .running (some owned) =>
      some (shared, { stream with
        task := .ended (some ⟨owned.key, left, stream.turnId⟩) (.error error) })
    | _ => none
  | .aborts left =>
    if !stream.interrupted shared then none
    else
      match stream.task with
      | .running none =>
        some (shared, { stream with task := .ended none (.error .turnAborted) })
      | .starting key =>
        some ({ shared with killed := key :: shared.killed },
          { stream with task := .ended none (.error .turnAborted) })
      | .running (some owned) =>
        some (shared, { stream with
          task := .ended (some ⟨owned.key, left, stream.turnId⟩) (.error .turnAborted) })
      | _ => none
  | .check =>
    match stream.task with
    | .ended session outcome =>
      if locked then none
      else
        some (shared, { stream with
          task := .publishing session (stream.checked shared session outcome) })
    | _ => none
  | .publish =>
    match stream.task with
    | .publishing session outcome =>
      some ({ shared with state := (afterPublish session outcome).1 },
        { stream with task := (afterPublish session outcome).2 })
    | _ => none
  | .stop =>
    match stream.task with
    | .stopping owned outcome =>
      some ({ shared with stopped := owned.key :: shared.stopped },
        { stream with task := .done outcome })
    | _ => none
  | .dropConsumer => some (shared, { stream with consumerDropped := true })
  | .watch =>
    match stream.watcher with
    | .waiting =>
      if !shared.cancelledTurns.contains stream.turnId then none
      else if !alive then some (shared, { stream with watcher := .done })
      else if locked then none
      else
        match shared.state.failParked stream.turnId with
        | (some owned, state) =>
          some ({ shared with state }, { stream with watcher := .stopping owned })
        | (none, state) => some ({ shared with state }, { stream with watcher := .done })
    | _ => none
  | .watcherStops =>
    match stream.watcher with
    | .stopping owned =>
      some ({ shared with stopped := owned.key :: shared.stopped },
        { stream with watcher := .done })
    | _ => none

def isPublishing (stream : Stream) : Bool :=
  match stream.task with
  | .publishing _ _ => true
  | _ => false

def isDone (stream : Stream) : Bool :=
  match stream.task with
  | .done _ => true
  | _ => false

end Stream

inductive TransportAction where
  | stream (request : StreamRequest)
  | task (index : Nat) (action : StreamAction)
  | cancelTurn (turnId : Option Text)
  /-- The transport is dropped inside a runtime. -/
  | drop
  | dropTakes
  | dropStops

namespace Transport

def locked (transport : Transport) : Bool := transport.streams.any Stream.isPublishing

/-- Someone other than a watcher still refers to the state behind the mutex. -/
def alive (transport : Transport) : Bool :=
  match transport.dropTask with
  | some .done => !transport.streams.all Stream.isDone
  | _ => true

/-- One action; there is none when it is not enabled. -/
def step (serde : Serde) (transport : Transport) : TransportAction → Option Transport
  | .stream request =>
    if transport.dropTask.isSome then none
    else
      match request.validate with
      | .error _ => some transport
      | .ok () =>
        some { transport with
          streams := transport.streams ++
            [⟨request.prompt, request.model, request.turnId, false, .queued, .waiting⟩] }
  | .task index action =>
    match transport.streams[index]? with
    | none => none
    | some stream =>
      match stream.step serde transport.locked transport.alive transport.shared action with
      | none => none
      | some (shared, next) =>
        some { transport with shared, streams := transport.streams.set index next }
  | .cancelTurn turnId =>
    some { transport with shared := { transport.shared with
      cancelledTurns := turnId :: transport.shared.cancelledTurns } }
  | .drop =>
    if transport.dropTask.isSome then none
    else
      some { transport with
        shared := { transport.shared with shutdown := true }
        dropTask := some .waiting }
  | .dropTakes =>
    match transport.dropTask with
    | some .waiting =>
      if transport.locked then none
      else
        match transport.shared.state.takeIdle with
        | (some owned, state) =>
          some { transport with
            shared := { transport.shared with state }
            dropTask := some (.stopping owned) }
        | (none, state) =>
          some { transport with
            shared := { transport.shared with state }
            dropTask := some .done }
    | _ => none
  | .dropStops =>
    match transport.dropTask with
    | some (.stopping owned) =>
      some { transport with
        shared := { transport.shared with
          stopped := owned.key :: transport.shared.stopped }
        dropTask := some .done }
    | _ => none

end Transport

end SushiGpt.ClaudeTransport
