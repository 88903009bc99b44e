/-
A client that follows one remote process: the notification handlers of
`exec-server/src/client.rs` and `recover_processes` of `exec-server/src/client_recovery.rs`.

The server's side is the list of the events it publishes.  Their notifications reach the client
in any order, more than once or never.  A read is answered from the events there are by then;
of the output, the server may have dropped any amount, oldest first.

A failed call is followed by `set_failure`, but not in the same step: between the two the
lock is free, and `recover_processes` even waits for an answer of the server.
-/
import SushiGpt.ExecServer.Session

namespace SushiGpt.ExecServer

/-- What a process publishes in the end: events numbered from 1, at most one exit, and at most
one close, which is last.  The server judges every exit. -/
structure ServerLog where
  events : List ExecProcessEvent
  numbered : ∀ (i : Nat) (event : ExecProcessEvent), events[i]? = some event →
    event.seq = some (i + 1)
  exitedOnce : ∀ (i j : Nat) (a b : ExecProcessEvent), events[i]? = some a →
    events[j]? = some b → a.isExited → b.isExited → i = j
  closedLast : ∀ (i : Nat) (event : ExecProcessEvent), events[i]? = some event →
    event.isClosed → i + 1 = events.length
  judged : ∀ seq exitCode sandboxDenied, .exited seq exitCode sandboxDenied ∈ events →
    sandboxDenied.isSome

namespace ServerLog

def event? (log : ServerLog) : Nat → Option ExecProcessEvent
  | 0 => none
  | seq + 1 => log.events[seq]?

def outputAfter (after : Nat) : ExecProcessEvent → Option ProcessOutputChunk
  | .output chunk => if after < chunk.seq then some chunk else none
  | _ => none

def exitCodeOf : ExecProcessEvent → Option Int
  | .exited _ exitCode _ => some exitCode
  | _ => none

def isDenied : ExecProcessEvent → Bool
  | .exited _ _ sandboxDenied => sandboxDenied.getD false
  | _ => false

/-- The answer to a read when the first `emitted` events have been published and the output
up to `evicted` has been dropped. -/
def answer (log : ServerLog) (emitted evicted after : Nat) : ReadResponse :=
  let published := log.events.take emitted
  { chunks := published.filterMap (outputAfter (max evicted after))
    nextSeq := published.length + 1
    exited := published.any (·.isExited)
    exitCode := published.findSome? exitCodeOf
    closed := published.any (·.isClosed)
    failure := none
    sandboxDenied := published.any isDenied }

end ServerLog

/-- The client and what is on its way.  `requests` are the numbers after which to read.
`errors` are the messages of failed calls whose `set_failure` is still to come.  `erredAt`
tells how many events had been published when the first call failed; nothing reads it. -/
structure Client where
  session : SessionState
  emitted : Nat
  requests : List Nat
  responses : List ReadResponse
  errors : List Text
  erredAt : Option Nat

inductive ClientAction where
  /-- The server publishes its next event. -/
  | emit
  /-- A notification of a published event arrives. -/
  | deliver (seq : Nat)
  /-- The client asks for what it has not published. -/
  | request
  /-- The server answers a request. -/
  | answer (request evicted : Nat)
  /-- The client recovers from an answer. -/
  | recover (response : Nat)
  /-- The read of a recovery fails. -/
  | readFails (error : Text)
  /-- `set_failure` with the message of a failed call. -/
  | setFailure (error : Nat)
  /-- `fail_all_sessions`. -/
  | connectionFails (message : Text)

namespace Client

def start : Client := ⟨.new, 0, [], [], [], none⟩

/-- A call has failed; its message waits for `set_failure`. -/
def fails (client : Client) (message : Text) : Client :=
  { client with
    errors := client.errors ++ [message]
    erredAt := client.erredAt.or (some client.session.events.length) }

def recoveryMessage (processId error : Text) : Text :=
  "failed to recover process ".toList ++ processId ++ ": ".toList ++ error

def step (processId : Text) (log : ServerLog) (client : Client) : ClientAction → Option Client
  | .emit =>
    if client.emitted < log.events.length then
      some { client with emitted := client.emitted + 1 }
    else none
  | .deliver seq =>
    if client.emitted < seq then none
    else
      (log.event? seq).map fun event =>
        match client.session.publishOrderedEvent event with
        | (session, .ok _) => { client with session := session.noteChange seq }
        | (session, .error message) => fails { client with session } message
  | .request =>
    some { client with requests := client.requests ++ [client.session.lastPublishedSeq] }
  | .answer index evicted =>
    (client.requests[index]?).map fun after =>
      { client with responses := client.responses ++ [log.answer client.emitted evicted after] }
  | .recover index =>
    (client.responses[index]?).map fun response =>
      match client.session.recoverEvents response with
      | (session, .ok _) => { client with session }
      | (session, .error error) =>
        fails { client with session } (recoveryMessage processId
          ("exec-server protocol error: ".toList ++ error))
  | .readFails error => some (client.fails (recoveryMessage processId error))
  | .setFailure index =>
    (client.errors[index]?).map fun message =>
      { client with
        session := client.session.setFailure message
        errors := client.errors.eraseIdx index }
  | .connectionFails message =>
    some { client with session := client.session.setFailure message }

end Client

end SushiGpt.ExecServer
