/-
Writes to the input of a process: `exec_write` of `exec-server/src/local_process.rs`.

A handler takes the lock of the process map, then that of the accepted ids, waits for room in the
channel to the process, and takes the lock of the accepted ids again.  It can be cancelled where
it waits, so a step is what it does between two waits.  It holds on to the channel and the ids it
found, whatever becomes of the process map: they are numbered.  The channel grants a permit or
reports that it is closed at any time.
-/
import SushiGpt.ExecServer.Protocol

namespace SushiGpt.ExecServer.Stdin

def retainedStdinWriteIdsPerProcess : Nat := 4096

structure AcceptedStdinWriteIds where
  ids : List Text
  order : List Text

namespace AcceptedStdinWriteIds

def contains (accepted : AcceptedStdinWriteIds) (writeId : Text) : Bool :=
  accepted.ids.contains writeId

/-- The loop of `remember`. -/
def evict (ids : List Text) : List Text → AcceptedStdinWriteIds
  | [] => ⟨ids, []⟩
  | evicted :: order =>
    if (evicted :: order).length > retainedStdinWriteIdsPerProcess then
      evict (ids.filter (· ≠ evicted)) order
    else ⟨ids, evicted :: order⟩

def remember (accepted : AcceptedStdinWriteIds) (writeId : Text) : AcceptedStdinWriteIds :=
  if accepted.contains writeId then accepted
  else evict (writeId :: accepted.ids) (accepted.order ++ [writeId])

end AcceptedStdinWriteIds

structure WriteParams where
  processId : Text
  chunk : List UInt8
  writeId : Text

inductive WriteStatus where
  | accepted
  | unknownProcess
  | starting
  | stdinClosed

/-- The ids accepted for a process, and what was sent to it. -/
structure Writer where
  accepted : AcceptedStdinWriteIds
  sent : List WriteParams

/-- No wait comes between the two. -/
def Writer.send (writer : Writer) (params : WriteParams) : Writer :=
  ⟨writer.accepted.remember params.writeId, writer.sent ++ [params]⟩

inductive ProcessEntry where
  | starting
  | running (tty pipeStdin : Bool) (writer : Nat)

inductive Phase where
  | called
  | found
  | reserving
  | permitted
  | answered (response : Except Text WriteStatus)
  | cancelled

structure Handler where
  params : WriteParams
  writer : Option Nat
  phase : Phase

def Handler.call (params : WriteParams) : Handler := ⟨params, none, .called⟩

/-- The section under the lock of the process map. -/
def Handler.find (processes : Text → Option ProcessEntry) (handler : Handler) : Handler :=
  if handler.params.writeId.isEmpty then
    { handler with phase := .answered (.error "writeId must not be empty".toList) }
  else
    match processes handler.params.processId with
    | none => { handler with phase := .answered (.ok .unknownProcess) }
    | some .starting => { handler with phase := .answered (.ok .starting) }
    | some (.running tty pipeStdin writer) =>
      if !tty && !pipeStdin then { handler with phase := .answered (.ok .stdinClosed) }
      else { handler with writer := some writer, phase := .found }

structure Server where
  processes : Text → Option ProcessEntry
  writers : List Writer
  handlers : List Handler

inductive Action where
  | start (processId : Text)
  | run (processId : Text) (tty pipeStdin : Bool)
  | remove (processId : Text)
  | call (params : WriteParams)
  | advance (handler : Nat) (granted : Bool)
  | cancel (handler : Nat)

namespace Server

def empty : Server := ⟨fun _ => none, [], []⟩

def setPhase (server : Server) (index : Nat) (handler : Handler) (phase : Phase) : Server :=
  { server with handlers := server.handlers.set index { handler with phase } }

/-- The second section under the lock of the accepted ids. -/
def write (server : Server) (index : Nat) (handler : Handler) (number : Nat) (writer : Writer) :
    Server :=
  let server := server.setPhase index handler (.answered (.ok .accepted))
  if writer.accepted.contains handler.params.writeId then server
  else { server with writers := server.writers.set number (writer.send handler.params) }

def advance (server : Server) (index : Nat) (granted : Bool) : Option Server := do
  let handler ← server.handlers[index]?
  match handler.phase with
  | .called =>
    some { server with handlers := server.handlers.set index (handler.find server.processes) }
  | .found => do
    let writer ← server.writers[← handler.writer]?
    some (server.setPhase index handler
      (if writer.accepted.contains handler.params.writeId then .answered (.ok .accepted)
      else .reserving))
  | .reserving =>
    some (server.setPhase index handler (if granted then .permitted
      else .answered (.error "failed to write to process stdin".toList)))
  | .permitted => do
    let number ← handler.writer
    some (server.write index handler number (← server.writers[number]?))
  | .answered _ | .cancelled => none

def step (server : Server) : Action → Option Server
  | .start processId =>
    some { server with processes := Function.update server.processes processId (some .starting) }
  | .run processId tty pipeStdin =>
    some { server with
      processes := Function.update server.processes processId
        (some (.running tty pipeStdin server.writers.length))
      writers := server.writers ++ [⟨⟨[], []⟩, []⟩] }
  | .remove processId =>
    some { server with processes := Function.update server.processes processId none }
  | .call params => some { server with handlers := server.handlers ++ [.call params] }
  | .advance index granted => server.advance index granted
  | .cancel index => do
    let handler ← server.handlers[index]?
    match handler.phase with
    | .answered _ => none
    | _ => some (server.setPhase index handler .cancelled)

end Server

end SushiGpt.ExecServer.Stdin
