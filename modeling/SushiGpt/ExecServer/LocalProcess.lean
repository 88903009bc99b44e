/-
A process of the exec server and those who wait for it: `exec-server/src/local_process.rs`.

Two tasks record the output of the process, a third one its exit, and the last of the three
to finish closes it.  Each records under the lock of the process map and calls
`notify_waiters` after it has released the lock.  A reader looks for news under the lock,
releases it, and creates the future it waits on.  A step is one section under the lock or one
of the calls between two sections.

`Notify::notify_waiters` wakes exactly the readers whose future has been created, and stores
nothing for later ones.  Whether the output looks like that of a process denied by its sandbox
is a parameter.
-/
import SushiGpt.ExecServer.Protocol
import SushiGpt.Lib.Usize

namespace SushiGpt.ExecServer

def retainedOutputBytesPerProcess : Nat := 1024 * 1024

def retainedOutputChunksPerProcess : Nat := 50000

/-- Judges an exit code and the output still retained. -/
abbrev DenialCheck := Int → List ProcessOutputChunk → Bool

/-- `events` is everything the process has published. -/
structure RunningProcess where
  output : List ProcessOutputChunk
  retainedBytes : Nat
  nextSeq : Nat
  exitCode : Option Int
  events : List ExecProcessEvent
  openStreams : Nat
  closed : Bool
  sandboxed : Bool
  sandboxDenied : Bool

namespace RunningProcess

def start (sandboxed : Bool) : RunningProcess :=
  ⟨[], 0, 1, none, [], 2, false, sandboxed, false⟩

/-- Drops the oldest output while too much of it is retained. -/
def evict : List ProcessOutputChunk → Nat → List ProcessOutputChunk × Nat
  | [], bytes => ([], bytes)
  | evicted :: rest, bytes =>
    if bytes > retainedOutputBytesPerProcess ||
        (evicted :: rest).length > retainedOutputChunksPerProcess then
      evict rest (bytes - evicted.chunk.length)
    else (evicted :: rest, bytes)

/-- The section of `stream_output`. -/
def recordOutput (process : RunningProcess) (stream : ExecOutputStream) (chunk : List UInt8) :
    RunningProcess :=
  let recorded : ProcessOutputChunk := ⟨process.nextSeq, stream, chunk⟩
  let retained := evict (process.output ++ [recorded]) (process.retainedBytes + chunk.length)
  { process with
    nextSeq := process.nextSeq + 1
    output := retained.1
    retainedBytes := retained.2
    events := process.events ++ [.output recorded] }

/-- The section of `watch_exit` that records the exit. -/
def recordExit (isLikelySandboxDenied : DenialCheck) (process : RunningProcess)
    (exitCode : Int) : RunningProcess :=
  let sandboxDenied :=
    if process.sandboxed then isLikelySandboxDenied exitCode process.output
    else process.sandboxDenied
  { process with
    nextSeq := process.nextSeq + 1
    exitCode := some exitCode
    sandboxDenied
    events := process.events ++ [.exited process.nextSeq exitCode (some sandboxDenied)] }

/-- The section of `finish_output_stream`. -/
def finishOutputStream (process : RunningProcess) : RunningProcess :=
  { process with openStreams := process.openStreams - 1 }

/-- The section of `maybe_emit_closed`; `none` when it is not yet, or no longer, time. -/
def maybeEmitClosed (process : RunningProcess) : Option RunningProcess :=
  if process.closed || process.openStreams != 0 || process.exitCode.isNone then none
  else some { process with
    closed := true
    nextSeq := process.nextSeq + 1
    events := process.events ++ [.closed process.nextSeq] }

/-- The loop of `exec_read` over the retained output: the chunks and the next number. -/
def collect (maxBytes : Nat) :
    List ProcessOutputChunk → List ProcessOutputChunk → Nat → Nat → List ProcessOutputChunk × Nat
  | [], chunks, _, nextSeq => (chunks, nextSeq)
  | retained :: rest, chunks, totalBytes, nextSeq =>
    if !chunks.isEmpty && totalBytes + retained.chunk.length > maxBytes then (chunks, nextSeq)
    else if totalBytes + retained.chunk.length ≥ maxBytes then
      (chunks ++ [retained], retained.seq + 1)
    else collect maxBytes rest (chunks ++ [retained]) (totalBytes + retained.chunk.length)
      (retained.seq + 1)

/-- The section of `exec_read`. -/
def read (process : RunningProcess) (params : ReadParams) : ReadResponse :=
  let afterSeq := params.afterSeq.getD 0
  let collected := collect (params.maxBytes.getD usizeMax)
    (process.output.filter fun chunk => chunk.seq > afterSeq) [] 0 process.nextSeq
  { chunks := collected.1
    nextSeq := if params.maxBytes.isNone then process.nextSeq else collected.2
    exited := process.exitCode.isSome
    exitCode := process.exitCode
    closed := process.closed
    failure := none
    sandboxDenied := process.sandboxDenied }

end RunningProcess

/-- `exec_read` returns the response at once, whatever the time. -/
def hasNews (params : ReadParams) (response : ReadResponse) : Bool :=
  !response.chunks.isEmpty || response.closed ||
    (response.exited && params.afterSeq.getD 0 < response.nextSeq - 1)

/-! ### Tasks and readers -/

inductive TaskKind where
  | streamOutput (stream : ExecOutputStream)
  | watchExit
  deriving DecidableEq

inductive TaskPhase where
  /-- It waits for output, or for the exit. -/
  | receiving
  /-- It has released the lock and calls `notify_waiters` next.  The number is that of the
  event it has recorded, if it found the process. -/
  | notifying (seq : Option Nat)
  /-- The output has ended. -/
  | finishing
  /-- It calls `maybe_emit_closed` next. -/
  | closing
  /-- It has closed the process and calls `notify_waiters` next. -/
  | notifyingClosed (seq : Nat)
  | done
  deriving DecidableEq

structure Task where
  kind : TaskKind
  phase : TaskPhase

inductive ReaderPhase where
  /-- It takes the lock next. -/
  | checking
  /-- It has found nothing and released the lock. -/
  | unlocked
  /-- It waits on its `Notified`. -/
  | suspended
  | returned (result : Except Text ReadResponse)

structure Reader where
  params : ReadParams
  phase : ReaderPhase

/-- What the process map holds under the process id. -/
inductive ProcessEntry where
  | starting
  | running
  | removed
  deriving DecidableEq

structure Server where
  processId : Text
  entry : ProcessEntry
  process : RunningProcess
  tasks : List Task
  readers : List Reader

inductive Action where
  | started (tty : Bool)
  | output (task : Nat) (chunk : List UInt8)
  | outputEnded (task : Nat)
  | finish (task : Nat)
  | exit (task : Nat) (exitCode : Int)
  | notify (task : Nat)
  | close (task : Nat)
  /-- The cleanup after a close, or the shutdown of the server. -/
  | remove
  | read (params : ReadParams)
  | check (reader : Nat) (expired : Bool)
  | suspend (reader : Nat)
  | timeout (reader : Nat)

namespace Server

def start (processId : Text) (sandboxed : Bool) : Server :=
  ⟨processId, .starting, .start sandboxed, [], []⟩

def spawned (tty : Bool) : List Task :=
  [⟨.streamOutput (if tty then .pty else .stdout), .receiving⟩,
    ⟨.streamOutput (if tty then .pty else .stderr), .receiving⟩,
    ⟨.watchExit, .receiving⟩]

def setTask (server : Server) (index : Nat) (task : Task) (phase : TaskPhase) : Server :=
  { server with tasks := server.tasks.set index { task with phase } }

def setReader (server : Server) (index : Nat) (reader : Reader) (phase : ReaderPhase) : Server :=
  { server with readers := server.readers.set index { reader with phase } }

/-- `notify_waiters`: whoever is suspended looks again. -/
def notifyWaiters (server : Server) : Server :=
  { server with
    readers := server.readers.map fun reader =>
      match reader.phase with
      | .suspended => { reader with phase := .checking }
      | _ => reader }

/-- The section of `exec_read` and what follows it up to the call of `notified`. -/
def checkReader (server : Server) (params : ReadParams) (expired : Bool) : ReaderPhase :=
  if params.processId ≠ server.processId then
    .returned (.error ("unknown process id ".toList ++ params.processId))
  else
    match server.entry with
    | .removed => .returned (.error ("unknown process id ".toList ++ params.processId))
    | .starting =>
      .returned (.error ("process id ".toList ++ params.processId ++ " is starting".toList))
    | .running =>
      let response := server.process.read params
      if hasNews params response || expired then .returned (.ok response) else .unlocked

def step (isLikelySandboxDenied : DenialCheck) (server : Server) : Action → Option Server
  | .started tty =>
    if server.entry = .starting then
      some { server with entry := .running, tasks := server.tasks ++ spawned tty }
    else none
  | .output index chunk => do
    let task ← server.tasks[index]?
    match task.kind, task.phase with
    | .streamOutput stream, .receiving =>
      if server.entry = .running then
        some ({ server with process := server.process.recordOutput stream chunk }.setTask
          index task (.notifying (some server.process.nextSeq)))
      else some (server.setTask index task .finishing)
    | _, _ => none
  | .outputEnded index => do
    let task ← server.tasks[index]?
    match task.kind, task.phase with
    | .streamOutput _, .receiving => some (server.setTask index task .finishing)
    | _, _ => none
  | .finish index => do
    let task ← server.tasks[index]?
    match task.phase with
    | .finishing =>
      if server.entry = .running then
        some ({ server with process := server.process.finishOutputStream }.setTask
          index task .closing)
      else some (server.setTask index task .done)
    | _ => none
  | .exit index exitCode => do
    let task ← server.tasks[index]?
    match task.kind, task.phase with
    | .watchExit, .receiving =>
      if server.entry = .running then
        some ({ server with
          process := server.process.recordExit isLikelySandboxDenied exitCode }.setTask
            index task (.notifying (some server.process.nextSeq)))
      else some (server.setTask index task (.notifying none))
    | _, _ => none
  | .notify index => do
    let task ← server.tasks[index]?
    match task.kind, task.phase with
    | .streamOutput _, .notifying _ => some (server.notifyWaiters.setTask index task .receiving)
    | .watchExit, .notifying _ => some (server.notifyWaiters.setTask index task .closing)
    | _, .notifyingClosed _ => some (server.notifyWaiters.setTask index task .done)
    | _, _ => none
  | .close index => do
    let task ← server.tasks[index]?
    match task.phase with
    | .closing =>
      if server.entry = .running then
        match server.process.maybeEmitClosed with
        | none => some (server.setTask index task .done)
        | some process =>
          some ({ server with process }.setTask
            index task (.notifyingClosed server.process.nextSeq))
      else some (server.setTask index task .done)
    | _ => none
  | .remove => some { server with entry := .removed }
  | .read params => some { server with readers := server.readers ++ [⟨params, .checking⟩] }
  | .check index expired => do
    let reader ← server.readers[index]?
    match reader.phase with
    | .checking =>
      some (server.setReader index reader (server.checkReader reader.params expired))
    | _ => none
  | .suspend index => do
    let reader ← server.readers[index]?
    match reader.phase with
    | .unlocked => some (server.setReader index reader .suspended)
    | _ => none
  | .timeout index => do
    let reader ← server.readers[index]?
    match reader.phase with
    | .suspended => some (server.setReader index reader .checking)
    | _ => none

end Server

end SushiGpt.ExecServer
