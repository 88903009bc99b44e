/-
What the exec server and its clients tell each other about a process:
`exec-server-protocol/src/protocol.rs` and `exec-server/src/process.rs`.

Sequence numbers and sizes are natural numbers; no process lives long enough for a `u64`
counter of its events to wrap.
-/
import SushiGpt.Lib.Text

namespace SushiGpt.ExecServer

inductive ExecOutputStream where
  | stdout
  | stderr
  | pty
  deriving DecidableEq

structure ProcessOutputChunk where
  seq : Nat
  stream : ExecOutputStream
  chunk : List UInt8
  deriving DecidableEq

structure ReadParams where
  processId : Text
  afterSeq : Option Nat
  maxBytes : Option Nat
  waitMs : Option Nat

structure ReadResponse where
  chunks : List ProcessOutputChunk
  nextSeq : Nat
  exited : Bool
  exitCode : Option Int
  closed : Bool
  failure : Option Text
  sandboxDenied : Bool

/-- An event of a process.  `failed` has no sequence number: it comes from the client, when
the session or the transport fails. -/
inductive ExecProcessEvent where
  | output (chunk : ProcessOutputChunk)
  | exited (seq : Nat) (exitCode : Int) (sandboxDenied : Option Bool)
  | closed (seq : Nat)
  | failed (message : Text)
  deriving DecidableEq

namespace ExecProcessEvent

def seq : ExecProcessEvent → Option Nat
  | output chunk => some chunk.seq
  | exited seq _ _ => some seq
  | closed seq => some seq
  | failed _ => none

def isExited : ExecProcessEvent → Bool
  | exited .. => true
  | _ => false

def isClosed : ExecProcessEvent → Bool
  | closed _ => true
  | _ => false

end ExecProcessEvent

end SushiGpt.ExecServer
