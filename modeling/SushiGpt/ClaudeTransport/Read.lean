/-
Reading the frames of the process: `Session::read` in `claude-transport/src/process.rs`.

A read takes bytes off the buffered reader until the session's frame ends with a newline.  What it
has taken is in the session, so it can be dropped where it waits and called again.  Parsing
belongs to `serde_json` and is a parameter.
-/
import SushiGpt.ClaudeTransport.Protocol
import SushiGpt.Lib.Machine

namespace SushiGpt.ClaudeTransport

abbrev Bytes := List UInt8

def maxFrame : Nat := 16 * 1024 * 1024

def newline : UInt8 := 10

inductive ReadWait where
  | providerActivity
  | nativeToolResult
  deriving DecidableEq

/-- A session with its output: `buffered` is what the reader holds and `reading` the read that has
been called and has not returned.  `arrived` and `returned` are what came in and went out so far. -/
structure Reader where
  frame : Bytes
  buffered : Bytes
  reading : Option ReadWait
  arrived : Bytes
  returned : List (Except CodexErr Json)

namespace Reader

def new : Reader := ⟨[], [], none, [], []⟩

def finish (reader : Reader) (result : Except CodexErr Json) : Reader :=
  { reader with reading := none, returned := reader.returned ++ [result] }

/-- The bytes up to the first newline and with it, or all. -/
def lineLength (available : Bytes) : Nat :=
  match available.findIdx? (· == newline) with
  | some index => index + 1
  | none => available.length

/-- One turn of the loop with the bytes that are available. -/
def turn (parse : Bytes → Option Json) (reader : Reader) : Reader :=
  let length := lineLength reader.buffered
  if reader.frame.length + length > maxFrame then
    reader.finish (.error (failure "oversized CLI frame"))
  else
    let frame := reader.frame ++ reader.buffered.take length
    let reader := { reader with frame, buffered := reader.buffered.drop length }
    if frame.getLast? = some newline then
      { reader with frame := [] }.finish (orFail (parse frame) "invalid CLI JSON")
    else reader

inductive Action where
  | call (wait : ReadWait)
  | turn
  /-- The reader had nothing left and gets some bytes. -/
  | arrive (chunk : Bytes)
  | cancel
  | timedOut
  | readFailed
  | exited

/-- Whether a read waits for bytes. -/
def waits (reader : Reader) : Bool := reader.reading.isSome && reader.buffered.isEmpty

def step (parse : Bytes → Option Json) (reader : Reader) : Action → Option Reader
  | .call wait => if reader.reading = none then some { reader with reading := some wait } else none
  | .turn =>
    if reader.reading.isSome && !reader.buffered.isEmpty then some (reader.turn parse) else none
  | .arrive chunk =>
    if reader.waits && !chunk.isEmpty then
      some { reader with buffered := chunk, arrived := reader.arrived ++ chunk }
    else none
  | .cancel => if reader.reading.isSome then some { reader with reading := none } else none
  | .timedOut =>
    if reader.waits && reader.reading = some .providerActivity then
      some (reader.finish (.error (failure "CLI stream timed out")))
    else none
  | .readFailed =>
    if reader.waits then some (reader.finish (.error (failure "CLI stream read failed"))) else none
  | .exited =>
    if reader.waits then some (reader.finish (.error (failure "CLI exited before completion")))
    else none

end Reader

end SushiGpt.ClaudeTransport
