/-
The records of a JSONL file, from the end of the file: `rollout/src/reverse_jsonl_scanner.rs`.

The file is its bytes and can always be read.  How a record is deserialized is a parameter.
-/
import SushiGpt.Lib.Text

namespace SushiGpt.Rollout

def readChunkSize : Nat := 64 * 1024

def newline : UInt8 := 10

def isAsciiWhitespace (byte : UInt8) : Bool := [9, 10, 12, 13, 32].contains byte

inductive ScanOutcome (E T : Type) where
  | parsed (value : T)
  | rejected (error : E)

def ScanOutcome.ofResult {E T : Type} : Except E T → ScanOutcome E T
  | .ok value => .parsed value
  | .error error => .rejected error

structure ReverseJsonlScanner where
  nextChunkEnd : Nat
  /-- The chunk up to `chunk_position`. -/
  chunk : List UInt8
  recordReversed : List UInt8
  maxRecordBytes : Option Nat
  discardingOversizedRecord : Bool

namespace ReverseJsonlScanner

def newAt (file : List UInt8) (endByteOffset : Nat) : Except Text ReverseJsonlScanner :=
  if file.length < endByteOffset then .error "reverse JSONL scan end is past the file".toList
  else .ok ⟨endByteOffset, [], [], none, false⟩

variable (s : ReverseJsonlScanner)

def withMaxRecordBytes (maxRecordBytes : Nat) : ReverseJsonlScanner :=
  { s with maxRecordBytes := some maxRecordBytes }

def readChunk (file : List UInt8) : ReverseJsonlScanner :=
  let readSize := min s.nextChunkEnd readChunkSize
  { s with
    nextChunkEnd := s.nextChunkEnd - readSize
    chunk := (file.drop (s.nextChunkEnd - readSize)).take readSize }

/-- The record grows by a fragment, given from its end, or becomes too long. -/
def extend (fragment : List UInt8) : ReverseJsonlScanner :=
  if s.discardingOversizedRecord then s
  else if s.maxRecordBytes.any (· < s.recordReversed.length + fragment.length) then
    { s with recordReversed := [], discardingOversizedRecord := true }
  else { s with recordReversed := s.recordReversed ++ fragment }

/-- Up to the last newline of the chunk, or its start; whether there was a newline. -/
def consume : ReverseJsonlScanner × Bool :=
  match s.chunk.reverse.span (· != newline) with
  | (fragment, []) => ({ s.extend fragment with chunk := [] }, false)
  | (fragment, _ :: before) => ({ s.extend fragment with chunk := before.reverse }, true)

variable {E T : Type} (decode : List UInt8 → Except E T)

def finishRecord : Option (ScanOutcome E T) × ReverseJsonlScanner :=
  let record := s.recordReversed.reverse
  (if record.all isAsciiWhitespace then none else some (.ofResult (decode record)),
    { s with recordReversed := [] })

/-- At the start of a record, which may have been discarded. -/
def endRecord : Option (ScanOutcome E T) × ReverseJsonlScanner :=
  if s.discardingOversizedRecord then (none, { s with discardingOversizedRecord := false })
  else s.finishRecord decode

/-- The loop of `scan_next`. -/
def scan (file : List UInt8) :
    Nat → ReverseJsonlScanner → Option (ScanOutcome E T) × ReverseJsonlScanner
  | 0, s => (none, s)
  | fuel + 1, s =>
    if s.chunk = [] ∧ s.nextChunkEnd = 0 then s.endRecord decode
    else
      match (if s.chunk = [] then s.readChunk file else s).consume with
      | (s, false) => scan file fuel s
      | (s, true) =>
        match s.endRecord decode with
        | (some outcome, s) => (some outcome, s)
        | (none, s) => scan file fuel s

/-- Every pass of the loop leaves fewer bytes to read. -/
def scanNext (file : List UInt8) : Option (ScanOutcome E T) × ReverseJsonlScanner :=
  s.scan decode file (s.nextChunkEnd + s.chunk.length + 1)

end ReverseJsonlScanner

end SushiGpt.Rollout
