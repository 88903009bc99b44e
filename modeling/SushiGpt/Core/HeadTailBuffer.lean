/-
The output of a command, bounded: `core/src/unified_exec/head_tail_buffer.rs`.

The buffer keeps a stable head and the newest tail; between them bytes are dropped and counted.
`MAX_BYTES` is a constant of the type; half of it is the head's.  The lengths are `usize`, so
their sums saturate.

The tail is a `VecDeque`, which hands out its bytes as two slices; where the first one ends
depends on how the deque has wrapped, and is a parameter of `pushBuffer`.
-/
import SushiGpt.Lib.Usize

namespace SushiGpt.Core

structure HeadTailBuffer where
  head : List UInt8 := []
  tail : List UInt8 := []
  omittedBytes : Nat := 0

namespace HeadTailBuffer

section Budgets

variable (maxBytes : UInt64)

def headBudget : Nat :=
  maxBytes.toNat / 2

def tailBudget : Nat :=
  maxBytes.toNat - headBudget maxBytes

end Budgets

def retainedBytes (b : HeadTailBuffer) : Nat :=
  saturatingAdd b.head.length b.tail.length

def totalBytes (b : HeadTailBuffer) : Nat :=
  saturatingAdd b.retainedBytes b.omittedBytes

/-- Fills the head; the bytes that did not fit are returned. -/
def fillHead (maxBytes : UInt64) (b : HeadTailBuffer) (chunk : List UInt8) :
    HeadTailBuffer × List UInt8 :=
  let remainingHead := headBudget maxBytes - b.head.length
  let (chunkHead, chunkTail) :=
    if remainingHead ≤ chunk.length then chunk.splitAt remainingHead else (chunk, [])
  ({ b with head := b.head ++ chunkHead }, chunkTail)

/-- Appends bytes that do not belong in the head. -/
def pushTail (maxBytes : UInt64) (b : HeadTailBuffer) (chunk : List UInt8) : HeadTailBuffer :=
  let remainingTail := tailBudget maxBytes - b.tail.length
  let excessTail := chunk.length - remainingTail
  { b with
    omittedBytes := saturatingAdd b.omittedBytes excessTail
    tail :=
      if excessTail < b.tail.length then b.tail.drop excessTail ++ chunk
      else chunk.drop (excessTail - b.tail.length) }

def pushChunk (maxBytes : UInt64) (b : HeadTailBuffer) (chunk : List UInt8) : HeadTailBuffer :=
  let (b, chunk) := b.fillHead maxBytes chunk
  b.pushTail maxBytes chunk

/-- Appends a later buffer; the first slice of its tail has `split` bytes. -/
def pushBuffer (maxBytes : UInt64) (split : Nat) (b buffer : HeadTailBuffer) : HeadTailBuffer :=
  let b := { b with omittedBytes := saturatingAdd b.omittedBytes buffer.omittedBytes }
  let (b, overflow) :=
    if b.head.isEmpty then ({ b with head := buffer.head }, [])
    else b.fillHead maxBytes buffer.head
  if buffer.tail.length = tailBudget maxBytes then
    { b with
      omittedBytes :=
        saturatingAdd (saturatingAdd b.omittedBytes b.tail.length) overflow.length
      tail := buffer.tail }
  else
    let b := b.pushTail maxBytes overflow
    if b.tail.isEmpty then { b with tail := buffer.tail }
    else
      (b.pushTail maxBytes (buffer.tail.take split)).pushTail maxBytes (buffer.tail.drop split)

end HeadTailBuffer

end SushiGpt.Core
