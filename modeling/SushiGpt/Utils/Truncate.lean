/-
Cutting the middle out of a text: `utils/string/src/truncate.rs`.

Offsets and lengths count bytes of UTF-8; nothing here is long enough to saturate.
-/
import Mathlib.Algebra.GroupWithZero.Nat
import SushiGpt.Lib.Text

namespace SushiGpt.Truncate

/-- `str::len`. -/
def len (s : Text) : Nat := (s.map Char.utf8Size).sum

/-- The text cut at an offset.  Slicing panics inside a character and behind the text. -/
def splitAt : Text → Nat → Option (Text × Text)
  | [], offset => if offset = 0 then some ([], []) else none
  | ch :: s, offset =>
    if offset = 0 then some ([], ch :: s)
    else if ch.utf8Size ≤ offset then
      (splitAt s (offset - ch.utf8Size)).map fun (before, after) => (ch :: before, after)
    else none

/-- The variables of the loop of `split_string`, and the offset of the next character. -/
structure Cuts where
  idx : Nat
  prefixEnd : Nat
  suffixStart : Nat
  removedChars : Nat
  suffixStarted : Bool

def Cuts.next (beginningBytes tailStartTarget : Nat) (cuts : Cuts) (ch : Char) : Cuts :=
  let charEnd := cuts.idx + ch.utf8Size
  let passed := { cuts with idx := charEnd }
  if charEnd ≤ beginningBytes then { passed with prefixEnd := charEnd }
  else if tailStartTarget ≤ cuts.idx then
    if cuts.suffixStarted then passed
    else { passed with suffixStart := cuts.idx, suffixStarted := true }
  else { passed with removedChars := cuts.removedChars + 1 }

def splitString (s : Text) (beginningBytes endBytes : Nat) : Option (Nat × Text × Text) :=
  if s = [] then some (0, [], [])
  else
    let cuts := s.foldl (Cuts.next beginningBytes (len s - endBytes)) ⟨0, 0, len s, 0, false⟩
    let suffixStart :=
      if cuts.suffixStart < cuts.prefixEnd then cuts.prefixEnd else cuts.suffixStart
    do
      let (before, _) ← splitAt s cuts.prefixEnd
      let (_, after) ← splitAt s suffixStart
      some (cuts.removedChars, before, after)

def splitBudget (budget : Nat) : Nat × Nat := (budget / 2, budget - budget / 2)

def approxTokensFromByteCount (bytes : Nat) : Nat := (bytes + 3) / 4

def formatTruncationMarker (useTokens : Bool) (removedCount : Nat) : Text :=
  "…".toList ++ (toString removedCount).toList ++
    (if useTokens then " tokens truncated…" else " chars truncated…").toList

def removedUnits (useTokens : Bool) (removedBytes removedChars : Nat) : Nat :=
  if useTokens then approxTokensFromByteCount removedBytes else removedChars

def assembleTruncatedOutput (before after marker : Text) : Text := before ++ marker ++ after

def truncateWithByteEstimate (s : Text) (maxBytes : Nat) (useTokens : Bool) : Option Text :=
  if s = [] then some []
  else if maxBytes = 0 then
    some (formatTruncationMarker useTokens (removedUnits useTokens (len s) s.length))
  else if len s ≤ maxBytes then some s
  else
    let (leftBudget, rightBudget) := splitBudget maxBytes
    (splitString s leftBudget rightBudget).map fun (removedChars, left, right) =>
      assembleTruncatedOutput left right (formatTruncationMarker useTokens
        (removedUnits useTokens (len s - maxBytes) removedChars))

end SushiGpt.Truncate
