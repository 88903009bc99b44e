/-
Case-insensitive subsequence matching: `utils/fuzzy-match/src/lib.rs`.

Lower-casing is the standard library's.  Positions are cut to 32 bits for the score, whose
arithmetic wraps.
-/
import Mathlib.Data.List.Sort
import Mathlib.Data.List.Destutter
import SushiGpt.Lib.Text

namespace SushiGpt.FuzzyMatch

/-- The Unicode tables behind `to_lowercase`. -/
structure CaseTables where
  /-- `char::to_lowercase`. -/
  toLower : Char → Text
  caseIgnorable : Char → Bool
  cased : Char → Bool
  toLower_ne_nil : ∀ c, toLower c ≠ []
  toLower_sigma : toLower 'Σ' = ['σ']

variable (tables : CaseTables)

def caseIgnorableThenCased (chars : Text) : Bool :=
  (chars.dropWhile tables.caseIgnorable).head?.any tables.cased

/-- A sigma between the texts ends a word.  What is before it is read backwards. -/
def isWordFinal (before after : Text) : Bool :=
  caseIgnorableThenCased tables before && !caseIgnorableThenCased tables after

/-- The rest of `str::to_lowercase`, behind what is given backwards. -/
def toLowercaseFrom (before : Text) : Text → Text
  | [] => []
  | c :: rest =>
    (if c = 'Σ' then [if isWordFinal tables before rest then 'ς' else 'σ']
      else tables.toLower c) ++ toLowercaseFrom (c :: before) rest

/-- `str::to_lowercase`. -/
def toLowercase (text : Text) : Text := toLowercaseFrom tables [] text

/-- The lower-cased characters of the haystack, each with the position of its original. -/
def loweredChars (haystack : Text) : List (Char × Nat) :=
  haystack.zipIdx.flatMap fun (ch, origIdx) => (tables.toLower ch).map (·, origIdx)

/-- The loops over the needle and the haystack, from the lowered position `cur` on.  For each
character found its lowered position and the position of its original. -/
def search : List (Char × Nat) → Nat → Text → Option (List (Nat × Nat))
  | _, _, [] => some []
  | [], _, _ :: _ => none
  | (lc, origIdx) :: lowered, cur, nc :: needle =>
    if lc = nc then (search lowered (cur + 1) needle).map ((cur, origIdx) :: ·)
    else search lowered (cur + 1) (nc :: needle)

def fuzzyMatch (haystack needle : Text) : Option (List Nat × Int32) :=
  if needle = [] then some ([], Int32.maxValue)
  else do
    let loweredNeedle := toLowercase tables needle
    let found ← search (loweredChars tables haystack) 0 loweredNeedle
    let (firstLowerPos, _) ← found.head?
    let (lastLowerPos, _) ← found.getLast?
    let window := Int32.ofNat lastLowerPos - Int32.ofNat firstLowerPos + 1 -
      Int32.ofNat loweredNeedle.length
    let score := max window 0
    some (((found.map Prod.snd).insertionSort (· ≤ ·)).destutter (· ≠ ·),
      if firstLowerPos = 0 then score - 100 else score)

end SushiGpt.FuzzyMatch
