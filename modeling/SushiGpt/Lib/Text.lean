/-
Text as a list of characters.

Every string the modelled code handles is Unicode text, and the code looks at it
one character at a time: lines are split at a character, prefixes are stripped,
white space is trimmed.  A list of characters says exactly that, computes under
the kernel, and gives the proofs structural recursion.
-/
import Mathlib.Data.List.Infix

namespace SushiGpt

/-- Unicode text, one entry per scalar value. -/
abbrev Text := List Char

namespace Text

/-- The `White_Space` property, which is what `char::is_whitespace` tests. -/
def isWhitespace (c : Char) : Bool :=
  let n := c.toNat
  (9 ≤ n && n ≤ 13) || n == 0x20 || n == 0x85 || n == 0xA0 || n == 0x1680 ||
    (0x2000 ≤ n && n ≤ 0x200A) || n == 0x2028 || n == 0x2029 || n == 0x202F ||
    n == 0x205F || n == 0x3000

def trimStart (t : Text) : Text := t.dropWhile isWhitespace

def trimEnd (t : Text) : Text := (t.reverse.dropWhile isWhitespace).reverse

def trim (t : Text) : Text := trimEnd (trimStart t)

/-- The pieces between the occurrences of `c`, as `str::split` returns them. -/
def split (c : Char) (t : Text) : List Text := t.splitOn c

/-- The pieces with `c` put back between them. -/
def join (c : Char) (pieces : List Text) : Text := [c].intercalate pieces

/-- The text before and after the first occurrence of `delimiter`, as `str::split_once`. -/
def splitOnce (delimiter : Text) : Text → Option (Text × Text)
  | [] => if delimiter = [] then some ([], []) else none
  | c :: rest =>
    match (c :: rest).dropPrefix? delimiter with
    | some after => some ([], after)
    | none => (splitOnce delimiter rest).map fun (before, after) => (c :: before, after)

def trimEndMatches (c : Char) (t : Text) : Text := (t.reverse.dropWhile (· == c)).reverse

def toAsciiLowercase (t : Text) : Text := t.map Char.toLower

/-- The UTF-8 encoding, one character per byte. -/
def utf8 (t : Text) : Text :=
  t.flatMap fun c => (String.utf8EncodeChar c).map fun byte => Char.ofNat byte.toNat

end Text

end SushiGpt
