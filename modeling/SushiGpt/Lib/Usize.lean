/-
Lengths and counters of 64 bits.

The code runs on 64-bit hosts.  Its counters saturate: a sum that does not fit is the largest
number that does.
-/
import Mathlib.Algebra.Group.Nat.Defs

namespace SushiGpt

def usizeMax : Nat := 2 ^ 64 - 1

def saturatingAdd (a b : Nat) : Nat := min (a + b) usizeMax

end SushiGpt
