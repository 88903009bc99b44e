/-
What locating a sequence of lines returns, against what is documented.

Four readings of a line are tried, from the strictest on, each at every position from the start of
the search on; so what is found is the first position of the strictest reading that has one.  For
a sequence at the end of the file the documentation promises a search from the start when the end
does not match.  The code has no such search, and with `normalizeToLf` it takes the end also when
it lies before the start.
-/
import SushiGpt.ApplyPatch.FileUpdate

namespace SushiGpt.ApplyPatch

open List

variable {ls p : List Text} {st i : Nat}

/-- The pattern stands at `i`, which is not before `start`, both read through `view`. -/
def StandsAt (view : Text → Text) (ls p : List Text) (st i : Nat) : Prop :=
  st ≤ i ∧ i + p.length ≤ ls.length ∧ matchesAt view ls p i = true

/-- The least position of the strictest reading that has one. -/
def FirstFrom (ls p : List Text) (st i : Nat) : Prop :=
  ∃ stricter view laxer, seekViews = stricter ++ view :: laxer ∧
    StandsAt view ls p st i ∧ (∀ j < i, ¬ StandsAt view ls p st j) ∧
    ∀ other ∈ stricter, ∀ j, ¬ StandsAt other ls p st j

/-- No reading has a position. -/
def NoneFrom (ls p : List Text) (st : Nat) : Prop :=
  ∀ view ∈ seekViews, ∀ j, ¬ StandsAt view ls p st j

/-- Some reading has the last position. -/
def StandsAtEnd (ls p : List Text) (st : Nat) : Prop :=
  ∃ view ∈ seekViews, StandsAt view ls p st (ls.length - p.length)

/-- What the documentation of `seek_sequence` says of its result. -/
def Documented (ls p : List Text) (st : Nat) (eof : Bool) : Option Nat → Prop
  | none => NoneFrom ls p st
  | some i =>
    (eof = true ∧ StandsAtEnd ls p st ∧ i = ls.length - p.length) ∨
      (¬ (eof = true ∧ StandsAtEnd ls p st) ∧ FirstFrom ls p st i)

/-! ### The four passes -/

def passes (ls p : List Text) (first : Nat) : Option Nat :=
  seekViews.findSome? fun view => findMatch view ls p first (ls.length - p.length)

section

variable (h : p.length ≤ ls.length)

include h

theorem findMatch_eq_some_iff {v : Text → Text} :
    findMatch v ls p st (ls.length - p.length) = some i ↔
      StandsAt v ls p st i ∧ ∀ j < i, ¬ StandsAt v ls p st j := by
  simp only [findMatch, find?_range'_eq_some, mem_range'_1, Bool.not_eq_true', StandsAt]
  grind

theorem findMatch_eq_none_iff {v : Text → Text} :
    findMatch v ls p st (ls.length - p.length) = none ↔ ∀ j, ¬ StandsAt v ls p st j := by
  simp only [findMatch, find?_eq_none, mem_range'_1, StandsAt]
  grind

theorem passes_eq_some_iff : passes ls p st = some i ↔ FirstFrom ls p st i := by
  simp [passes, findSome?_eq_some_iff, findMatch_eq_some_iff h, findMatch_eq_none_iff h, FirstFrom,
    and_assoc]

theorem passes_eq_none_iff : passes ls p st = none ↔ NoneFrom ls p st := by
  simp [passes, findSome?_eq_none_iff, findMatch_eq_none_iff h, NoneFrom]

/-- From the last position on, that position is all there is. -/
theorem passes_end :
    passes ls p (ls.length - p.length) = some i ↔
      StandsAtEnd ls p 0 ∧ i = ls.length - p.length := by
  simp only [passes, StandsAtEnd, StandsAt, Nat.sub_add_cancel h, findMatch,
    Nat.add_sub_cancel_left, range'_one, find?_singleton]
  induction seekViews with
  | nil => simp
  | cons v vs ih =>
    by_cases hview : matchesAt v ls p (ls.length - p.length) = true
    · simp [hview, eq_comm (a := i)]
    · simpa [hview] using ih

/-! ### The search -/

omit h in
theorem standsAtEnd_iff : StandsAtEnd ls p st ↔ StandsAtEnd ls p 0 ∧ st ≤ ls.length - p.length := by
  simp only [StandsAtEnd, StandsAt]
  grind

/-- What the passes from the last position on find is as documented for the end of the file. -/
theorem documented_end_iff :
    Documented ls p st true (passes ls p (ls.length - p.length)) ↔
      StandsAtEnd ls p st ∨ NoneFrom ls p st ∧ ¬ StandsAtEnd ls p 0 := by
  by_cases hend : StandsAtEnd ls p 0
  · rw [(passes_end h).mpr ⟨hend, rfl⟩]
    by_cases hle : st ≤ ls.length - p.length
    · have hst := standsAtEnd_iff.mpr ⟨hend, hle⟩
      simp [Documented, hst]
    · have hst : ¬ StandsAtEnd ls p st := fun h => hle (standsAtEnd_iff.mp h).2
      have hfst : ¬ FirstFrom ls p st (ls.length - p.length) :=
        fun ⟨_, _, _, _, hstan, _⟩ => hle hstan.1
      simp [Documented, hst, hfst, hend]
  · have hst : ¬ StandsAtEnd ls p st := fun h => hend (standsAtEnd_iff.mp h).1
    cases hpas : passes ls p (ls.length - p.length) with
    | none => simp [Documented, hst, hend]
    | some i => exact absurd ((passes_end h).mp hpas).1 hend

end

/-- **The search is as documented exactly** when it is not for the end of the file, or the end is
not before the start and matches, or nothing from the start on matches; with `normalizeToLf` the
end must not match before the start either. -/
theorem seekSequence_documented_iff (lines pattern : List Text) (hpattern : pattern ≠ [])
    (start : Nat) (eof : Bool) (mode : UpdateMode) :
    Documented lines pattern start eof (seekSequence lines pattern start eof mode) ↔
      (eof = true → StandsAtEnd lines pattern start ∨ NoneFrom lines pattern start ∧
        (mode = .normalizeToLf → ¬ StandsAtEnd lines pattern 0)) := by
  have hem : pattern.isEmpty = false := by simpa using hpattern
  by_cases hlen : lines.length < pattern.length
  · have hn (first : Nat) : NoneFrom lines pattern first := by
      intro v _ j hstan
      have := hstan.2.1
      omega
    have hend : ¬ StandsAtEnd lines pattern 0 := fun ⟨v, hview, hstan⟩ => hn 0 v hview _ hstan
    simp [seekSequence, hem, hlen, Documented, hn, hend]
  have hle : pattern.length ≤ lines.length := by omega
  rw [seekSequence, if_neg (by simp [hem]), if_neg hlen]
  cases eof with
  | false =>
    show Documented lines pattern start false (passes lines pattern start) ↔ _
    cases hpas : passes lines pattern start with
    | none => simpa [Documented] using (passes_eq_none_iff hle).mp hpas
    | some i => simpa [Documented] using (passes_eq_some_iff hle).mp hpas
  | true =>
    cases mode with
    | normalizeToLf => simpa [passes] using documented_end_iff hle
    | preserveLineEndings =>
      show Documented lines pattern start true
        (passes lines pattern (max (lines.length - pattern.length) start)) ↔ _
      by_cases hst : start ≤ lines.length - pattern.length
      · rw [max_eq_left hst, documented_end_iff hle, standsAtEnd_iff]
        by_cases hend : StandsAtEnd lines pattern 0
        · simp [hend, hst]
        · simp [hend]
      · -- No position is left.
        have hn : NoneFrom lines pattern start := by
          intro v _ j hstan
          have := hstan.1
          have := hstan.2.1
          omega
        rw [max_eq_right (by omega), (passes_eq_none_iff hle).mpr hn]
        simp [Documented, hn]

theorem second_line_documented :
    Documented [['a'], ['b']] [['b']] 0 true
      (seekSequence [['a'], ['b']] [['b']] 0 true .normalizeToLf) :=
  (seekSequence_documented_iff [['a'], ['b']] [['b']] (by decide) 0 true .normalizeToLf).mpr
    fun _ => .inl ⟨id, .head _, by decide, by decide, by decide⟩

/-- The line is there, but not at the end. -/
theorem first_line_not_found :
    seekSequence [['a'], ['b']] [['a']] 0 true .normalizeToLf = none ∧
      ¬ Documented [['a'], ['b']] [['a']] 0 true
        (seekSequence [['a'], ['b']] [['a']] 0 true .normalizeToLf) := by
  have hn : seekSequence [['a'], ['b']] [['a']] 0 true .normalizeToLf = none := by decide
  exact ⟨rfl, fun h => h id (.head _) 0 ⟨by decide, by decide, by decide⟩⟩

end SushiGpt.ApplyPatch
