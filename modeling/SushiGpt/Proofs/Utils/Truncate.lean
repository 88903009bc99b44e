/-
What is left of a text whose middle was cut out.

The loop of `split_string` goes through the text once: the characters that end within the left
budget, the characters that are removed, and those that begin within the right budget.
-/
import SushiGpt.Utils.Truncate

namespace SushiGpt.Truncate

open List

variable {b t i p q r : Nat} {s : Text}

@[simp] theorem len_append (a s : Text) : len (a ++ s) = len a + len s := by
  simp [len]

theorem add_len_cons (i : Nat) (ch : Char) (s : Text) :
    i + len (ch :: s) = i + ch.utf8Size + len s := by
  simp [len, Nat.add_assoc]

theorem splitAt_append (a s : Text) : splitAt (a ++ s) (len a) = some (a, s) := by
  induction a with
  | nil => cases s <;> rfl
  | cons ch a ih =>
    have hlen : len (ch :: a) = ch.utf8Size + len a := by simp [len]
    have hpos := ch.utf8Size_pos
    rw [cons_append, hlen, splitAt, if_neg (by omega), if_pos (by omega), Nat.add_sub_cancel_left,
      ih]
    rfl

/-! ### The loop -/

theorem foldl_before (h : i ≤ b) (t n : Nat) (s : Text) :
    ∃ a x, s = a ++ x ∧ s.foldl (Cuts.next b t) ⟨i, i, n, 0, false⟩ =
        x.foldl (Cuts.next b t) ⟨i + len a, i + len a, n, 0, false⟩ ∧
      i + len a ≤ b ∧ ∀ ch ∈ x.head?, b < i + len a + ch.utf8Size := by
  induction s generalizing i with
  | nil => exact ⟨[], [], rfl, rfl, h, nofun⟩
  | cons ch s ih =>
    by_cases hch : i + ch.utf8Size ≤ b
    · obtain ⟨a, x, rfl, hrun, ha, hx⟩ := ih hch
      refine ⟨ch :: a, x, rfl, ?_⟩
      rw [add_len_cons, ← hrun]
      exact ⟨by simp [Cuts.next, hch], ha, hx⟩
    · refine ⟨[], ch :: s, rfl, rfl, h, fun l hl => ?_⟩
      cases hl
      exact Nat.not_le.mp hch

theorem foldl_after (hb : b < i) (ht : t ≤ i) :
    s.foldl (Cuts.next b t) ⟨i, p, q, r, true⟩ = ⟨i + len s, p, q, r, true⟩ := by
  induction s generalizing i with
  | nil => rfl
  | cons ch s ih =>
    rw [add_len_cons, foldl_cons, ← ih (by omega) (by omega)]
    simp [Cuts.next, show ¬ i + ch.utf8Size ≤ b by omega, ht]

/-- From the first character that does not fit on the left. -/
theorem foldl_rest (hb : ∀ ch ∈ s.head?, b < i + ch.utf8Size) :
    ∃ m z, s = m ++ z ∧ s.foldl (Cuts.next b t) ⟨i, p, i + len s, r, false⟩ =
        ⟨i + len s, p, i + len m, r + m.length, z ≠ []⟩ ∧
      (z ≠ [] → t ≤ i + len m) ∧ ∀ l ch, m = l ++ [ch] → i + len l < t := by
  induction s generalizing i r with
  | nil => exact ⟨[], [], rfl, rfl, nofun, by simp⟩
  | cons ch s ih =>
    have hend : ¬ i + ch.utf8Size ≤ b := Nat.not_le.mpr (hb ch rfl)
    rw [add_len_cons]
    by_cases ht : t ≤ i
    · refine ⟨[], ch :: s, rfl, ?_, fun _ => ht, by simp⟩
      refine Eq.trans ?_ (foldl_after (t := t) (Nat.not_le.mp hend) (by omega))
      simp [Cuts.next, ht, hend, len]
    · obtain ⟨m, z, rfl, hrun, hz, hm⟩ := @ih (i + ch.utf8Size) (r + 1) fun _ _ => by omega
      refine ⟨ch :: m, z, rfl, ?_, ?_, fun l last hl => ?_⟩
      · rw [add_len_cons, length_cons, Nat.add_comm m.length, ← Nat.add_assoc, ← hrun]
        simp [Cuts.next, ht, hend]
      · rwa [add_len_cons]
      · cases l with
        | nil => exact Nat.not_le.mp ht
        | cons x l =>
          obtain ⟨rfl, rfl⟩ := cons.inj hl
          rw [add_len_cons]
          exact hm l last rfl

/-- Any two budgets, also such as overlap: the part on the left comes first. -/
theorem splitString_spec (s : Text) (b e : Nat) :
    ∃ a m z, s = a ++ (m ++ z) ∧ splitString s b e = some (m.length, a, z) ∧
      len a ≤ b ∧ (∀ ch ∈ (m ++ z).head?, b < len a + ch.utf8Size) ∧
      len z ≤ e ∧ ∀ ch ∈ m.getLast?, e < ch.utf8Size + len z := by
  obtain ⟨a, x, rfl, hbefore, ha, hx⟩ := foldl_before (Nat.zero_le b) (len s - e) (len s) s
  rw [Nat.zero_add] at hbefore ha hx
  obtain ⟨m, z, rfl, hrun, hz, hm⟩ := @foldl_rest b (len (a ++ x) - e) (len a) (len a) 0 x hx
  refine ⟨a, m, z, rfl, ?_, ha, hx, ?_, fun ch hch => ?_⟩
  · unfold splitString
    split_ifs with hnil
    · simp_all
    · have hcut := splitAt_append (a ++ m) z
      rw [len_append, append_assoc] at hcut
      rw [← len_append] at hrun
      rw [hbefore, hrun]
      simp [splitAt_append, hcut, show ¬ len a + len m < len a by omega]
  · cases z with
    | nil => exact Nat.zero_le e
    | cons ch z =>
      have := hz nofun
      rw [len_append, len_append] at this
      omega
  · obtain ⟨l, rfl⟩ := getLast?_eq_some_iff.mp hch
    have := hm l ch rfl
    simp only [len_append, show len [ch] = ch.utf8Size by simp [len]] at this
    omega

/-- **A text that is too long is cut in the middle: on neither side would one more character fit
into its half of the budget, and the marker tells how many characters are gone, or about how many
tokens the text is over the budget.** -/
theorem truncation_exact (s : Text) (maxBytes : Nat) (useTokens : Bool) :
    (len s ≤ maxBytes → truncateWithByteEstimate s maxBytes useTokens = some s) ∧
    (maxBytes < len s → ∃ before removed after, s = before ++ (removed ++ after) ∧ removed ≠ [] ∧
      truncateWithByteEstimate s maxBytes useTokens =
        some (before ++ ("…".toList ++
          (toString (if useTokens then (len s - maxBytes + 3) / 4 else removed.length)).toList ++
          (if useTokens then " tokens truncated…" else " chars truncated…").toList) ++ after) ∧
      len before ≤ maxBytes / 2 ∧
      (∀ ch ∈ removed.head?, maxBytes / 2 < len before + ch.utf8Size) ∧
      len after ≤ maxBytes - maxBytes / 2 ∧
      ∀ ch ∈ removed.getLast?, maxBytes - maxBytes / 2 < ch.utf8Size + len after) := by
  unfold truncateWithByteEstimate
  refine ⟨fun hle => ?_, fun hlt => ?_⟩
  · cases s with
    | nil => rfl
    | cons ch s =>
      have hpos := ch.utf8Size_pos
      have hlen := add_len_cons 0 ch s
      rw [if_neg (cons_ne_nil ch s), if_neg (by omega), if_pos hle]
  · have hne : s ≠ [] := by
      rintro rfl
      exact Nat.not_lt_zero _ hlt
    rw [if_neg hne]
    by_cases hzero : maxBytes = 0
    · subst hzero
      have hfst (ch : Char) : 0 < 0 + ch.utf8Size := by simp [ch.utf8Size_pos]
      exact ⟨[], s, [], by simp, hne, by simp [formatTruncationMarker, removedUnits,
        approxTokensFromByteCount], le_rfl, fun ch _ => hfst ch, le_rfl,
        fun ch _ => ch.utf8Size_pos⟩
    · obtain ⟨a, m, z, hs, heq, ha, hx, hz, hlast⟩ :=
        splitString_spec s (splitBudget maxBytes).1 (splitBudget maxBytes).2
      have hm : m ≠ [] := by
        rintro rfl
        rw [hs, len_append, nil_append] at hlt
        simp only [splitBudget] at ha hz
        omega
      refine ⟨a, m, z, hs, hm, ?_, ha, fun ch hch => hx ch ?_, hz, hlast⟩
      · rw [if_neg hzero, if_neg (Nat.not_le.mpr hlt)]
        dsimp only
        rw [heq]
        rfl
      · rw [head?_append, hch]
        rfl

end SushiGpt.Truncate
