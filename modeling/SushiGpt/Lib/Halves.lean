/-
Items in pairs.

An item may be one half of a pair.  A list is paired when every half that occurs in it occurs once,
and so does the other half.  Taking out an item and its other half leaves such a list.
-/
import Mathlib.Data.List.Basic

namespace SushiGpt.Halves

variable {α η : Type} [DecidableEq η]

abbrev isHalf (half : α → Option η) (h : η) (a : α) : Bool :=
  half a == some h

def Paired (half : α → Option η) (o : η → η) (l : List α) : Prop :=
  ∀ a ∈ l, ∀ h ∈ half a, l.countP (isHalf half h) = 1 ∧ l.countP (isHalf half (o h)) = 1

instance (half : α → Option η) (o : η → η) (l : List α) : Decidable (Paired half o l) :=
  inferInstanceAs (Decidable (∀ a ∈ l, ∀ h ∈ half a, _))

variable {half : α → Option η} {o : η → η} {a : α} {l : List α} {h : η}

theorem Paired.of_cons (hp : Paired half o (a :: l)) (ha : half a = none) : Paired half o l := by
  intro e he k hk
  have hcount := hp e (List.mem_cons_of_mem a he) k hk
  simpa [List.countP_cons, ha] using hcount

/-- The other half of the first item is found, and without both the rest is paired. -/
theorem Paired.eraseP (hne : ∀ h, o h ≠ h) (hinv : ∀ h, o (o h) = h)
    (hp : Paired half o (a :: l)) (ha : half a = some h) :
    ∃ bef b aft, l = bef ++ b :: aft ∧ half b = some (o h) ∧
      l.eraseP (isHalf half (o h)) = bef ++ aft ∧ Paired half o (bef ++ aft) := by
  have hone := (hp a List.mem_cons_self h ha).2
  have hmem : 0 < l.countP (isHalf half (o h)) := by
    have hfirst : isHalf half (o h) a = false := by simp [ha, (hne h).symm]
    rw [List.countP_cons, hfirst] at hone
    simp only [Bool.false_eq_true, if_false] at hone
    omega
  obtain ⟨c, hc, hhalf⟩ := List.countP_pos_iff.mp hmem
  obtain ⟨b, bef, aft, -, hb, rfl, herase⟩ := List.exists_of_eraseP hc hhalf
  rw [beq_iff_eq] at hb
  refine ⟨bef, b, aft, rfl, hb, herase, fun e he k hk => ?_⟩
  have hcount (k : η) : (a :: (bef ++ b :: aft)).countP (isHalf half k) =
      (if h = k then 1 else 0) + (if o h = k then 1 else 0) +
        (bef ++ aft).countP (isHalf half k) := by
    simp only [List.countP_cons, List.countP_append, ha, hb, beq_iff_eq, Option.some.injEq]
    omega
  have hin : e ∈ a :: (bef ++ b :: aft) := by
    simp only [List.mem_append, List.mem_cons] at he ⊢
    tauto
  have hpos : 0 < (bef ++ aft).countP (isHalf half k) :=
    List.countP_pos_iff.mpr ⟨e, he, by simpa using hk⟩
  obtain ⟨hk1, hk2⟩ := hp e hin k hk
  -- The halves taken out occur no more, so the item is of another pair.
  have hh : h ≠ k := by
    rintro rfl
    rw [hcount, if_pos rfl] at hk1
    omega
  have ho : o h ≠ k := by
    rintro rfl
    rw [hcount, if_pos rfl] at hk1
    omega
  have hh' : h ≠ o k := fun heq => ho (by rw [heq, hinv])
  have ho' : o h ≠ o k := fun heq => hh (by rw [← hinv h, heq, hinv])
  rw [hcount, if_neg hh, if_neg ho] at hk1
  rw [hcount, if_neg hh', if_neg ho'] at hk2
  omega

end SushiGpt.Halves
