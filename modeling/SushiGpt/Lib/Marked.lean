/-
Lists cut at the members that a predicate marks.

`takeMarked p n l` goes up to the mark that comes after `n` others.  What is cut off behind the
last mark does not matter for shorter cuts.
-/
import Mathlib.Data.List.DropRight

namespace SushiGpt.Lists

open List

variable {α : Type*} {p q : α → Bool} {l m : List α} {n k : Nat}

def takeMarked (p : α → Bool) : Nat → List α → List α
  | _, [] => []
  | 0, a :: l => if p a then [] else a :: takeMarked p 0 l
  | n + 1, a :: l => a :: takeMarked p (if p a then n else n + 1) l

theorem takeMarked_zero (p : α → Bool) (l : List α) : takeMarked p 0 l = l.takeWhile (!p ·) := by
  induction l with
  | nil => rfl
  | cons a l ih => by_cases ha : p a <;> simp [takeMarked, ha, ih]

theorem countP_takeMarked (h : n ≤ l.countP p) : (takeMarked p n l).countP p = n := by
  induction l generalizing n with
  | nil => simpa [takeMarked, eq_comm] using h
  | cons a l ih =>
    by_cases ha : p a <;> cases n <;> simp_all [takeMarked]

theorem takeMarked_append (h : n < l.countP p) : takeMarked p n (l ++ m) = takeMarked p n l := by
  induction l generalizing n with
  | nil => simp at h
  | cons a l ih =>
    by_cases ha : p a <;> cases n <;> simp_all [takeMarked]

theorem takeMarked_prefix (p : α → Bool) (n : Nat) (l : List α) : takeMarked p n l <+: l := by
  induction l generalizing n with
  | nil => simp [takeMarked]
  | cons a l ih =>
    by_cases ha : p a <;> cases n <;> simp [takeMarked, ha, ih]

theorem countP_rdropWhile (hq : ∀ a, q a = true → p a = false) (l : List α) :
    (l.rdropWhile q).countP p = l.countP p := by
  induction l using reverseRecOn with
  | nil => simp
  | append_singleton l a ih =>
    by_cases ha : q a
    · simp [ha, ih, hq a ha]
    · simp [ha]

/-- A shorter cut of a list that has lost its unmarked end. -/
theorem takeMarked_rdropWhile (hq : ∀ a, q a = true → p a = false) (hkn : k < n)
    (h : n ≤ l.countP p) : takeMarked p k ((takeMarked p n l).rdropWhile q) = takeMarked p k l := by
  obtain ⟨tail, htail⟩ := List.rdropWhile_prefix q (takeMarked p n l)
  obtain ⟨r, hrest⟩ := takeMarked_prefix p n l
  have hcount := countP_takeMarked h
  calc takeMarked p k ((takeMarked p n l).rdropWhile q)
      = takeMarked p k (takeMarked p n l) := by
        rw [← takeMarked_append (m := tail), htail]
        rw [countP_rdropWhile hq, hcount]
        exact hkn
    _ = takeMarked p k l := by
        rw [← takeMarked_append (m := r) (by omega), hrest]

def marks (p : α → Bool) (l : List α) : List Nat :=
  (l.zipIdx.filter fun entry => p entry.1).map Prod.snd

theorem marks_cons (p : α → Bool) (a : α) (l : List α) :
    marks p (a :: l) = (if p a then [0] else []) ++ (marks p l).map (· + 1) := by
  by_cases ha : p a <;>
    simp [marks, ha, zipIdx_succ, filter_map, Function.comp_def]

theorem length_marks (p : α → Bool) (l : List α) : (marks p l).length = l.countP p := by
  induction l with
  | nil => rfl
  | cons a l ih => by_cases ha : p a <;> simp [marks_cons, ha, ih]

theorem exists_take_marks (h : n < l.countP p) :
    ∃ i < l.length, (marks p l)[n]? = some i ∧ l.take i = takeMarked p n l := by
  induction l generalizing n with
  | nil => simp at h
  | cons a l ih =>
    by_cases ha : p a
    · cases n with
      | zero => exact ⟨0, by simp, by simp [marks_cons, ha], by simp [takeMarked, ha]⟩
      | succ n =>
        obtain ⟨i, hlt, hi, htake⟩ := ih (n := n) (by simpa [ha] using h)
        exact ⟨i + 1, by simpa using hlt, by simp [marks_cons, ha, hi],
          by simp [takeMarked, ha, htake]⟩
    · obtain ⟨i, hlt, hi, htake⟩ := ih (n := n) (by simpa [ha] using h)
      refine ⟨i + 1, by simpa using hlt, by simp [marks_cons, ha, hi], ?_⟩
      cases n <;> simp [takeMarked, ha, htake]

theorem find?_eq_of_marks {i : Nat} (h : (marks p l).head? = some i) : l[i]? = l.find? p := by
  induction l generalizing i with
  | nil => simp [marks] at h
  | cons a l ih =>
    by_cases ha : p a
    · obtain rfl : 0 = i := by simpa [marks_cons, ha] using h
      simp [ha]
    · obtain ⟨j, hj, rfl⟩ : ∃ j, (marks p l).head? = some j ∧ j + 1 = i := by
        simpa [marks_cons, ha] using h
      simp [ha, ih hj]

end SushiGpt.Lists
