/-
Keyset pagination.

A listing is cut into pages; a page names the position of its last row, and the next page starts
behind that position.  Walking the pages lists everything there is to list from a cursor, if a
page holds the next rows and its cursor stands for the others.

The rows behind a position are those a comparison selects: it selects nothing before the row at
the position and all after it.  Selecting and sorting can be done in either order.
-/
import Mathlib.Data.List.Sort

namespace SushiGpt.Paging

open List

variable {ρ γ π ε : Type*}

/-! ### Walks -/

section Walks

variable (page : Option γ → Except ε π) (next : π → Option γ)

/-- The pages from a cursor until there is no next one. -/
inductive Walk : Option γ → List π → Prop
  | last {cursor p} : page cursor = .ok p → next p = none → Walk cursor [p]
  | more {cursor p cursor' pages} : page cursor = .ok p → next p = some cursor' →
      Walk (some cursor') pages → Walk cursor (p :: pages)

/-- What a page is to be, when the rows from its cursor on are `rest cursor`. -/
structure Serves (rows : π → List ρ) (size : Nat) (rest : Option γ → List ρ)
    (good : Option γ → Prop) (cursor : Option γ) (p : π) : Prop where
  answered : page cursor = .ok p
  rows_eq : rows p = (rest cursor).take size
  next_none : next p = none → (rest cursor).length ≤ size
  next_some : ∀ cursor', next p = some cursor' →
    size < (rest cursor).length ∧ good (some cursor') ∧
      rest (some cursor') = (rest cursor).drop size

variable {page next}

/-- **Walking pages that serve their cursors lists everything, each row once.** -/
theorem exists_walk {rows : π → List ρ} {s : Nat} {rest : Option γ → List ρ} {g : Option γ → Prop}
    (hsize : 0 < s) (hser : ∀ c, g c → ∃ p, Serves page next rows s rest g c p) :
    ∀ c : Option γ, g c →
      ∃ ps, Walk page next c ps ∧ ps.flatMap rows = rest c ∧ ∀ p ∈ ps, (rows p).length ≤ s := by
  intro c
  -- Every page leaves fewer rows to the next ones.
  induction hlen : (rest c).length using Nat.strong_induction_on generalizing c with
  | h n ih =>
    intro hgood
    obtain ⟨p, hp⟩ := hser c hgood
    have hbound : (rows p).length ≤ s := by
      rw [hp.rows_eq]
      exact length_take_le _ _
    cases hnext : next p with
    | none =>
      refine ⟨[p], .last hp.answered hnext, ?_, by simpa using hbound⟩
      simp [hp.rows_eq, take_of_length_le (hp.next_none hnext)]
    | some c' =>
      obtain ⟨hmore, hgood', hrest⟩ := hp.next_some c' hnext
      have hshor : (rest (some c')).length < n := by
        rw [hrest, length_drop]
        omega
      obtain ⟨ps, hwalk, hrows, hall⟩ := ih _ hshor (some c') rfl hgood'
      refine ⟨p :: ps, .more hp.answered hnext hwalk, ?_, forall_mem_cons.mpr ⟨hbound, hall⟩⟩
      rw [flatMap_cons, hrows, hp.rows_eq, hrest, take_append_drop]

end Walks

/-! ### Selecting -/

/-- Selecting a row, or not, and what comes after it. -/
theorem filter_from {first rest : List ρ} {row : ρ} {ss : ρ → Bool}
    (hfst : ∀ o ∈ first, ss o = false) (hrest : ∀ o ∈ rest, ss o = true) :
    (first ++ row :: rest).filter ss = (if ss row then [row] else []) ++ rest := by
  have hn : first.filter ss = [] := filter_eq_nil_iff.mpr fun o ho => by simp [hfst o ho]
  rw [filter_append, hn, nil_append, filter_cons, filter_eq_self.mpr hrest]
  split <;> rfl

section Sorting

variable {r : ρ → ρ → Prop} [DecidableRel r] [IsTrans ρ r] [Std.Total r] {p : ρ → Bool}

theorem insertionSort_filter_sublist (l : List ρ) :
    ((l.filter p).insertionSort r).Sublist (l.insertionSort r) := by
  induction l with
  | nil => exact List.Sublist.refl _
  | cons a l ih =>
    by_cases h : p a
    · rw [filter_cons_of_pos h, insertionSort_cons]
      exact ih.orderedInsert_sublist a (l.pairwise_insertionSort r)
    · rw [filter_cons_of_neg h]
      exact ih.trans (sublist_orderedInsert a _)

/-- Sorting the selected rows is selecting of the sorted ones. -/
theorem insertionSort_filter (l : List ρ) :
    (l.filter p).insertionSort r = (l.insertionSort r).filter p := by
  have hsel : ((l.filter p).insertionSort r).filter p = (l.filter p).insertionSort r :=
    filter_eq_self.mpr fun row hrow =>
      (mem_filter.mp ((mem_insertionSort r).mp hrow)).2
  refine List.Sublist.eq_of_length (hsel ▸ (insertionSort_filter_sublist l).filter p) ?_
  rw [length_insertionSort]
  exact ((perm_insertionSort r l).filter p).length_eq.symm

end Sorting

end SushiGpt.Paging
