/-
Tables with a primary key and a unique index.

No two rows of a table agree in their key or in their index, so a select that fixes the key finds
one row at most, and a sort by the index has no ties.
-/
import Mathlib.Data.List.Nodup

namespace SushiGpt

/-- Rows with distinct keys and distinct indexes. -/
structure Table (ρ : Type*) {κ ι : Type*} (key : ρ → κ) (i : ρ → ι) where
  rows : List ρ
  nodup_key : (rows.map key).Nodup
  nodup_index : (rows.map i).Nodup

namespace Table

variable {ρ κ ι : Type*} {key : ρ → κ} {i : ρ → ι}

def empty : Table ρ key i := ⟨[], .nil, .nil⟩

theorem eq_of_index_eq (t : Table ρ key i) {a b : ρ} (ha : a ∈ t.rows) (hb : b ∈ t.rows)
    (h : i a = i b) : a = b :=
  List.inj_on_of_nodup_map t.nodup_index ha hb h

end Table

end SushiGpt
