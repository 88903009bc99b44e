/-
Maps in the order of their keys.

The entries are a list in strictly increasing order of the keys, so that iterating, counting a
range and looking up one key all read the same list.  Everything about lookups goes through
`get?_eq_some_iff`: an entry is in the list exactly when it is found.
-/
import Mathlib.Algebra.BigOperators.Group.Finset.Basic
import Mathlib.Algebra.GroupWithZero.Nat
import SushiGpt.Lib.IndexMap

namespace SushiGpt

open List List.Nodup

@[ext]
structure OrderedMap (κ α : Type*) [LinearOrder κ] where
  entries : List (κ × α)
  sorted : entries.Pairwise (·.1 < ·.1)

namespace OrderedMap

variable {κ α : Type*} [LinearOrder κ]

def empty : OrderedMap κ α := ⟨[], .nil⟩

variable (m : OrderedMap κ α)

def size : Nat := m.entries.length

def get? (k : κ) : Option α :=
  (m.entries.find? fun entry => entry.1 = k).map Prod.snd

def insertEntry (k : κ) (v : α) : List (κ × α) → List (κ × α)
  | [] => [(k, v)]
  | entry :: rest =>
    if k < entry.1 then (k, v) :: entry :: rest
    else if k = entry.1 then (k, v) :: rest
    else entry :: insertEntry k v rest

theorem mem_insertEntry {k : κ} {v : α} {e : κ × α} : ∀ {es : List (κ × α)},
    e ∈ insertEntry k v es → e = (k, v) ∨ e ∈ es
  | [], h => .inl (mem_singleton.mp h)
  | first :: r, h => by
    unfold insertEntry at h
    split_ifs at h
    · exact mem_cons.mp h
    · exact (mem_cons.mp h).imp_right (mem_cons_of_mem _)
    · rcases mem_cons.mp h with rfl | h
      · exact .inr (mem_cons_self ..)
      · exact (mem_insertEntry h).imp_right (mem_cons_of_mem _)

theorem sorted_insertEntry (k : κ) (v : α) {es : List (κ × α)}
    (h : es.Pairwise (·.1 < ·.1)) : (insertEntry k v es).Pairwise (·.1 < ·.1) := by
  induction es with
  | nil => exact pairwise_singleton _ _
  | cons first r ih =>
    obtain ⟨hfst, hrest⟩ := pairwise_cons.mp h
    unfold insertEntry
    split_ifs with hlt heq
    · refine pairwise_cons.mpr ⟨fun e he => ?_, h⟩
      rcases mem_cons.mp he with rfl | he
      · exact hlt
      · exact hlt.trans (hfst e he)
    · exact pairwise_cons.mpr ⟨fun e he => heq ▸ hfst e he, hrest⟩
    · refine pairwise_cons.mpr ⟨fun e he => ?_, ih hrest⟩
      rcases mem_insertEntry he with rfl | he
      · exact lt_of_le_of_ne (not_lt.mp hlt) (Ne.symm heq)
      · exact hfst e he

def insert (k : κ) (v : α) : OrderedMap κ α :=
  ⟨insertEntry k v m.entries, sorted_insertEntry k v m.sorted⟩

def erase (k : κ) : OrderedMap κ α :=
  ⟨m.entries.filter fun entry => entry.1 ≠ k, m.sorted.filter _⟩

/-- Changes the value of a key that is present. -/
def modify (k : κ) (f : α → α) : OrderedMap κ α :=
  ⟨m.entries.map fun entry => if entry.1 = k then (entry.1, f entry.2) else entry, by
    refine pairwise_map.mpr (m.sorted.imp fun {a b} hlt => ?_)
    split_ifs <;> exact hlt⟩

/-- The entries whose keys lie between two keys, in order. -/
def range (low high : κ) : List (κ × α) :=
  m.entries.filter fun entry => low ≤ entry.1 && entry.1 ≤ high

/-! ### Lookups -/

variable {m : OrderedMap κ α} {k k' : κ} {v : α}

theorem nodup_keys (m : OrderedMap κ α) : (m.entries.map Prod.fst).Nodup :=
  pairwise_map.mpr (m.sorted.imp ne_of_lt)

theorem get?_eq [DecidableEq κ] : m.get? k = IndexMap.get? m.entries k := by
  unfold get? IndexMap.get?
  congr!

theorem get?_eq_some_iff : m.get? k = some v ↔ (k, v) ∈ m.entries :=
  IndexMap.get?_eq_some_iff m.nodup_keys

theorem get?_eq_none_iff : m.get? k = none ↔ ∀ e ∈ m.entries, e.1 ≠ k := by
  simp [get?]

theorem get?_empty : (empty : OrderedMap κ α).get? k = none := rfl

theorem get?_insertEntry [DecidableEq κ] {es : List (κ × α)} :
    IndexMap.get? (insertEntry k v es) k' = if k' = k then some v else IndexMap.get? es k' := by
  unfold IndexMap.get?
  induction es with
  | nil => by_cases h : k' = k <;> simp [insertEntry, h, eq_comm]
  | cons first r ih =>
    unfold insertEntry
    split_ifs with hlt heq hk hk <;> grind

theorem get?_insert : (m.insert k v).get? k' = if k' = k then some v else m.get? k' :=
  get?_insertEntry

theorem get?_insert_self : (m.insert k v).get? k = some v := get?_insert.trans (if_pos rfl)

theorem get?_insert_of_ne (h : k' ≠ k) : (m.insert k v).get? k' = m.get? k' :=
  get?_insert.trans (if_neg h)

theorem get?_erase : (m.erase k).get? k' = if k' = k then none else m.get? k' := by
  refine (IndexMap.get?_filter (fun key => decide (key ≠ k)) m.entries k').trans ?_
  by_cases h : k' = k
  · simp [h]
  · simp only [ne_eq, h, not_false_eq_true, decide_true, if_true, if_false]
    rfl

theorem get?_erase_self : (m.erase k).get? k = none := get?_erase.trans (if_pos rfl)

theorem get?_erase_of_ne (h : k' ≠ k) : (m.erase k).get? k' = m.get? k' :=
  get?_erase.trans (if_neg h)

/-- **Maps with the same value under every key are the same.** -/
theorem ext_get? {m' : OrderedMap κ α} (h : ∀ k, m.get? k = m'.get? k) : m = m' := by
  have hmem (e : κ × α) : e ∈ m.entries ↔ e ∈ m'.entries := by
    rw [← get?_eq_some_iff, h, get?_eq_some_iff]
  have hperm : m.entries.Perm m'.entries :=
    (perm_ext_iff_of_nodup (of_map _ m.nodup_keys) (of_map _ m'.nodup_keys)).mpr hmem
  exact OrderedMap.ext
    (hperm.eq_of_pairwise (fun a b _ _ hlt hgt => absurd hgt hlt.asymm) m.sorted m'.sorted)

theorem erase_insert_of_ne (h : k ≠ k') : (m.insert k v).erase k' = (m.erase k').insert k v := by
  refine ext_get? fun key => ?_
  simp only [get?_erase, get?_insert]
  split_ifs with hk hk' hk'
  · exact absurd (hk'.symm.trans hk) h
  · rfl
  · rfl
  · rfl

/-- A change that leaves every value found under the key as it is leaves the map as it is. -/
theorem modify_eq_self {f : α → α} (h : ∀ val, m.get? k = some val → f val = val) :
    m.modify k f = m := by
  have hents : (m.modify k f).entries = m.entries := by
    refine (map_congr_left fun e he => ?_).trans (map_id _)
    split_ifs with hkey
    · subst hkey
      rw [h e.2 (get?_eq_some_iff.mpr he)]
      rfl
    · rfl
  exact OrderedMap.ext hents

/-! ### Counting -/

theorem perm_insert (h : m.get? k = none) : (m.insert k v).entries.Perm ((k, v) :: m.entries) := by
  have habs := get?_eq_none_iff.mp h
  show (insertEntry k v m.entries).Perm _
  generalize m.entries = es at habs
  induction es with
  | nil => exact .refl _
  | cons first r ih =>
    unfold insertEntry
    split_ifs with hlt heq
    · exact .refl _
    · exact absurd heq.symm (habs first (mem_cons_self ..))
    · refine ((ih fun e he => habs e (mem_cons_of_mem _ he)).cons first).trans (.swap ..)

theorem perm_erase (h : m.get? k = some v) : m.entries.Perm ((k, v) :: (m.erase k).entries) := by
  have hmem := get?_eq_some_iff.mp h
  refine (perm_ext_iff_of_nodup (of_map _ m.nodup_keys) ?_).mpr ?_
  · refine nodup_cons.mpr ⟨fun hin => ?_, of_map _ (m.erase k).nodup_keys⟩
    exact get?_eq_none_iff.mp get?_erase_self _ hin rfl
  · intro e
    rw [mem_cons]
    constructor
    · intro he
      by_cases hkey : e.1 = k
      · exact .inl (inj_on_of_nodup_map m.nodup_keys he hmem hkey)
      · exact .inr (mem_filter.mpr ⟨he, by simpa using hkey⟩)
    · rintro (rfl | he)
      · exact hmem
      · exact (mem_filter.mp he).1

theorem erase_insert : (m.insert k v).erase k = m.erase k :=
  ext_get? fun k' => by simp only [get?_erase, get?_insert]; split_ifs <;> rfl

/-- What is counted among the entries, without the one under a key. -/
theorem countP_erase (m : OrderedMap κ α) (k : κ) (p : κ × α → Bool) :
    (m.erase k).entries.countP p + ((m.get? k).any fun v => p (k, v)).toNat =
      m.entries.countP p := by
  cases h : m.get? k with
  | none =>
    have hall : (m.erase k).entries = m.entries :=
      filter_eq_self.mpr fun e he => by simpa using get?_eq_none_iff.mp h e he
    rw [hall]
    rfl
  | some v =>
    rw [(perm_erase h).countP_eq, countP_cons, Option.any_some]
    cases p (k, v) <;> rfl

theorem countP_insert (m : OrderedMap κ α) (k : κ) (v : α) (p : κ × α → Bool) :
    (m.insert k v).entries.countP p + ((m.get? k).any fun v => p (k, v)).toNat =
      m.entries.countP p + (p (k, v)).toNat := by
  have hins := (m.insert k v).countP_erase k p
  rw [erase_insert, get?_insert_self] at hins
  have herase := m.countP_erase k p
  simp only [Option.any_some] at hins
  omega

theorem size_erase (h : m.get? k = some v) : (m.erase k).size + 1 = m.size :=
  (perm_erase h).length_eq.symm

theorem get?_of_size_eq_zero (h : m.size = 0) : m.get? k = none := by
  rw [get?_eq_none_iff, length_eq_zero_iff.mp h]
  nofun

theorem size_le_one (h : ∀ a b, m.get? a ≠ none → m.get? b ≠ none → a = b) : m.size ≤ 1 := by
  unfold size
  rcases hents : m.entries with _ | ⟨first, _ | ⟨s, r⟩⟩
  · exact Nat.zero_le 1
  · exact le_rfl
  · have hsor := m.sorted
    have hfd : ∀ e ∈ m.entries, m.get? e.1 ≠ none := fun e he hn => get?_eq_none_iff.mp hn e he rfl
    rw [hents] at hsor hfd
    have heq := h first.1 s.1 (hfd first (by simp)) (hfd s (by simp))
    exact absurd heq ((pairwise_cons.mp hsor).1 s (by simp)).ne

theorem mem_range_keys {low high : κ} :
    k ∈ (m.range low high).map Prod.fst ↔ low ≤ k ∧ k ≤ high ∧ m.get? k ≠ none := by
  simp only [mem_map, range, mem_filter, Bool.and_eq_true, decide_eq_true_eq, ne_eq,
    get?_eq_none_iff, not_forall, not_not]
  constructor
  · rintro ⟨e, ⟨hmem, hlow, hhigh⟩, rfl⟩
    exact ⟨hlow, hhigh, e, hmem, rfl⟩
  · rintro ⟨hlow, hhigh, e, hmem, rfl⟩
    exact ⟨e, ⟨hmem, hlow, hhigh⟩, rfl⟩

/-- A range has as many entries as there are keys in it. -/
theorem card_range (m : OrderedMap κ α) (low high : κ) (keys : Finset κ)
    (h : ∀ k, k ∈ keys ↔ low ≤ k ∧ k ≤ high ∧ m.get? k ≠ none) :
    (m.range low high).length = keys.card := by
  have hnd : ((m.range low high).map Prod.fst).Nodup :=
    sublist (List.Sublist.map _ filter_sublist) m.nodup_keys
  rw [← length_map Prod.fst, ← toFinset_card_of_nodup hnd]
  congr 1
  ext key
  rw [h, mem_toFinset, mem_range_keys]

end OrderedMap

end SushiGpt
