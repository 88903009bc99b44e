/-
Sparse vectors with an index.

A value is appended under its key, replaces the one under its key where there is one, and leaves
an empty slot when it is removed.  Without the empty slots that is a list of keyed values.
-/
import SushiGpt.Lib.IndexMap
import SushiGpt.Lib.Lists
import Mathlib.Data.List.ReduceOption

namespace SushiGpt

structure Slots (κ α : Type*) where
  slots : List (Option α)
  indexes : List (κ × Nat)

namespace Slots

open IndexMap List

variable {κ α : Type*} [DecidableEq κ]

def empty : Slots κ α := ⟨[], []⟩

def push (s : Slots κ α) (key : κ) (a : α) : Slots κ α :=
  match get? s.indexes key with
  | some i => { s with slots := s.slots.set i (some a) }
  | none => ⟨s.slots ++ [some a], insert key s.slots.length s.indexes⟩

def remove (s : Slots κ α) (key : κ) : Slots κ α :=
  match get? s.indexes key with
  | some i => ⟨s.slots.set i none, IndexMap.remove key s.indexes⟩
  | none => s

def values (s : Slots κ α) : List α := s.slots.reduceOption

/-- The index finds the values, each under its key. -/
def Indexed (f : α → κ) (s : Slots κ α) : Prop :=
  ∀ key i, get? s.indexes key = some i ↔ ∃ a, s.slots[i]? = some (some a) ∧ f a = key

variable {f : α → κ} {s : Slots κ α} {key : κ} {a : α} {i : Nat}

theorem indexed_empty : Indexed f empty := by
  intro key i
  simp [empty, get?]

variable (h : Indexed f s)

include h

theorem Indexed.mem_keys : key ∈ s.values.map f ↔ (get? s.indexes key).isSome := by
  rw [Option.isSome_iff_exists, mem_map]
  constructor
  · rintro ⟨a, ha, hkey⟩
    obtain ⟨i, hi⟩ := mem_iff_getElem?.mp (reduceOption_mem_iff.mp ha)
    exact ⟨i, (h key i).mpr ⟨a, hi, hkey⟩⟩
  · rintro ⟨i, hi⟩
    obtain ⟨a, ha, hkey⟩ := (h key i).mp hi
    exact ⟨a, reduceOption_mem_iff.mpr (mem_of_getElem? ha), hkey⟩

theorem Indexed.nodup : (s.values.map f).Nodup := by
  rw [List.Nodup, pairwise_map, values, reduceOption, pairwise_filterMap, pairwise_iff_getElem]
  intro i j hi hj hij a ha b hb heq
  have hat := (h (f a) i).mpr ⟨a, by rw [getElem?_eq_getElem hi]; exact congrArg some ha, rfl⟩
  rw [(h (f a) j).mpr ⟨b, by rw [getElem?_eq_getElem hj]; exact congrArg some hb, heq.symm⟩] at hat
  cases hat
  omega

/-- The value under a key, among values with other keys. -/
theorem Indexed.split (hi : get? s.indexes key = some i) :
    ∃ l x r, s.slots = l ++ some x :: r ∧ (∀ o, s.slots.set i o = l ++ o :: r) ∧ f x = key ∧
      ∀ y ∈ l.reduceOption ++ r.reduceOption, f y ≠ key := by
  obtain ⟨x, hx, hkey⟩ := (h key i).mp hi
  obtain ⟨l, r, hs, hset⟩ := Lists.exists_split_of_getElem? hx
  have hat {y : α} (hy : f y = key) (j : Nat) (hj : s.slots[j]? = some (some y)) : j = i :=
    Option.some.inj (((h key j).mpr ⟨y, hj, hy⟩).symm.trans hi)
  have hl : l.length = i := hat hkey l.length (by simp [hs])
  refine ⟨l, x, r, hs, hset, hkey, fun y hy hsame => ?_⟩
  rcases mem_append.mp hy with hy | hy
  · obtain ⟨j, hj⟩ := mem_iff_getElem?.mp (reduceOption_mem_iff.mp hy)
    have hlt := (List.getElem?_eq_some_iff.mp hj).1
    have := hat hsame j (by rw [hs, getElem?_append_left hlt, hj])
    omega
  · obtain ⟨j, hj⟩ := mem_iff_getElem?.mp (reduceOption_mem_iff.mp hy)
    have := hat hsame (l.length + (j + 1)) (by
      rw [hs, getElem?_append_right (by omega), Nat.add_sub_cancel_left, getElem?_cons_succ, hj])
    omega

theorem Indexed.values_push (a : α) : (s.push (f a) a).values = put f a s.values := by
  unfold Slots.push
  cases hi : get? s.indexes (f a) with
  | none =>
    have hnew : f a ∉ s.values.map f := by
      rw [h.mem_keys, hi]
      exact Bool.false_ne_true
    rw [put_of_not_mem hnew, values, reduceOption_append]
    rfl
  | some i =>
    obtain ⟨l, x, r, hs, hset, hkey, hne⟩ := h.split hi
    have hnew : f a ∉ l.reduceOption.map f := by
      simpa using fun y hy => hne y (mem_append_left _ hy)
    show (s.slots.set i (some a)).reduceOption = put f a s.slots.reduceOption
    rw [hset, hs, reduceOption_append, reduceOption_append, reduceOption_cons_of_some,
      reduceOption_cons_of_some, put_append_of_not_mem hnew, put, if_pos hkey]

theorem Indexed.push (a : α) : Indexed f (s.push (f a) a) := by
  intro key j
  unfold Slots.push
  cases hi : get? s.indexes (f a) with
  | none =>
    have hnone : get? s.indexes key = some j → f a ≠ key := by
      rintro hj rfl
      cases hi.symm.trans hj
    have hold := h key j
    rw [get?_insert]
    by_cases heq : j = s.slots.length
    · subst heq
      split_ifs with hkey <;> simp [hold, hkey]
    · have hget : (s.slots ++ [some a])[j]? = s.slots[j]? := by
        by_cases hj : j < s.slots.length
        · exact getElem?_append_left hj
        · rw [getElem?_eq_none (by simp; omega), getElem?_eq_none (by omega)]
      rw [hget, ← hold]
      split_ifs with hkey
      · exact iff_of_false (by simp; omega) fun hj => hnone hj hkey
      · rfl
  | some i =>
    obtain ⟨x, hx, hkey⟩ := (h _ i).mp hi
    rw [h key j, getElem?_set]
    split_ifs with hij hlt
    · simp [← hij, hx, hkey]
    · exact absurd (List.getElem?_eq_some_iff.mp hx).1 hlt
    · rfl

theorem Indexed.values_remove (key : κ) : (s.remove key).values = s.values.filter (f · ≠ key) := by
  unfold Slots.remove
  cases hi : get? s.indexes key with
  | none =>
    refine (filter_eq_self.mpr fun y hy => ?_).symm
    have hmem : f y ≠ key := by
      rintro rfl
      simpa [hi] using h.mem_keys.mp (mem_map_of_mem hy)
    simpa using hmem
  | some i =>
    obtain ⟨l, x, r, hs, hset, hkey, hne⟩ := h.split hi
    show (s.slots.set i none).reduceOption = s.slots.reduceOption.filter _
    rw [hset, hs, reduceOption_append, reduceOption_append, reduceOption_cons_of_none,
      reduceOption_cons_of_some, filter_append,
      filter_cons_of_neg (by simp [hkey]), ← filter_append, filter_eq_self.mpr]
    simpa using hne

theorem Indexed.remove (key : κ) : Indexed f (s.remove key) := by
  intro key' j
  unfold Slots.remove
  cases hi : get? s.indexes key with
  | none => exact h key' j
  | some i =>
    obtain ⟨x, hx, hkey⟩ := (h _ i).mp hi
    rw [IndexMap.remove, get?_filter (p := (· ≠ key)), getElem?_set]
    have hold := h key' j
    by_cases hij : i = j
    · subst hij
      have hne : get? s.indexes key' = some i → key' = key := by simp [hold, hx, ← hkey, eq_comm]
      refine iff_of_false (fun hs => ?_) (by simp)
      split_ifs at hs with hk
      exact of_decide_eq_true hk (hne hs)
    · rw [if_neg hij, ← hold]
      split_ifs with hk
      · rfl
      · refine iff_of_false nofun fun hj => hij ?_
        rw [show key' = key by simpa using hk, hi] at hj
        exact Option.some.inj hj

theorem Indexed.removeAll (keys : List κ) :
    Indexed f (keys.foldl Slots.remove s) ∧
      (keys.foldl Slots.remove s).values = s.values.filter (f · ∉ keys) := by
  induction keys generalizing s with
  | nil => exact ⟨h, by simp⟩
  | cons key keys ih =>
    obtain ⟨hix, hval⟩ := ih (h.remove key)
    refine ⟨hix, ?_⟩
    rw [foldl_cons, hval, h.values_remove, filter_filter]
    exact filter_congr fun a _ => by simp [Bool.and_comm]

end Slots

end SushiGpt
