/-
Small facts about lists that the library does not have in this form.

Two of them are about order.  A search that stops at its first hit gives the same verdict
in every order of the list exactly when all hits agree (`verdict_perm_iff`); and a sorted list
without duplicates depends on its members only.
-/
import Mathlib.Data.List.Sort

namespace SushiGpt.Lists

open List Option

variable {α β : Type*} {R : α → β → Prop} {a : α} {l l' : List α}

/-- Every entry on the left of a pairing has its partner on the right. -/
theorem exists_right_of_forall₂ : ∀ {l₁ : List α} {l₂ : List β}, List.Forall₂ R l₁ l₂ →
    ∀ a ∈ l₁, ∃ b ∈ l₂, R a b := by
  intro l₁ l₂ h
  induction h with
  | nil => intro a ha; cases ha
  | @cons x y xs ys hxy _ ih =>
    intro a ha
    rcases mem_cons.1 ha with rfl | hmem
    · exact ⟨y, mem_cons_self .., hxy⟩
    · obtain ⟨b, hb, hab⟩ := ih a hmem
      exact ⟨b, mem_cons_of_mem _ hb, hab⟩

theorem exists_left_of_forall₂ {l₁ : List α} {l₂ : List β} (h : List.Forall₂ R l₁ l₂) :
    ∀ b ∈ l₂, ∃ a ∈ l₁, R a b :=
  exists_right_of_forall₂ h.flip

/-! ### The first hit -/

section FirstHit

variable {f : α → Option β} {P : β → Prop}

theorem findSome?_flatMap {γ : Type*} (g : γ → List α) (f : α → Option β) (l : List γ) :
    (l.flatMap g).findSome? f = l.findSome? fun c => (g c).findSome? f := by
  induction l with
  | nil => rfl
  | cons c r ih =>
    rw [flatMap_cons, findSome?_append, findSome?_cons, ih]
    cases (g c).findSome? f <;> rfl

theorem findSome?_congr {g : α → Option β} (h : ∀ a ∈ l, f a = g a) :
    l.findSome? f = l.findSome? g := by
  induction l with
  | nil => rfl
  | cons a r ih =>
    rw [findSome?_cons, findSome?_cons, h a (mem_cons_self ..),
      ih fun b hb => h b (mem_cons_of_mem _ hb)]

/-- A hit in one order is one in every other, where some hit comes first. -/
theorem exists_hits (hperm : l'.Perm l) {x : β} (h : l'.findSome? f = some x) :
    ∃ a ∈ l, f a = some x ∧ ∃ b ∈ l, ∃ y, f b = some y ∧ l.findSome? f = some y := by
  obtain ⟨a, ha, hax⟩ := exists_of_findSome?_eq_some h
  rw [hperm.mem_iff] at ha
  cases hl : l.findSome? f with
  | none =>
    rw [findSome?_eq_none_iff] at hl
    rw [hl a ha] at hax
    cases hax
  | some y =>
    obtain ⟨b, hb, hby⟩ := exists_of_findSome?_eq_some hl
    exact ⟨a, ha, hax, b, hb, y, hby, rfl⟩

theorem findSome?_perm_of_agree (hperm : l'.Perm l)
    (hagr : ∀ a ∈ l, ∀ b ∈ l, ∀ x y, f a = some x → f b = some y → x = y) :
    l'.findSome? f = l.findSome? f := by
  cases h : l'.findSome? f with
  | none =>
    rw [findSome?_eq_none_iff] at h
    exact (findSome?_eq_none_iff.mpr fun a ha => h a (hperm.mem_iff.2 ha)).symm
  | some x =>
    obtain ⟨a, ha, hax, b, hb, y, hby, hl⟩ := exists_hits hperm h
    rw [hl, hagr a ha b hb x y hax hby]

/-- What the first hit says. -/
def Verdict (f : α → Option β) (P : β → Prop) (l : List α) : Prop :=
  ∃ x, l.findSome? f = some x ∧ P x

theorem verdict_cons {x : β} (h : f a = some x) : Verdict f P (a :: l) ↔ P x := by
  unfold Verdict
  rw [findSome?_cons, h]
  constructor
  · rintro ⟨y, hy, hP⟩
    rwa [some.inj hy]
  · intro hP
    exact ⟨x, rfl, hP⟩

/-- **The verdict is the same in every order exactly when all hits agree on it.** -/
theorem verdict_perm_iff [DecidableEq α] :
    (∀ l', l'.Perm l → (Verdict f P l' ↔ Verdict f P l)) ↔
      ∀ a ∈ l, ∀ b ∈ l, ∀ x y, f a = some x → f b = some y → (P x ↔ P y) := by
  constructor
  · intro h a ha b hb x y hax hby
    rw [← verdict_cons (P := P) (l := l.erase a) hax, ← verdict_cons (P := P) (l := l.erase b) hby,
      h _ (perm_cons_erase ha).symm, h _ (perm_cons_erase hb).symm]
  · intro hagr l' hperm
    constructor
    · rintro ⟨x, hx, hP⟩
      obtain ⟨a, ha, hax, b, hb, y, hby, hl⟩ := exists_hits hperm hx
      exact ⟨y, hl, (hagr a ha b hb x y hax hby).1 hP⟩
    · rintro ⟨y, hy, hP⟩
      obtain ⟨b, hb, hby, a, ha, x, hax, hl⟩ := exists_hits hperm.symm hy
      rw [hperm.mem_iff] at ha hb
      exact ⟨x, hl, (hagr a ha b hb x y hax hby).2 hP⟩

end FirstHit

/-! ### Lists up to order -/

theorem nodup_eraseDups [BEq α] [LawfulBEq α] (l : List α) : l.eraseDups.Nodup := by
  induction hn : l.length using Nat.strong_induction_on generalizing l with
  | _ n ih =>
    cases l with
    | nil => exact nodup_nil
    | cons a r =>
      rw [eraseDups_cons, nodup_cons]
      constructor
      · simp
      · have hle := length_filter_le (fun b => !b == a) r
        have hlen : r.length + 1 = n := hn
        exact ih _ (by omega) _ rfl

theorem eraseDups_perm_of_mem_iff [BEq α] [LawfulBEq α]
    (h : ∀ a, a ∈ l ↔ a ∈ l') : l.eraseDups.Perm l'.eraseDups := by
  rw [perm_ext_iff_of_nodup (nodup_eraseDups l) (nodup_eraseDups l')]
  intro a
  rw [mem_eraseDups, mem_eraseDups, h]

/-- Sorting forgets the order when members of equal rank are equal. -/
theorem insertionSort_congr {r : α → α → Prop} [DecidableRel r] [Std.Total r] [IsTrans α r]
    (hperm : l.Perm l') (hanti : ∀ a ∈ l, ∀ b ∈ l, r a b → r b a → a = b) :
    l.insertionSort r = l'.insertionSort r := by
  refine @List.Perm.eq_of_pairwise α r _ _ ?_ (pairwise_insertionSort r l)
    (pairwise_insertionSort r l')
    ((perm_insertionSort r l).trans (hperm.trans (perm_insertionSort r l').symm))
  intro a b ha hb
  rw [mem_insertionSort] at ha hb
  exact hanti a ha b (hperm.mem_iff.2 hb)

/-- A traversal succeeds with the list of the successes. -/
theorem mapM_eq_some_iff {f : α → Option β} {r : List β} :
    l.mapM f = some r ↔ l.map f = r.map some := by
  induction l generalizing r with
  | nil => cases r <;> simp
  | cons x rest ih => cases r <;> simp [bind_eq_some_iff, ih]

theorem map_map_eq_some_iff {γ : Type*} {f : α → Option β} {g : β → γ} {r : List γ} :
    l.map (fun a => (f a).map g) = r.map some ↔
      ∃ s : List β, l.map f = s.map some ∧ s.map g = r := by
  constructor
  · intro h
    induction l generalizing r with
    | nil => exact ⟨[], rfl, (map_eq_nil_iff.mp h.symm).symm⟩
    | cons x rest ih =>
      obtain ⟨c, r, rfl, hc, hr⟩ := map_eq_cons_iff.mp h.symm
      obtain ⟨b, hb, rfl⟩ := map_eq_some_iff.mp hc.symm
      obtain ⟨s, hs, rfl⟩ := ih hr.symm
      exact ⟨b :: s, by rw [map_cons, map_cons, hb, hs], rfl⟩
  · rintro ⟨s, hs, rfl⟩
    have := congrArg (List.map (Option.map g)) hs
    rw [List.map_map, List.map_map] at this
    rwa [List.map_map]

theorem filterMap_ite_sublist_map {α β : Type*} (p : α → Prop) [DecidablePred p] (f : α → β)
    (l : List α) : (l.filterMap fun a => if p a then some (f a) else none).Sublist (l.map f) := by
  have hfil : (l.filterMap fun a => if p a then some (f a) else none) = (l.filter p).map f := by
    simp [← filterMap_eq_map, filterMap_filter]
  rw [hfil]
  exact filter_sublist.map f

/-- The entry at an index with what is before and after it, and what replacing it leaves. -/
theorem exists_split_of_getElem? {i : Nat} (h : l[i]? = some a) :
    ∃ bef aft, l = bef ++ a :: aft ∧ ∀ b, l.set i b = bef ++ b :: aft := by
  obtain ⟨hlt, rfl⟩ := List.getElem?_eq_some_iff.mp h
  refine ⟨l.take i, l.drop (i + 1), ?_, fun b => set_eq_take_cons_drop b hlt⟩
  rw [← drop_eq_getElem_cons hlt, take_append_drop]

/-- What does not hold among the first entries holds among the others. -/
theorem any_eq_any_drop {p : α → Bool} {n : Nat}
    (h : (l.take n).any p = false) : l.any p = (l.drop n).any p := by
  conv_lhs => rw [← take_append_drop n l]
  rw [any_append, h, Bool.false_or]

theorem mem_takeWhile_append {p : α → Bool} {m : List α}
    (h : a ∈ l.takeWhile p) : a ∈ (l ++ m).takeWhile p := by
  rw [takeWhile_append]
  split_ifs
  · exact mem_append_left _ ((List.takeWhile_prefix p).subset h)
  · exact h

section ModifyFirst

variable {p : α → Bool} {f : α → α}

/-- Changes the first member with the property. -/
def modifyFirst (p : α → Bool) (f : α → α) : List α → List α
  | [] => []
  | a :: rest => if p a then f a :: rest else a :: modifyFirst p f rest

theorem exists_split_modifyFirst (h : l.find? p = some a) :
    ∃ b aft, l = b ++ a :: aft ∧ (∀ x ∈ b, p x = false) ∧ modifyFirst p f l = b ++ f a :: aft := by
  obtain ⟨ha, b, aft, rfl, hbefore⟩ := find?_eq_some_iff_append.mp h
  simp only [Bool.not_eq_true'] at hbefore
  refine ⟨b, aft, rfl, hbefore, ?_⟩
  clear h
  induction b with
  | nil => exact if_pos ha
  | cons x r ih =>
    rw [forall_mem_cons] at hbefore
    rw [cons_append, modifyFirst, hbefore.1, ih hbefore.2]
    rfl

end ModifyFirst

/-- What stands between two separators contains none. -/
theorem not_mem_of_mem_splitOn [BEq α] [LawfulBEq α] {piece : List α}
    (h : piece ∈ l.splitOn a) : a ∉ piece := by
  induction hn : l.length using Nat.strong_induction_on generalizing l with
  | _ n ih =>
    by_cases ha : a ∈ l
    · obtain ⟨xs, ys, rfl, hxs⟩ := eq_append_cons_of_mem ha
      rw [splitOn_append_cons_self_of_not_mem hxs, mem_cons] at h
      rcases h with rfl | h
      · exact hxs
      · exact ih ys.length (by simp at hn; omega) h rfl
    · rw [splitOn_eq_singleton ha, mem_singleton] at h
      rwa [h]

theorem lookup_of_mem {κ : Type*} [BEq κ] [LawfulBEq κ] {l : List (κ × β)} {k : κ} {b : β}
    (hnd : (l.map Prod.fst).Nodup) (h : (k, b) ∈ l) : l.lookup k = some b := by
  obtain ⟨bef, aft, rfl⟩ := append_of_mem h
  rw [map_append, nodup_append] at hnd
  refine lookup_eq_some_iff.mpr ⟨bef, aft, rfl, fun e he => ?_⟩
  have hne := hnd.2.2 e.1 (mem_map_of_mem he) k (by simp)
  simpa using hne.symm

end SushiGpt.Lists
