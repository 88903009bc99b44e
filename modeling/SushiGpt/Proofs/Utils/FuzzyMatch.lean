/-
What a fuzzy match finds.

The loops find the lowered needle exactly when it is a subsequence of the lowered haystack
(`search_isSome`), and the positions they go through are those of the originals in order.  A
needle that is a subsequence of the haystack is still one when both are lowered character by
character.  But the needle is lowered as a text, where a sigma at the end of a word becomes
another letter than it does in the haystack.
-/
import Mathlib.Data.List.Flatten
import SushiGpt.Utils.FuzzyMatch

namespace SushiGpt.FuzzyMatch

open List

variable {tables : CaseTables} {haystack needle : Text} {lowered : List (Char × Nat)} {cur : Nat}

/-! ### The search -/

theorem search_isSome (lowered : List (Char × Nat)) (cur : Nat) (needle : Text) :
    (search lowered cur needle).isSome ↔ needle <+ lowered.map Prod.fst := by
  fun_induction search with
  | case1 => simp
  | case2 => simp
  | case3 origIdx lowered cur nc needle ih => simpa using ih
  | case4 lc origIdx lowered cur nc needle hne ih =>
    rw [ih, map_cons, cons_sublist_cons']
    simp [Ne.symm hne]

/-- The characters found are a subsequence of the table. -/
theorem exists_sublist_of_search {found : List (Nat × Nat)}
    (h : search lowered cur needle = some found) :
    ∃ hits, hits <+ lowered ∧ hits.map Prod.fst = needle ∧
      hits.map Prod.snd = found.map Prod.snd := by
  fun_induction search generalizing found with
  | case1 =>
    cases h
    exact ⟨[], nil_sublist _, rfl, rfl⟩
  | case2 => cases h
  | case3 origIdx lowered cur nc needle ih =>
    obtain ⟨found, hfound, rfl⟩ := Option.map_eq_some_iff.mp h
    obtain ⟨hits, hsub, hchars, hidx⟩ := ih hfound
    exact ⟨(nc, origIdx) :: hits, hsub.cons_cons _, by simp [hchars], by simp [hidx]⟩
  | case4 lc origIdx lowered cur nc needle hne ih =>
    obtain ⟨hits, hsub, hhits⟩ := ih h
    exact ⟨hits, hsub.cons _, hhits⟩

/-! ### The table -/

theorem map_fst_loweredChars :
    (loweredChars tables haystack).map Prod.fst = haystack.flatMap tables.toLower := by
  conv_rhs => rw [← zipIdx_map_fst 0 haystack, flatMap_map]
  simp [loweredChars, map_flatMap, Function.comp_def]

theorem zipIdx_increasing : haystack.zipIdx.Pairwise fun e o => e.2 < o.2 := by
  rw [← pairwise_map, zipIdx_map_snd]
  exact pairwise_lt_range'

theorem loweredChars_sorted : (loweredChars tables haystack).Pairwise fun e o => e.2 ≤ o.2 := by
  rw [loweredChars, pairwise_flatMap]
  refine ⟨fun e _ => pairwise_map.mpr (pairwise_of_forall fun _ _ => le_rfl), ?_⟩
  refine zipIdx_increasing.imp fun hlt x hx y hy => ?_
  obtain ⟨-, -, rfl⟩ := mem_map.mp hx
  obtain ⟨-, -, rfl⟩ := mem_map.mp hy
  exact hlt.le

theorem lt_length_of_mem_loweredChars {e : Char × Nat} (h : e ∈ loweredChars tables haystack) :
    e.2 < haystack.length := by
  obtain ⟨o, ho, he⟩ := mem_flatMap.mp h
  obtain ⟨-, -, rfl⟩ := mem_map.mp he
  exact snd_lt_of_mem_zipIdx ho

variable {indices : List Nat}

/-- The part of the table at some positions is what their characters become. -/
theorem map_fst_filter_loweredChars (hinc : indices.Pairwise (· < ·))
    (hlt : ∀ i ∈ indices, i < haystack.length) :
    ((loweredChars tables haystack).filter (·.2 ∈ indices)).map Prod.fst =
      (indices.filterMap (haystack[·]?)).flatMap tables.toLower := by
  have hpos : (haystack.zipIdx.filter (·.2 ∈ indices)).map Prod.snd = indices := by
    refine Pairwise.eq_of_mem_iff (r := (· < ·)) ?_ hinc fun i => ?_
    · exact pairwise_map.mpr (zipIdx_increasing.filter _)
    · constructor
      · intro hi
        obtain ⟨e, he, rfl⟩ := mem_map.mp hi
        exact of_decide_eq_true (mem_filter.mp he).2
      · intro hi
        refine mem_map.mpr ⟨(haystack.get ⟨i, hlt i hi⟩, i), mem_filter.mpr ⟨?_, by simpa⟩, rfl⟩
        simp [mem_zipIdx_iff_getElem?]
  have hchars : indices.filterMap (haystack[·]?) =
      (haystack.zipIdx.filter (·.2 ∈ indices)).map Prod.fst := by
    conv_lhs => rw [← hpos, filterMap_map]
    rw [← filterMap_eq_map]
    refine filterMap_congr fun e he => ?_
    exact mem_zipIdx_iff_getElem?.mp (mem_of_mem_filter he)
  rw [hchars, loweredChars]
  induction haystack.zipIdx with
  | nil => rfl
  | cons e l ih => by_cases he : e.2 ∈ indices <;> simp_all [filter_map, Function.comp_def]

/-! ### The indices -/

theorem covers_of_fuzzyMatch {score : Int32}
    (h : fuzzyMatch tables haystack needle = some (indices, score)) :
    indices.Pairwise (· < ·) ∧ (∀ i ∈ indices, i < haystack.length) ∧
      toLowercase tables needle <+ (indices.filterMap (haystack[·]?)).flatMap tables.toLower := by
  unfold fuzzyMatch at h
  split_ifs at h with hempty
  · cases h
    subst hempty
    exact ⟨.nil, nofun, nil_sublist _⟩
  simp only [Option.bind_eq_bind, Option.bind_eq_some_iff] at h
  obtain ⟨found, hfound, first, -, last, -, h⟩ := h
  obtain ⟨hits, hsub, hchars, hidx⟩ := exists_sublist_of_search hfound
  have hsorted : (hits.map Prod.snd).Pairwise (· ≤ ·) :=
    pairwise_map.mpr (loweredChars_sorted.sublist hsub)
  rw [← hidx, hsorted.insertionSort_eq, hsorted.destutter_eq_dedup] at h
  obtain rfl := congrArg Prod.fst (Option.some.inj h)
  have hinc : (hits.map Prod.snd).dedup.Pairwise (· < ·) :=
    ((hsorted.sublist (dedup_sublist _)).and (nodup_dedup _)).imp fun h => lt_of_le_of_ne h.1 h.2
  have hlt : ∀ i ∈ (hits.map Prod.snd).dedup, i < haystack.length := by
    intro i hi
    obtain ⟨e, he, rfl⟩ := mem_map.mp (mem_dedup.mp hi)
    exact lt_length_of_mem_loweredChars (hsub.subset he)
  refine ⟨hinc, hlt, ?_⟩
  rw [← map_fst_filter_loweredChars hinc hlt, ← hchars]
  refine Sublist.map _ ?_
  have hall : hits.filter (·.2 ∈ (hits.map Prod.snd).dedup) = hits :=
    filter_eq_self.mpr fun e he => decide_eq_true (mem_dedup.mpr (mem_map_of_mem he))
  have hfilter := hsub.filter (·.2 ∈ (hits.map Prod.snd).dedup)
  rwa [hall] at hfilter

/-! ### Lowering the needle -/

/-- A sigma of the text ends a word, behind what is given backwards. -/
def HasFinalSigma (tables : CaseTables) (before : Text) : Text → Prop
  | [] => False
  | c :: rest =>
    (c = 'Σ' ∧ isWordFinal tables before rest) ∨ HasFinalSigma tables (c :: before) rest

theorem length_toLowercaseFrom (before text : Text) :
    (toLowercaseFrom tables before text).length = (text.flatMap tables.toLower).length := by
  induction text generalizing before with
  | nil => rfl
  | cons c rest ih =>
    rw [toLowercaseFrom, flatMap_cons, length_append, length_append, ih]
    by_cases hc : c = 'Σ'
    · rw [if_pos hc, hc, tables.toLower_sigma]
      rfl
    · rw [if_neg hc]

theorem toLowercaseFrom_eq_iff (before text : Text) :
    toLowercaseFrom tables before text = text.flatMap tables.toLower ↔
      ¬ HasFinalSigma tables before text := by
  induction text generalizing before with
  | nil => simp [toLowercaseFrom, HasFinalSigma]
  | cons c rest ih =>
    rw [HasFinalSigma, not_or, ← ih, toLowercaseFrom, flatMap_cons]
    by_cases hc : c = 'Σ'
    · subst hc
      cases isWordFinal tables before rest <;> simp [tables.toLower_sigma]
    · simp [hc]

theorem fuzzyMatch_isSome : (fuzzyMatch tables haystack needle).isSome ↔
    toLowercase tables needle <+ haystack.flatMap tables.toLower := by
  rw [← map_fst_loweredChars, ← search_isSome _ 0]
  cases needle with
  | nil => exact iff_of_true rfl (by rw [toLowercase, toLowercaseFrom, search]; rfl)
  | cons c rest =>
    have hne : toLowercase tables (c :: rest) ≠ [] := by
      rw [← length_pos_iff, toLowercase, length_toLowercaseFrom, flatMap_cons, length_append]
      exact Nat.add_pos_left (length_pos_iff.mpr (tables.toLower_ne_nil c)) _
    rw [fuzzyMatch, if_neg (cons_ne_nil c rest)]
    dsimp only
    cases hfound : search (loweredChars tables haystack) 0 (toLowercase tables (c :: rest)) with
    | none => rfl
    | some found =>
      obtain ⟨hits, -, hchars, hidx⟩ := exists_sublist_of_search hfound
      cases found with
      | nil => exact absurd (by rw [← hchars, map_eq_nil_iff.mp hidx]; rfl) hne
      | cons first more => exact iff_of_true rfl rfl

/-- **The indices cover the lowered needle in order, and a needle whose characters occur in order
is always found exactly when none of its sigmas ends a word.** -/
theorem fuzzyMatch_exact (tables : CaseTables) :
    (∀ haystack needle indices score, fuzzyMatch tables haystack needle = some (indices, score) →
      indices.Pairwise (· < ·) ∧ (∀ i ∈ indices, i < haystack.length) ∧
        toLowercase tables needle <+ (indices.filterMap (haystack[·]?)).flatMap tables.toLower) ∧
      ∀ needle, (∀ haystack, needle <+ haystack → (fuzzyMatch tables haystack needle).isSome) ↔
        ¬ HasFinalSigma tables [] needle := by
  refine ⟨fun haystack needle indices score => covers_of_fuzzyMatch, fun needle => ?_⟩
  rw [← toLowercaseFrom_eq_iff]
  constructor
  · intro h
    refine (fuzzyMatch_isSome.mp (h needle (Sublist.refl _))).eq_of_length ?_
    exact length_toLowercaseFrom [] needle
  · intro h haystack hsub
    rw [fuzzyMatch_isSome, toLowercase, h]
    exact hsub.flatMap _

/-- Tables that are right for Latin letters and sigma. -/
def latin : CaseTables where
  toLower c := [if c = 'Σ' then 'σ' else c.toLower]
  caseIgnorable _ := false
  cased := Char.isAlpha
  toLower_ne_nil _ := nofun
  toLower_sigma := rfl

/-- A text that does not match itself. -/
theorem fuzzyMatch_self_none : "aΣ".toList <+ "aΣ".toList ∧
    fuzzyMatch latin "aΣ".toList "aΣ".toList = none :=
  ⟨Sublist.refl _, by decide⟩

end SushiGpt.FuzzyMatch
