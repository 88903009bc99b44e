/-
Pages are cuts of a listing.

The rows of the segments, one segment after the other in the order of a direction, are a listing.
A page is what a cut of this list says: the rows from the cursor on, as many as fit.  The cut of
a segment by a cursor is a cut of the whole list because the segments' ordinals are in order:
what is skipped of the other segments lies on the one side of the cursor, what is listed on the
other.
-/
import SushiGpt.ThreadStore.SegmentPaging
import SushiGpt.Lib.Fallible
import SushiGpt.Lib.Paging

namespace SushiGpt.ThreadStore

open SortDirection RolloutLineageSegment

open List hiding getElem?_eq_some_iff

variable {g : RolloutLineageSegment} {ci : Option Nat}

/-! ### Directions -/

namespace SortDirection

def opposite : SortDirection → SortDirection
  | asc => desc
  | desc => asc

/-- The strict order of a direction. -/
def before : SortDirection → Int → Int → Prop
  | asc, a, b => a < b
  | desc, a, b => b < a

instance : ∀ d : SortDirection, DecidableRel d.before
  | asc => fun a b => inferInstanceAs (Decidable (a < b))
  | desc => fun a b => inferInstanceAs (Decidable (b < a))

/-- Rows in ascending order, put into the order of a direction. -/
def order {ρ : Type} : SortDirection → List ρ → List ρ
  | asc, rows => rows
  | desc, rows => rows.reverse

variable {d : SortDirection} {a b : Int}

theorem before_asymm (h : d.before a b) : ¬ d.before b a := by
  cases d <;> simp only [before] at h ⊢ <;> omega

theorem before_of_le_of_ne (hle : d.le a b) (hne : a ≠ b) : d.before a b := by
  cases d <;> simp only [le, decide_eq_true_eq] at hle <;> simp only [before] <;> omega

theorem before_of_not (h : ¬ d.before a b) (hne : a ≠ b) : d.before b a := by
  cases d <;> simp only [before] at h ⊢ <;> omega

theorem opposite_order {ρ : Type} (d : SortDirection) (rows : List ρ) :
    d.opposite.order rows = (d.order rows).reverse := by
  cases d
  · rfl
  · exact rows.reverse_reverse.symm

instance {ρ : Type} (ordinal : ρ → Int) :
    Std.Total fun a b : ρ => d.le (ordinal a) (ordinal b) = true where
  total a b := by
    cases d <;> simp only [le, decide_eq_true_eq] <;> omega

instance {ρ : Type} (ordinal : ρ → Int) :
    IsTrans ρ fun a b : ρ => d.le (ordinal a) (ordinal b) = true where
  trans a b c hab hbc := by
    cases d <;> simp only [le, decide_eq_true_eq] at hab hbc ⊢ <;> omega

end SortDirection

/-- What comes after the cursor in the direction is from the cursor on. -/
theorem cursorComparator_of_before {d : SortDirection} {ordinal anchor : Int} (ia : Bool)
    (h : d.before anchor ordinal) : cursorComparator d ia ordinal anchor = true := by
  cases d <;> cases ia <;>
    simp only [cursorComparator, before, decide_eq_true_eq] at h ⊢ <;> omega

theorem cursorComparator_of_after {d : SortDirection} {ordinal anchor : Int} (ia : Bool)
    (h : d.before ordinal anchor) : cursorComparator d ia ordinal anchor = false := by
  cases d <;> cases ia <;>
    simp only [cursorComparator, before, decide_eq_false_iff_not] at h ⊢ <;> omega

theorem cursorComparator_self (d : SortDirection) (ia : Bool) (anchor : Int) :
    cursorComparator d ia anchor anchor = ia := by
  cases d <;> cases ia <;> simp [cursorComparator]

/-! ### Segments -/

namespace RolloutLineageSegment

def holds (segment : RolloutLineageSegment) (ordinal : Int) : Bool :=
  segment.startOrdinal ≤ ordinal && segment.endOrdinal.all fun stop : Nat => ordinal < stop

/-- SQLite can compare with the ends of the segment. -/
def Fits (segment : RolloutLineageSegment) : Prop :=
  segment.startOrdinal < 2 ^ 63 ∧ ∀ stop, segment.endOrdinal = some stop → stop < 2 ^ 63

theorem nonneg_of_holds {ordinal : Int} (h : g.holds ordinal) : 0 ≤ ordinal := by
  simp only [holds, Bool.and_eq_true, decide_eq_true_eq] at h
  omega

end RolloutLineageSegment

namespace RolloutLineage

/-- The ranges of the segments are disjoint and in order. -/
def Increasing (lineage : RolloutLineage) : Prop :=
  lineage.segments.Pairwise fun older newer =>
    ∀ a b, older.holds a → newer.holds b → a < b

end RolloutLineage

theorem pagingInteger_eq {value : Nat} (h : value < 2 ^ 63) : pagingInteger value = .ok value :=
  if_pos h

theorem pushSegmentRange_eq (h : g.Fits) : pushSegmentRange g = .ok g.holds := by
  unfold pushSegmentRange
  rw [pagingInteger_eq h.1]
  cases hend : g.endOrdinal with
  | none =>
    refine congrArg Except.ok (funext fun ordinal => ?_)
    simp [holds, hend]
  | some st =>
    refine Eq.trans (b := (pagingInteger st >>= fun st => Except.ok fun ordinal =>
      decide ((g.startOrdinal : Int) ≤ ordinal) && decide (ordinal < st))) rfl ?_
    rw [pagingInteger_eq (h.2 st hend)]
    refine congrArg Except.ok (funext fun ordinal => ?_)
    simp [holds, hend]

/-- Whether an ordinal is from the cursor on. -/
def fromCursor (d : SortDirection) (cursor : Option HistoryCursor) (ordinal : Int) : Bool :=
  cursor.all fun cursor =>
    cursorComparator d cursor.includeAnchor ordinal cursor.rolloutOrdinal

theorem pushCursorClause_eq {d : SortDirection} {cur : Option HistoryCursor}
    (h : ∀ c, cur = some c → c.rolloutOrdinal < 2 ^ 63) :
    pushCursorClause d cur = .ok (fromCursor d cur) := by
  cases cur with
  | none => rfl
  | some c =>
    rw [pushCursorClause, pagingInteger_eq (h c rfl)]
    rfl

/-! ### The loop -/

variable {ρ : Type} {pos : ρ → Int} {rows : List ρ} {row : ρ}
  {f : SegmentFromCursor → Nat → Except ThreadStoreError (List ρ)} {d : SortDirection}
  {l : RolloutLineage} {cur : Option HistoryCursor}

section Loop

variable {ps : Nat}

theorem remainingLimit_eq {rc : Nat} (hsize : ps + 1 < 2 ^ 63) (hc : rc ≤ ps + 1) :
    remainingLimit ps rc = .ok (ps + 1 - rc) := by
  rw [remainingLimit, if_neg (by omega), if_neg (by omega), rowLimit, if_pos (by omega)]

theorem fits_of_remainingLimit {lim : Nat} (h : remainingLimit ps 0 = .ok lim) :
    ps + 1 < 2 ^ 63 := by
  unfold remainingLimit rowLimit at h
  split_ifs at h
  assumption

/-- The loop takes the rows of the segments, one after the other, up to one more than the page
holds. -/
theorem collectRows_eq {all : SegmentFromCursor → List ρ} (hsize : ps + 1 < 2 ^ 63) :
    ∀ {gs : List SegmentFromCursor} {rows : List ρ}, rows.length ≤ ps + 1 →
      (∀ src ∈ gs, ∀ lim, f src lim = .ok ((all src).take lim)) →
      collectRows ps f gs rows = .ok ((rows ++ gs.flatMap all).take (ps + 1))
  | [], rows, hrows, _ => by
    rw [flatMap_nil, append_nil, take_of_length_le hrows]
    rfl
  | src :: gs, rows, hrows, hfet => by
    have hst : collectRows ps f (src :: gs) rows =
        if ps + 1 - rows.length = 0 then .ok rows
        else collectRows ps f gs (rows ++ (all src).take (ps + 1 - rows.length)) := by
      rw [collectRows, remainingLimit_eq hsize hrows]
      refine if_congr Iff.rfl rfl ?_
      rw [hfet src mem_cons_self]
      rfl
    rw [hst]
    split
    · rename_i hfull
      rw [take_append, take_of_length_le hrows, hfull, take_zero, append_nil]
    · have hlen : (rows ++ (all src).take (ps + 1 - rows.length)).length ≤ ps + 1 := by
        rw [length_append, length_take]
        omega
      rw [collectRows_eq hsize hlen fun s hs => hfet s (mem_cons_of_mem _ hs)]
      -- Taking from the longer list first changes nothing.
      rw [flatMap_cons, append_assoc, take_append, take_append,
        take_append, take_append, take_take, Nat.min_self]
      simp only [length_take]
      by_cases hfit : ps + 1 - rows.length ≤ (all src).length
      · rw [Nat.min_eq_left hfit, Nat.sub_self, take_zero, Nat.sub_eq_zero_of_le hfit, take_zero]
      · rw [Nat.min_eq_right (Nat.le_of_not_le hfit)]

theorem mem_collectRows {listed : ρ → Prop} :
    ∀ {gs : List SegmentFromCursor} {rows result : List ρ},
      collectRows ps f gs rows = .ok result → (∀ row ∈ rows, listed row) →
      (∀ src ∈ gs, ∀ lim m, f src lim = .ok m → ∀ row ∈ m, listed row) →
      ∀ row ∈ result, listed row
  | [], rows, result, h, hrows, _ => by
    cases h
    exact hrows
  | src :: gs, rows, result, h, hrows, hfet => by
    rw [collectRows, bind_eq_ok] at h
    obtain ⟨rem, -, h⟩ := h
    split at h
    · cases h
      exact hrows
    · rw [bind_eq_ok] at h
      obtain ⟨m, hmore, h⟩ := h
      have hmem := forall_mem_append.mpr ⟨hrows, hfet src mem_cons_self rem m hmore⟩
      exact mem_collectRows h hmem fun s hs => hfet s (mem_cons_of_mem _ hs)

end Loop

/-! ### Order -/

/-- Rows in strict order are determined by which they are. -/
theorem eq_of_strict_order {rows' : List ρ}
    (h : rows.Pairwise fun a b => d.before (pos a) (pos b))
    (h' : rows'.Pairwise fun a b => d.before (pos a) (pos b))
    (hmem : ∀ row, row ∈ rows ↔ row ∈ rows') : rows = rows' := by
  have hnd : ∀ {l : List ρ}, (l.Pairwise fun a b => d.before (pos a) (pos b)) → l.Nodup :=
    fun hl => hl.imp fun hab heq => by
      subst heq
      exact before_asymm hab hab
  refine List.Perm.eq_of_pairwise (fun a b _ _ hab hba => ?_) h h'
    ((perm_ext_iff_of_nodup (hnd h) (hnd h')).mpr hmem)
  exact absurd hba (before_asymm hab)

theorem pairwise_order (h : rows.Pairwise fun a b => pos a < pos b) :
    (d.order rows).Pairwise fun a b => d.before (pos a) (pos b) := by
  cases d
  · exact h
  · exact pairwise_reverse.mpr h

theorem mem_order : row ∈ d.order rows ↔ row ∈ rows := by
  cases d
  · rfl
  · exact mem_reverse

theorem mem_indexesFrom {c idx : Nat} (hc : 0 < c) (hcur : ∀ i ∈ ci, i < c) :
    idx ∈ d.indexesFrom c ci ↔ idx < c ∧ ∀ i ∈ ci, ¬ d.before (idx : Int) (i : Int) := by
  cases ci with
  | none =>
    cases d with
    | asc => simp [indexesFrom]
    | desc => simp [indexesFrom, Nat.sub_add_cancel hc]
  | some i =>
    have hi := hcur i rfl
    cases d with
    | asc =>
      simp [indexesFrom, before, range_eq_range']
      omega
    | desc =>
      simp [indexesFrom, before]
      omega

theorem pairwise_indexesFrom (d : SortDirection) (c : Nat) (ci : Option Nat) :
    (d.indexesFrom c ci).Pairwise fun i j : Nat => d.before i j := by
  have hran : ∀ c, (range c).Pairwise fun i j : Nat => (i : Int) < j :=
    fun c => pairwise_lt_range.imp fun h => Int.ofNat_lt.mpr h
  cases d
  · exact (hran c).sublist (drop_sublist _ _)
  · exact pairwise_reverse.mpr (hran _)

/-! ### The segments of a page -/

/-- The segment with an index, and the cursor if it is there. -/
def RolloutLineage.source (lineage : RolloutLineage) (cursorIndex : Option Nat)
    (cursor : Option HistoryCursor) (index : Nat) : SegmentFromCursor :=
  ⟨index, lineage.segments.getD index default, if some index = cursorIndex then cursor else none⟩

theorem getElem?_eq_getD {i : Nat} (h : i < l.segments.length) :
    l.segments[i]? = some (l.segments.getD i default) := by
  rw [getD_eq_getElem?_getD, getElem?_eq_getElem h, Option.getD_some]

/-- The segment of a cursor is one of the lineage and holds its ordinal. -/
theorem cursorSegment_some {c : HistoryCursor} (h : cursorSegment l (some c) = .ok ci) :
    ∃ i g, ci = some i ∧ l.segments[i]? = some g ∧ g.holds c.rolloutOrdinal := by
  unfold cursorSegment at h
  dsimp only at h
  split at h
  · cases h
  · rename_i i hidx
    cases h
    obtain ⟨hlt, hhol, -⟩ := findIdx?_eq_some_iff_getElem.mp hidx
    refine ⟨i, _, rfl, getElem?_eq_getElem hlt, ?_⟩
    simpa only [holds, Int.ofNat_le, Int.ofNat_lt] using hhol

theorem cursorSegment_lt (h : cursorSegment l cur = .ok ci) : ∀ i ∈ ci, i < l.segments.length := by
  cases cur with
  | none =>
    cases h
    exact nofun
  | some c =>
    obtain ⟨idx, g, rfl, hseg, -⟩ := cursorSegment_some h
    rintro i hi
    cases hi
    exact (getElem?_eq_some_iff.mp hseg).1

theorem segmentsFromCursor_eq (hne : l.segments ≠ []) (hcur : cursorSegment l cur = .ok ci) :
    segmentsFromCursor l d cur =
      .ok ((d.indexesFrom l.segments.length ci).map (l.source ci cur)) := by
  rw [segmentsFromCursor, hcur]
  refine mapM_eq_ok_map fun i hidx => ?_
  have hlt := (mem_indexesFrom (length_pos_iff.mpr hne) (cursorSegment_lt hcur)).mp hidx
  rw [getElem?_eq_getD hlt.1]
  rfl

namespace RolloutLineage

/-- What the segments hold is in the order of the segments. -/
theorem Increasing.before (hinc : l.Increasing) {i j : Nat} {g' : RolloutLineageSegment} {a b : Int}
    (hi : l.segments[i]? = some g) (hj : l.segments[j]? = some g')
    (hij : d.before (i : Int) (j : Int)) (ha : g.holds a) (hb : g'.holds b) : d.before a b := by
  obtain ⟨hi', rfl⟩ := getElem?_eq_some_iff.mp hi
  obtain ⟨hj', rfl⟩ := getElem?_eq_some_iff.mp hj
  have hord := pairwise_iff_getElem.mp hinc
  cases d with
  | asc => exact hord i j hi' hj' (Int.ofNat_lt.mp hij) a b ha hb
  | desc => exact hord j i hj' hi' (Int.ofNat_lt.mp hij) b a hb ha

end RolloutLineage

/-! ### Feeds -/

/-- The rows of every segment in the order of a direction, and the query that fetches them. -/
structure Feed (lineage : RolloutLineage) (pos : ρ → Int) (d : SortDirection)
    (group : Nat → List ρ)
    (fetch : SegmentFromCursor → Nat → Except ThreadStoreError (List ρ)) : Prop where
  fetched : ∀ source, lineage.segments[source.index]? = some source.segment →
    (∀ c, source.cursor = some c → c.rolloutOrdinal < 2 ^ 63) → ∀ limit,
    fetch source limit = .ok (((group source.index).filter fun row =>
      fromCursor d source.cursor (pos row)).take limit)
  fetched_mem : ∀ source, lineage.segments[source.index]? = some source.segment →
    ∀ limit rows, fetch source limit = .ok rows → ∀ row ∈ rows, row ∈ group source.index
  held : ∀ index segment, lineage.segments[index]? = some segment → ∀ row ∈ group index,
    segment.holds (pos row) ∧ pos row < 2 ^ 63
  sorted : ∀ index segment, lineage.segments[index]? = some segment →
    (group index).Pairwise fun a b => d.before (pos a) (pos b)

def listing (d : SortDirection) (lineage : RolloutLineage) (group : Nat → List ρ) : List ρ :=
  (d.order (range lineage.segments.length)).flatMap group

namespace Feed

variable {group : Nat → List ρ}

theorem mem_listing : row ∈ listing d l group ↔
    ∃ i g, l.segments[i]? = some g ∧ row ∈ group i := by
  rw [listing, mem_flatMap]
  constructor
  · rintro ⟨i, hidx, hrow⟩
    exact ⟨i, _, getElem?_eq_getD (mem_range.mp (mem_order.mp hidx)), hrow⟩
  · rintro ⟨i, g, hseg, hrow⟩
    obtain ⟨hlt, -⟩ := getElem?_eq_some_iff.mp hseg
    exact ⟨i, mem_order.mpr (mem_range.mpr hlt), hrow⟩

variable (feed : Feed l pos d group f) (hinc : l.Increasing)

include feed hinc

/-- Parts of the rows of segments, in the order of the segments. -/
theorem flatMap_sorted
    {ind : List Nat} {p : Nat → List ρ} (hsor : ind.Pairwise fun i j : Nat => d.before i j)
    (hlt : ∀ idx ∈ ind, idx < l.segments.length) (hpart : ∀ idx, (p idx).Sublist (group idx)) :
    (ind.flatMap p).Pairwise fun a b => d.before (pos a) (pos b) := by
  have hseg : ∀ idx ∈ ind, l.segments[idx]? = some (l.segments.getD idx default) := fun idx hidx =>
    getElem?_eq_getD (hlt idx hidx)
  refine pairwise_flatMap.mpr ⟨fun idx hidx =>
    (feed.sorted idx _ (hseg idx hidx)).sublist (hpart idx), ?_⟩
  refine hsor.imp_of_mem fun hi hj hij a ha b hb => ?_
  exact hinc.before (hseg _ hi) (hseg _ hj) hij
    (feed.held _ _ (hseg _ hi) a ((hpart _).subset ha)).1
    (feed.held _ _ (hseg _ hj) b ((hpart _).subset hb)).1

theorem listing_sorted : (listing d l group).Pairwise fun a b => d.before (pos a) (pos b) :=
  feed.flatMap_sorted hinc
    (pairwise_order (pairwise_lt_range.imp fun h => Int.ofNat_lt.mpr h))
    (fun _ hidx => mem_range.mp (mem_order.mp hidx)) fun _ => List.Sublist.refl _

/-- The segments from a cursor on, cut at the cursor, are the listing cut at the cursor. -/
theorem cut (hne : l.segments ≠ []) (hcur : cursorSegment l cur = .ok ci) :
    (d.indexesFrom l.segments.length ci).flatMap (fun i =>
        (group i).filter fun row => fromCursor d (if some i = ci then cur else none) (pos row)) =
      (listing d l group).filter fun row => fromCursor d cur (pos row) := by
  have hind {idx : Nat} : idx ∈ d.indexesFrom l.segments.length ci ↔ _ :=
    mem_indexesFrom (length_pos_iff.mpr hne) (cursorSegment_lt hcur)
  refine eq_of_strict_order (feed.flatMap_sorted hinc (pairwise_indexesFrom ..)
    (fun _ h => (hind.mp h).1) fun _ => filter_sublist)
    ((feed.listing_sorted hinc).sublist filter_sublist) fun row => ?_
  rw [mem_flatMap, mem_filter, mem_listing]
  constructor
  · rintro ⟨i, hi, hmem⟩
    obtain ⟨hlt, hnot⟩ := hind.mp hi
    obtain ⟨hrow, hfrom⟩ := mem_filter.mp hmem
    have hseg := getElem?_eq_getD hlt
    refine ⟨⟨i, _, hseg, hrow⟩, ?_⟩
    split_ifs at hfrom with hhere
    · exact hfrom
    · cases cur with
      | none => rfl
      | some c =>
        obtain ⟨idx, anchor, rfl, hanc, hhol⟩ := cursorSegment_some hcur
        have hbefore : d.before (idx : Int) (i : Int) :=
          before_of_not (hnot idx rfl) fun h => hhere (by rw [Int.ofNat_inj.mp h])
        exact cursorComparator_of_before _ (hinc.before hanc hseg hbefore hhol
          (feed.held i _ hseg row hrow).1)
  · rintro ⟨⟨i, g, hseg, hrow⟩, hfrom⟩
    refine ⟨i, hind.mpr ⟨(getElem?_eq_some_iff.mp hseg).1, ?_⟩, mem_filter.mpr ⟨hrow, ?_⟩⟩
    · intro idx hidx hbefore
      cases cur with
      | none => cases hcur; cases hidx
      | some c =>
        obtain ⟨_, anchor, rfl, hanc, hhol⟩ := cursorSegment_some hcur
        cases hidx
        have haft := hinc.before hseg hanc hbefore (feed.held i _ hseg row hrow).1 hhol
        exact Bool.false_ne_true ((cursorComparator_of_after _ haft).symm.trans hfrom)
    · split_ifs
      · exact hfrom
      · rfl

end Feed

/-! ### Pages of a listing -/

section Pages

variable (j : ReadJson) (tid : ThreadId) (scope : CursorScope) (pos : ρ → Int)

/-- The cursor at a row. -/
def cursorAt (includeAnchor : Bool) (row : ρ) : Text :=
  j.cursorToString
    { requestedThreadId := tid, rolloutOrdinal := (pos row).toNat, includeAnchor, scope }

/-- The page that the rows from a cursor on give. -/
def pageOf (rows : List ρ) (size : Nat) : SegmentPage ρ where
  rows := rows.take size
  nextCursor :=
    if rows.length > size then
      (rows.take size).getLast?.map (cursorAt j tid scope pos false)
    else none
  backwardsCursor := (rows.take size).head?.map (cursorAt j tid scope pos true)

variable {j tid scope pos}

theorem serialized {row? : Option ρ} (ia : Bool) (h : ∀ row, row? = some row → 0 ≤ pos row) :
    (row?.mapM fun row => serializeCursor j tid scope (pos row) ia) =
      .ok (row?.map (cursorAt j tid scope pos ia)) := by
  cases row? with
  | none => rfl
  | some row =>
    rw [Option.mapM_some, serializeCursor, if_neg (Int.not_lt.mpr (h row rfl))]
    rfl

theorem finishPage_eq {s : Nat} (h : ∀ row ∈ rows, 0 ≤ pos row) :
    finishPage j pos tid scope rows s = .ok (pageOf j tid scope pos rows s) := by
  have hhead : ∀ row, (rows.take s).head? = some row → 0 ≤ pos row := fun row hrow =>
    h row (mem_of_mem_take (mem_of_head? hrow))
  have hl : ∀ row, (rows.take s).getLast? = some row → 0 ≤ pos row := fun row hrow =>
    h row (mem_of_mem_take (mem_of_getLast? hrow))
  unfold finishPage pageOf
  simp only [serialized true hhead, serialized false hl]
  split <;> rfl

/-- The page has the rows that fit, and the row after them decides whether there is a next. -/
theorem pageOf_take {s : Nat} :
    pageOf j tid scope pos (rows.take (s + 1)) s = pageOf j tid scope pos rows s := by
  have hmore : (rows.take (s + 1)).length > s ↔ rows.length > s := by
    rw [length_take]
    omega
  have hrows : (rows.take (s + 1)).take s = rows.take s := by
    rw [take_take, Nat.min_eq_left (Nat.le_succ s)]
  simp only [pageOf, hmore, hrows]

/-- A way of paging lists the rows given in ascending order: it starts with the first ones of the
direction, it resumes behind or at a row, and whatever it shows is one of them. -/
structure PagesOf (j : ReadJson) (tid : ThreadId) (scope : CursorScope)
    (pos : ρ → Int)
    (page : SortDirection → Nat → Option Text → Except ThreadStoreError (SegmentPage ρ))
    (rows : List ρ) : Prop where
  sorted : rows.Pairwise fun a b => pos a < pos b
  start : ∀ d size, size + 1 < 2 ^ 63 →
    page d size none = .ok (pageOf j tid scope pos (d.order rows) size)
  resume : ∀ d size, size + 1 < 2 ^ 63 → ∀ includeAnchor, ∀ row ∈ rows,
    page d size (some (cursorAt j tid scope pos includeAnchor row)) =
      .ok (pageOf j tid scope pos ((d.order rows).filter fun other =>
        cursorComparator d includeAnchor (pos other) (pos row)) size)
  shown : ∀ d size cursor p, page d size cursor = .ok p →
    (∀ row ∈ p.rows, row ∈ rows) ∧
      p.backwardsCursor = p.rows.head?.map (cursorAt j tid scope pos true)

/-- Pages list rows, given in ascending order, exactly: following them from the start lists every
row once in the order of the direction, and following them in the opposite direction from a
page's backwards cursor lists the rows from the first one of that page on. -/
structure ListsExactly
    (page : SortDirection → Nat → Option Text → Except ThreadStoreError (SegmentPage ρ))
    (rows : List ρ) : Prop where
  forward : ∀ d size, 0 < size → size + 1 < 2 ^ 63 →
    ∃ pages, Paging.Walk (page d size) SegmentPage.nextCursor none pages ∧
      pages.flatMap SegmentPage.rows = d.order rows ∧
      ∀ p ∈ pages, p.rows.length ≤ size
  backward : ∀ d size cursor p anchor, page d size cursor = .ok p →
    p.backwardsCursor = some anchor → ∀ size', 0 < size' → size' + 1 < 2 ^ 63 →
    ∃ skipped first others, d.order rows = skipped ++ first :: others ∧
      p.rows.head? = some first ∧
      ∃ pages, Paging.Walk (page d.opposite size') SegmentPage.nextCursor (some anchor) pages ∧
        pages.flatMap SegmentPage.rows = first :: skipped.reverse

namespace PagesOf

variable {page : SortDirection → Nat → Option Text → Except ThreadStoreError (SegmentPage ρ)}
  {s : Nat}

/-- The rows from a cursor on; the cursors are none or at a row. -/
def rest (j : ReadJson) (pos : ρ → Int) (rows : List ρ) (d : SortDirection)
    (cursor : Option Text) : List ρ :=
  (d.order rows).filter fun row => fromCursor d (cursor.bind j.cursorFromStr) (pos row)

/-- A cursor that a page can name. -/
def Named (j : ReadJson) (tid : ThreadId) (scope : CursorScope) (pos : ρ → Int)
    (rows : List ρ) (cursor : Option Text) : Prop :=
  cursor = none ∨ ∃ row ∈ rows, ∃ includeAnchor,
    cursor = some (cursorAt j tid scope pos includeAnchor row)

theorem rest_none : rest j pos rows d none = d.order rows :=
  filter_eq_self.mpr fun _ _ => rfl

theorem rest_cursorAt (ia : Bool) (hrow : 0 ≤ pos row) :
    rest j pos rows d (some (cursorAt j tid scope pos ia row)) =
      (d.order rows).filter fun o => cursorComparator d ia (pos o) (pos row) := by
  unfold rest cursorAt
  rw [Option.bind_some, j.cursorFromStr_toString]
  simp only [fromCursor, Option.all_some, Int.toNat_of_nonneg hrow]

/-- Behind a row are the rows after it, and at a row that row too. -/
theorem rest_at (sorted : rows.Pairwise fun a b => pos a < pos b) {first os : List ρ}
    (ia : Bool) (hrow : 0 ≤ pos row) (hsp : d.order rows = first ++ row :: os) :
    rest j pos rows d (some (cursorAt j tid scope pos ia row)) =
      (if ia then [row] else []) ++ os := by
  have hsor : (d.order rows).Pairwise _ := pairwise_order sorted
  rw [hsp, pairwise_append, pairwise_cons] at hsor
  obtain ⟨-, ⟨hoth, -⟩, hfst⟩ := hsor
  rw [rest_cursorAt ia hrow, hsp, Paging.filter_from, cursorComparator_self]
  · exact fun o ho => cursorComparator_of_after _ (hfst o ho row mem_cons_self)
  · exact fun o ho => cursorComparator_of_before _ (hoth o ho)

theorem exists_skipped_rest (d : SortDirection) (sorted : rows.Pairwise fun a b => pos a < pos b)
    (n : ∀ row ∈ rows, 0 ≤ pos row) {cur : Option Text} (hnam : Named j tid scope pos rows cur) :
    ∃ skipped, d.order rows = skipped ++ rest j pos rows d cur := by
  obtain rfl | ⟨row, hrow, includeAnchor, rfl⟩ := hnam
  · exact ⟨[], by rw [rest_none, nil_append]⟩
  · obtain ⟨first, others, hsp⟩ := append_of_mem (mem_order.mpr hrow : _ ∈ d.order rows)
    rw [rest_at sorted includeAnchor (n row hrow) hsp, hsp]
    cases includeAnchor
    · exact ⟨first ++ [row], by simp⟩
    · exact ⟨first, rfl⟩

variable (pages : PagesOf j tid scope pos page rows)
  (n : ∀ row ∈ rows, 0 ≤ pos row)

include pages n

/-- Every page that can be asked for shows the next rows and names the ones after them. -/
theorem serves (d : SortDirection) (hsize : 0 < s) (hlim : s + 1 < 2 ^ 63)
    (cur : Option Text) (hnam : Named j tid scope pos rows cur) :
    ∃ p, Paging.Serves (page d s) SegmentPage.nextCursor SegmentPage.rows s
      (rest j pos rows d) (Named j tid scope pos rows) cur p := by
  obtain ⟨skipped, hskip⟩ := exists_skipped_rest d pages.sorted n hnam
  have hans : page d s cur = .ok (pageOf j tid scope pos (rest j pos rows d cur) s) := by
    obtain rfl | ⟨row, hrow, includeAnchor, rfl⟩ := hnam
    · rw [rest_none, pages.start d s hlim]
    · rw [rest_cursorAt includeAnchor (n row hrow), pages.resume d s hlim includeAnchor row hrow]
  refine ⟨_, hans, rfl, ?_, ?_⟩
  · intro hn
    by_contra hmore
    simp only [pageOf, if_pos (Nat.lt_of_not_le hmore), Option.map_eq_none_iff,
      getLast?_eq_none_iff, take_eq_nil_iff] at hn
    rcases hn with hzero | hnil
    · omega
    · rw [hnil] at hmore
      exact hmore (Nat.zero_le _)
  · intro cur' hnext
    have hmore : (rest j pos rows d cur).length > s := by
      by_contra hfits
      simp only [pageOf, if_neg hfits] at hnext
      cases hnext
    simp only [pageOf, if_pos hmore, Option.map_eq_some_iff] at hnext
    obtain ⟨last, hl, rfl⟩ := hnext
    obtain ⟨init, hinit⟩ := getLast?_eq_some_iff.mp hl
    have hrow : last ∈ rows := by
      refine (mem_order : _ ∈ d.order rows ↔ _).mp ?_
      rw [hskip]
      exact mem_append_right _ (mem_of_mem_take (mem_of_getLast? hl))
    have hsp : d.order rows = (skipped ++ init) ++ last :: (rest j pos rows d cur).drop s := by
      rw [hskip, append_assoc, append_right_inj]
      nth_rewrite 1 [← take_append_drop s (rest j pos rows d cur)]
      rw [hinit, append_assoc]
      rfl
    exact ⟨hmore, .inr ⟨last, hrow, false, rfl⟩, rest_at pages.sorted false (n last hrow) hsp⟩

theorem listsExactly : ListsExactly page rows where
  forward d s hsize hlim := by
    obtain ⟨walked, hwalk, hrows, hbound⟩ := Paging.exists_walk hsize
      (pages.serves n d hsize hlim) none (.inl rfl)
    exact ⟨walked, hwalk, hrows.trans rest_none, hbound⟩
  backward d s cur p anchor hpage hanc s' hsize' hlim' := by
    obtain ⟨hshown, hbac⟩ := pages.shown d s cur p hpage
    rw [hbac, Option.map_eq_some_iff] at hanc
    obtain ⟨first, hfst, rfl⟩ := hanc
    have hrow : first ∈ rows := hshown first (mem_of_head? hfst)
    obtain ⟨skipped, others, hsp⟩ := append_of_mem (mem_order.mpr hrow : _ ∈ d.order rows)
    refine ⟨skipped, first, others, hsp, hfst, ?_⟩
    have hopp : d.opposite.order rows = others.reverse ++ first :: skipped.reverse := by
      rw [opposite_order, hsp, reverse_append, reverse_cons, append_assoc]
      rfl
    obtain ⟨walked, hwalk, hrows, -⟩ := Paging.exists_walk hsize'
      (pages.serves n d.opposite hsize' hlim')
      (some (cursorAt j tid scope pos true first)) (.inr ⟨first, hrow, true, rfl⟩)
    exact ⟨walked, hwalk, hrows.trans (rest_at pages.sorted true (n first hrow) hopp)⟩

end PagesOf

end Pages

/-! ### Paging through the lineage -/

section Lineage

variable {j : ReadJson} {tid : ThreadId} {scope : CursorScope} {s : Nat} {group : Nat → List ρ}

theorem parseCursor_cursorAt (includeAnchor : Bool) (row : ρ) :
    parseCursor j (some (cursorAt j tid scope pos includeAnchor row)) tid scope =
      .ok (some { requestedThreadId := tid, rolloutOrdinal := (pos row).toNat,
                  includeAnchor, scope }) := by
  simp only [parseCursor, cursorAt, j.cursorFromStr_toString]
  rw [if_neg (by simp)]

namespace Feed

variable (feed : Feed l pos d group f)

include feed

theorem nonneg_of_mem_listing (h : row ∈ listing d l group) : 0 ≤ pos row := by
  obtain ⟨i, g, hseg, hrow⟩ := mem_listing.mp h
  exact nonneg_of_holds (feed.held i g hseg row hrow).1

/-- The loop over the segments of a page collects the listing from the cursor on. -/
theorem page_eq {text : Option Text} (hne : l.segments ≠ [])
    (hinc : l.Increasing) (hsize : s + 1 < 2 ^ 63) (hpar : parseCursor j text tid scope = .ok cur)
    (hcur : cursorSegment l cur = .ok ci) (hfits : ∀ c ∈ cur, c.rolloutOrdinal < 2 ^ 63) :
    pageRows j pos tid scope l text s d f =
      .ok (pageOf j tid scope pos ((listing d l group).filter
        fun row => fromCursor d cur (pos row)) s) := by
  let all (src : SegmentFromCursor) : List ρ :=
    (group src.index).filter fun row => fromCursor d src.cursor (pos row)
  have hfet : ∀ src ∈ (d.indexesFrom l.segments.length ci).map
      (l.source ci cur), ∀ lim,
      f src lim = .ok ((all src).take lim) := by
    intro src hsrc lim
    obtain ⟨i, hmem, rfl⟩ := mem_map.mp hsrc
    have hidx := (mem_indexesFrom (length_pos_iff.mpr hne) (cursorSegment_lt hcur)).mp hmem
    refine feed.fetched _ (getElem?_eq_getD hidx.1) (fun c hc => hfits c ?_) lim
    unfold RolloutLineage.source at hc
    split_ifs at hc
    exact hc
  have hrows := collectRows_eq hsize (length_nil ▸ Nat.zero_le _) hfet
  rw [nil_append, flatMap_map] at hrows
  simp only [pageRows, hpar, ok_bind, segmentsFromCursor_eq hne hcur, hrows]
  rw [← feed.cut hinc hne hcur]
  refine (finishPage_eq fun row hrow => feed.nonneg_of_mem_listing ?_).trans
    (congrArg Except.ok pageOf_take)
  have hlst := mem_of_mem_take hrow
  exact mem_of_mem_filter ((feed.cut hinc hne hcur) ▸ hlst)

theorem page_shown {cur : Option Text} {p : SegmentPage ρ}
    (h : pageRows j pos tid scope l cur s d f = .ok p) :
    (∀ row ∈ p.rows, row ∈ listing d l group) ∧
      p.backwardsCursor = p.rows.head?.map (cursorAt j tid scope pos true) := by
  rw [pageRows, bind_eq_ok] at h
  obtain ⟨parsed, -, h⟩ := h
  rw [bind_eq_ok] at h
  obtain ⟨ss, hsour, h⟩ := h
  rw [bind_eq_ok] at h
  obtain ⟨rows, hrows, h⟩ := h
  have hlst : ∀ row ∈ rows, row ∈ listing d l group := by
    refine mem_collectRows hrows (fun _ h => nomatch h) ?_
    intro src hsrc lim m hmore row hr
    have hseg : l.segments[src.index]? = some src.segment := by
      rw [segmentsFromCursor, bind_eq_ok] at hsour
      obtain ⟨ci, -, hsour⟩ := hsour
      obtain ⟨i, -, hidx⟩ := exists_of_mem_mapM hsour hsrc
      split at hidx
      · cases hidx
      · rename_i g hseg
        cases hidx
        exact hseg
    exact mem_listing.mpr ⟨src.index, src.segment, hseg,
      feed.fetched_mem src hseg lim m hmore row hr⟩
  rw [finishPage_eq fun row hrow => feed.nonneg_of_mem_listing (hlst row hrow)] at h
  cases h
  exact ⟨fun row hrow => hlst row (mem_of_mem_take hrow), rfl⟩

end Feed

/-- Feeds of the same rows in both directions page what they list. -/
theorem pagesOf_feeds (j : ReadJson) (tid : ThreadId) (scope : CursorScope)
    {group : SortDirection → Nat → List ρ}
    {f : SortDirection → SegmentFromCursor → Nat → Except ThreadStoreError (List ρ)}
    (feeds : ∀ d, Feed l pos d (group d) (f d))
    (hsame : ∀ index row, row ∈ group .desc index ↔ row ∈ group .asc index)
    (hne : l.segments ≠ []) (hinc : l.Increasing) :
    PagesOf j tid scope pos
      (fun d s cur => pageRows j pos tid scope l cur s d (f d))
      (listing .asc l (group .asc)) := by
  have hsor := (feeds .asc).listing_sorted hinc
  have hlis : ∀ d, listing d l (group d) = d.order (listing .asc l (group .asc)) := by
    intro d
    cases d with
    | asc => rfl
    | desc =>
      refine eq_of_strict_order ((feeds .desc).listing_sorted hinc)
        (pairwise_order hsor) fun row => ?_
      rw [mem_order, Feed.mem_listing, Feed.mem_listing]
      simp only [hsame]
  have hmem : ∀ d {row : ρ}, row ∈ listing .asc l (group .asc) ↔ row ∈ listing d l (group d) := by
    intro d row
    rw [hlis d, mem_order]
  refine ⟨hsor, ?_, ?_, ?_⟩
  · intro d s hsize
    rw [← hlis d]
    refine ((feeds d).page_eq hne hinc hsize rfl rfl (by simp)).trans ?_
    exact congrArg (fun rows => Except.ok (pageOf j tid scope pos rows s))
      (filter_eq_self.mpr fun _ _ => rfl)
  · intro d s hsize includeAnchor row hrow
    rw [← hlis d]
    obtain ⟨index, g, hseg, hgroup⟩ := Feed.mem_listing.mp ((hmem d).mp hrow)
    obtain ⟨hheld, hfits⟩ := (feeds d).held index g hseg row hgroup
    have hnon := nonneg_of_holds hheld
    have hord : ((pos row).toNat : Int) = pos row := Int.toNat_of_nonneg hnon
    have hsome : (l.segmentIndexForOrdinal (pos row).toNat).isSome := by
      rw [RolloutLineage.segmentIndexForOrdinal, findIdx?_isSome, any_eq_true]
      refine ⟨g, mem_of_getElem? hseg, ?_⟩
      rw [← hord] at hheld
      simpa only [RolloutLineageSegment.holds, Int.ofNat_le, Int.ofNat_lt] using hheld
    obtain ⟨found, hfd⟩ := Option.isSome_iff_exists.mp hsome
    refine ((feeds d).page_eq hne hinc hsize (parseCursor_cursorAt includeAnchor row)
      (by rw [cursorSegment, hfd]) fun c hc => ?_).trans ?_
    · cases hc
      show (pos row).toNat < 2 ^ 63
      omega
    · simp only [fromCursor, Option.all_some, hord]
  · intro d s cur p hp
    obtain ⟨hrows, hbac⟩ := (feeds d).page_shown hp
    exact ⟨fun row hrow => (hmem d).mpr (hrows row hrow), hbac⟩

end Lineage

/-! ### Queries -/

section Queries

variable {τ : Type} {t : List τ} {ordinal : τ → Int} {asked : τ → Bool}
  {r : τ → Except ThreadStoreError ρ} {value : τ → ρ}

/-- The rows a query asks for, read, in the order of a direction. -/
def selected (ordinal : τ → Int) (d : SortDirection) (asked : τ → Bool) (value : τ → ρ)
    (table : List τ) : List ρ :=
  ((table.filter asked).insertionSort fun a b => d.le (ordinal a) (ordinal b)).map value

theorem mem_selected : row ∈ selected ordinal d asked value t ↔
    ∃ stored ∈ t, asked stored ∧ value stored = row := by
  simp only [selected, mem_map, mem_insertionSort, mem_filter, and_assoc]

/-- A query takes the first rows of a cut of what it asks for. -/
theorem query_eq {lim : Nat} {cut : Int → Bool}
    (hrd : ∀ row ∈ t, asked row → r row = .ok (value row))
    (hpos : ∀ row ∈ t, asked row → pos (value row) = ordinal row) :
    (pushOrderAndLimit ordinal d lim (t.filter fun row => asked row && cut (ordinal row))).mapM r =
      .ok (((selected ordinal d asked value t).filter fun row =>
        cut (pos row)).take lim) := by
  have hasked : ∀ row ∈ (t.filter asked).insertionSort fun a b =>
      d.le (ordinal a) (ordinal b), row ∈ t ∧ asked row := fun row hrow =>
    mem_filter.mp ((mem_insertionSort _).mp hrow)
  have hfil : (t.filter fun row => asked row && cut (ordinal row)) =
      (t.filter asked).filter fun row => cut (ordinal row) := by
    rw [filter_filter]
    exact filter_congr fun row _ => Bool.and_comm _ _
  rw [pushOrderAndLimit, hfil, Paging.insertionSort_filter, selected, filter_map, ← map_take]
  rw [mapM_eq_ok_map (g := value)]
  · refine congrArg Except.ok (congrArg (map value) (congrArg (take lim) ?_))
    refine filter_congr fun row hrow => ?_
    obtain ⟨hmem, hask⟩ := hasked row hrow
    rw [Function.comp_apply, hpos row hmem hask]
  · intro row hrow
    obtain ⟨hmem, hask⟩ := hasked row (mem_of_mem_filter (mem_of_mem_take hrow))
    exact hrd row hmem hask

/-- If no two of the rows have the same ordinal, they are in strict order. -/
theorem selected_sorted (hnd : t.Nodup)
    (hdis : ∀ a ∈ t, ∀ b ∈ t, asked a → asked b → ordinal a = ordinal b → a = b)
    (hpos : ∀ row ∈ t, asked row → pos (value row) = ordinal row) :
    (selected ordinal d asked value t).Pairwise fun a b => d.before (pos a) (pos b) := by
  have hle := (t.filter asked).pairwise_insertionSort fun a b => d.le (ordinal a) (ordinal b) = true
  have hne : ((t.filter asked).insertionSort fun a b => d.le (ordinal a) (ordinal b)).Nodup :=
    (perm_insertionSort _ _).nodup_iff.mpr (hnd.filter asked)
  refine pairwise_map.mpr ((hle.and hne).imp_of_mem ?_)
  rintro a b ha hb ⟨hab, hab'⟩
  obtain ⟨ha, haske⟩ := mem_filter.mp ((mem_insertionSort _).mp ha)
  obtain ⟨hb, hask'⟩ := mem_filter.mp ((mem_insertionSort _).mp hb)
  rw [hpos a ha haske, hpos b hb hask']
  exact before_of_le_of_ne hab fun heq => hab' (hdis a ha b hb haske hask' heq)

end Queries

/-! ### Paging is exact -/

/-- Pages list exactly the rows with a property, in strict order of their ordinals. -/
def PagesExactly {ρ : Type} (pos : ρ → Int)
    (page : SortDirection → Nat → Option Text → Except ThreadStoreError (SegmentPage ρ))
    (visible : ρ → Prop) : Prop :=
  ∃ rows : List ρ, (rows.Pairwise fun a b => pos a < pos b) ∧
    (∀ row, row ∈ rows ↔ visible row) ∧ ListsExactly page rows

theorem PagesExactly.congr {visible visible' : ρ → Prop}
    {page page' : SortDirection → Nat → Option Text → Except ThreadStoreError (SegmentPage ρ)}
    (h : PagesExactly pos page' visible') (hpage : ∀ d s cur, page d s cur = page' d s cur)
    (hvis : ∀ row, visible row ↔ visible' row) : PagesExactly pos page visible := by
  rwa [funext₃ hpage, funext fun row => propext (hvis row)]

/-- A query on a table in every segment: what it asks for and how it reads a row. -/
structure Query (τ ρ : Type) where
  ordinal : τ → Int
  asked : Nat → RolloutLineageSegment → τ → Bool
  value : RolloutLineageSegment → τ → ρ

/-- What a query shows. -/
def Query.Shows {τ ρ : Type} (query : Query τ ρ) (lineage : RolloutLineage) (table : List τ)
    (row : ρ) : Prop :=
  ∃ index segment stored, lineage.segments[index]? = some segment ∧ stored ∈ table ∧
    query.asked index segment stored ∧ query.value segment stored = row

/-- A query pages exactly if it asks for rows of the segment with distinct ordinals and fetches
the first ones from the cursor on. -/
theorem Query.pagesExactly {τ : Type} (q : Query τ ρ)
    {t : List τ}
    (f : SortDirection → SegmentFromCursor → Nat → Except ThreadStoreError (List ρ))
    (j : ReadJson) (tid : ThreadId) (scope : CursorScope) (hnd : t.Nodup)
    (hne : l.segments ≠ []) (hinc : l.Increasing)
    (hasked : ∀ i g, l.segments[i]? = some g → ∀ a ∈ t,
      q.asked i g a → g.holds (q.ordinal a) ∧ q.ordinal a < 2 ^ 63 ∧
        pos (q.value g a) = q.ordinal a ∧
        ∀ b ∈ t, q.asked i g b → q.ordinal a = q.ordinal b → a = b)
    (hfet : ∀ d i g, l.segments[i]? = some g →
      ∀ cur lim, f d ⟨i, g, cur⟩ lim =
        (pushCursorClause d cur).map fun cut =>
          ((selected q.ordinal d (q.asked i g) (q.value g)
            t).filter fun row => cut (pos row)).take lim) :
    PagesExactly pos (fun d s cur => pageRows j pos tid scope l cur s d (f d)) (q.Shows l t) := by
  let group (d : SortDirection) (i : Nat) : List ρ :=
    let g := l.segments.getD i default
    selected q.ordinal d (q.asked i g) (q.value g) t
  have hgroup : ∀ {d i g}, l.segments[i]? = some g →
      group d i = selected q.ordinal d (q.asked i g) (q.value g) t := fun h => by
    simp [group, h]
  have feeds : ∀ d, Feed l pos d (group d) (f d) :=
    fun d => by
    constructor
    · intro src hsrc hcur lim
      rw [hfet d src.index src.segment hsrc, pushCursorClause_eq hcur, hgroup hsrc]
      rfl
    · intro src hsrc lim rows hrows row hrow
      rw [hfet d src.index src.segment hsrc, map_eq_ok] at hrows
      obtain ⟨cut, -, rfl⟩ := hrows
      rw [hgroup hsrc]
      exact mem_of_mem_filter (mem_of_mem_take hrow)
    · intro i g hseg row hrow
      rw [hgroup hseg] at hrow
      obtain ⟨stored, hstor, hask, rfl⟩ := mem_selected.mp hrow
      obtain ⟨hhol, hfits, hpos, -⟩ := hasked i g hseg stored hstor hask
      exact hpos ▸ ⟨hhol, hfits⟩
    · intro i g hseg
      rw [hgroup hseg]
      exact selected_sorted hnd
        (fun a ha b hb haske hask' => (hasked i g hseg a ha haske).2.2.2 b hb hask')
        fun a ha hask => (hasked i g hseg a ha hask).2.2.1
  have pages := pagesOf_feeds j tid scope feeds
    (fun i row => by simp only [group, mem_selected]) hne hinc
  refine ⟨_, pages.sorted, fun row => ?_,
    pages.listsExactly fun row hrow => (feeds .asc).nonneg_of_mem_listing hrow⟩
  rw [Feed.mem_listing]
  constructor
  · rintro ⟨i, g, hseg, hrow⟩
    rw [hgroup hseg] at hrow
    obtain ⟨stored, hstor, hask, hv⟩ := mem_selected.mp hrow
    exact ⟨i, g, stored, hseg, hstor, hask, hv⟩
  · rintro ⟨i, g, stored, hseg, hstor, hask, hv⟩
    exact ⟨i, g, hseg, hgroup hseg ▸ mem_selected.mpr ⟨stored, hstor, hask, hv⟩⟩

end SushiGpt.ThreadStore
