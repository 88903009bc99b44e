/-
Paging over a forked history is exact.

Turns and items differ only in what is asked for of the rows of a segment, and in how a row is
read.  Items by their last change are paged within one rollout.
-/
import SushiGpt.Proofs.ThreadStore.Pages

namespace SushiGpt.ThreadStore

open List StoredThreadItemRow ThreadItemsRow RolloutLineageSegment

variable {g : RolloutLineageSegment} {item : ThreadItemsRow} {ri : ThreadId}

/-! ### Turns -/

/-- The ordinals are SQLite integers. -/
structure HistoryDb.Fits (db : HistoryDb) : Prop where
  turns : ∀ turn ∈ db.threadTurns.rows, turn.rolloutOrdinal < 2 ^ 63
  items : ∀ item ∈ db.threadItems.rows,
    item.rolloutOrdinal < 2 ^ 63 ∧ item.updatedAtOrdinal < 2 ^ 63

/-- A turn is visible in a segment: its ordinal lies in the segment, and no newer segment holds a
turn with the same id. -/
structure TurnVisible (db : HistoryDb) (l : RolloutLineage) (index : Nat)
    (g : RolloutLineageSegment) (turn : ThreadTurnsRow) : Prop where
  stored : turn ∈ db.threadTurns.rows
  segment_eq : l.segments[index]? = some g
  rollout : turn.threadId = g.rolloutId
  inSegment : g.holds turn.rolloutOrdinal
  newest : ∀ newerIndex newer, index < newerIndex → l.segments[newerIndex]? = some newer →
    ∀ other ∈ db.threadTurns.rows, other.threadId = newer.rolloutId →
      newer.holds other.rolloutOrdinal → other.turnId ≠ turn.turnId

section Turns

variable {j : ReadJson} {db : HistoryDb} {l : RolloutLineage}
  {iv : StoredTurnItemsView}

def RolloutLineage.newer (l : RolloutLineage) (index : Nat) : List (ThreadId × (Int → Bool)) :=
  (l.segments.drop (index + 1)).map fun newer => (newer.rolloutId, newer.holds)

/-- What is asked for of the turns in a segment. -/
def turnAsked (db : HistoryDb) (l : RolloutLineage) (index : Nat)
    (g : RolloutLineageSegment) (turn : ThreadTurnsRow) : Bool :=
  turn.threadId = g.rolloutId && g.holds turn.rolloutOrdinal &&
    notShadowed db (l.newer index) turn.turnId

theorem turnAsked_iff {idx : Nat} {t : ThreadTurnsRow} (hseg : l.segments[idx]? = some g)
    (hstor : t ∈ db.threadTurns.rows) : turnAsked db l idx g t ↔ TurnVisible db l idx g t := by
  have hnewest : notShadowed db (l.newer idx) t.turnId ↔
      ∀ ni n, idx < ni → l.segments[ni]? = some n →
        ∀ o ∈ db.threadTurns.rows, o.threadId = n.rolloutId →
          n.holds o.rolloutOrdinal → o.turnId ≠ t.turnId := by
    simp only [notShadowed, RolloutLineage.newer, all_eq_true, mem_map,
      Bool.not_eq_true', any_eq_false, Bool.and_eq_true, decide_eq_true_eq, not_and]
    constructor
    · intro h ni n hlt hnewer o ho hrol hhol hid
      have hmem : n ∈ l.segments.drop (idx + 1) := by
        refine mem_of_getElem? (i := ni - (idx + 1)) ?_
        rw [getElem?_drop, Nat.add_sub_cancel' hlt, hnewer]
      exact h _ ⟨n, hmem, rfl⟩ o ho ⟨hrol, hid⟩ hhol
    · rintro h _ ⟨n, hmem, rfl⟩ o ho ⟨hrol, hid⟩ hhol
      obtain ⟨offset, hoff⟩ := mem_iff_getElem?.mp hmem
      rw [getElem?_drop] at hoff
      exact h _ n (by omega) hoff o ho hrol hhol hid
  simp only [turnAsked, Bool.and_eq_true, decide_eq_true_eq, hnewest]
  exact ⟨fun ⟨⟨hrol, hhol⟩, hnew⟩ => ⟨hstor, hseg, hrol, hhol, hnew⟩,
    fun h => ⟨⟨h.rollout, h.inSegment⟩, h.newest⟩⟩

theorem readTurn_position {inSegment : Int → Bool} {row : ThreadTurnsRow} {t : StoredTurnRow}
    (h : readTurn j db iv ri inSegment row = .ok t) : t.position = row.rolloutOrdinal := by
  simp only [readTurn, storedTurnRow, bind_eq_ok] at h
  obtain ⟨_, -, _, ⟨_, -, _, -, hrd⟩, h⟩ := h
  cases hrd
  cases h
  rfl

def turnValue (j : ReadJson) (db : HistoryDb) (iv : StoredTurnItemsView)
    (g : RolloutLineageSegment) (row : ThreadTurnsRow) : StoredTurnRow :=
  (readTurn j db iv g.rolloutId g.holds row).toOption.getD default

/-- The visible turns can be read. -/
def TurnsReadable (j : ReadJson) (db : HistoryDb) (l : RolloutLineage)
    (iv : StoredTurnItemsView) : Prop :=
  ∀ index g row, TurnVisible db l index g row →
    ∃ turn, readTurn j db iv g.rolloutId g.holds row = .ok turn

theorem readTurn_eq {i : Nat} {row : ThreadTurnsRow} (hrd : TurnsReadable j db l iv)
    (hvis : TurnVisible db l i g row) :
    readTurn j db iv g.rolloutId g.holds row = .ok (turnValue j db iv g row) := by
  obtain ⟨t, ht⟩ := hrd i g row hvis
  rw [turnValue, ht]
  rfl

theorem pageTurnRows_exact (hdb : db.Fits) (hne : l.segments ≠ []) (hinc : l.Increasing)
    (hfits : ∀ g ∈ l.segments, g.Fits) (threadId : ThreadId) (hrd : TurnsReadable j db l iv) :
    PagesExactly StoredTurnRow.position
      (fun direction size cursor => pageTurnRows j db threadId l cursor size direction iv)
      fun turn => ∃ index g row, TurnVisible db l index g row ∧
        readTurn j db iv g.rolloutId g.holds row = .ok turn := by
  let query : Query ThreadTurnsRow StoredTurnRow :=
    ⟨ThreadTurnsRow.rolloutOrdinal, turnAsked db l, turnValue j db iv⟩
  refine (query.pagesExactly _ j threadId .turns (db.threadTurns.nodup_key.of_map _) hne
    hinc ?_ ?_).congr (fun _ _ _ => rfl) fun turn => ⟨?_, ?_⟩
  · intro index g hseg a ha haske
    have hvis := (turnAsked_iff hseg ha).mp haske
    refine ⟨hvis.inSegment, hdb.turns a ha,
      readTurn_position (readTurn_eq hrd hvis), fun b hb hask' hord => ?_⟩
    exact db.threadTurns.eq_of_index_eq ha hb (Prod.ext
      (hvis.rollout.trans ((turnAsked_iff hseg hb).mp hask').rollout.symm) hord)
  · intro direction index g hseg cursor limit
    have hnew : ((l.segments.drop (index + 1)).mapM fun newer => do
        return (newer.rolloutId, ← pushSegmentRange newer)) = .ok (l.newer index) :=
      mapM_eq_ok_map fun newer hmem => by
        rw [pushSegmentRange_eq (hfits newer (mem_of_mem_drop hmem))]
        rfl
    unfold fetchTurns
    simp only [pushSegmentRange_eq (hfits g (mem_of_getElem? hseg)), hnew, ok_bind]
    cases pushCursorClause direction cursor with
    | error e => rfl
    | ok cut =>
      refine query_eq (fun row hrow hask => ?_) fun row hrow hask => ?_
      · exact readTurn_eq hrd ((turnAsked_iff hseg hrow).mp hask)
      · exact readTurn_position (readTurn_eq hrd ((turnAsked_iff hseg hrow).mp hask))
  · rintro ⟨index, g, row, hvis, hread⟩
    rw [readTurn_eq hrd hvis] at hread
    exact ⟨index, g, row, hvis.segment_eq, hvis.stored,
      (turnAsked_iff hvis.segment_eq hvis.stored).mpr hvis, Except.ok.inj hread⟩
  · rintro ⟨index, g, row, hseg, hstor, hasked, rfl⟩
    have hvis := (turnAsked_iff hseg hstor).mp hasked
    exact ⟨index, g, row, hvis, readTurn_eq hrd hvis⟩

end Turns

/-! ### Items -/

/-- What a request asks for of the items of a thread. -/
def itemAsked (par : ListItemsParams) (item : ThreadItemsRow) : Bool :=
  par.afterUpdatedAtOrdinal.all (fun watermark : Nat => watermark < item.updatedAtOrdinal) &&
    par.turnId.all (item.turnId = ·)

/-- SQLite can compare with the watermark of a request. -/
def ListItemsParams.Fits (par : ListItemsParams) : Prop :=
  ∀ watermark, par.afterUpdatedAtOrdinal = some watermark → watermark < 2 ^ 63

/-- An item is visible in a segment: its ordinal lies in the segment, and the request asks for
it. -/
structure ItemVisible (db : HistoryDb) (l : RolloutLineage) (par : ListItemsParams)
    (g : RolloutLineageSegment) (item : ThreadItemsRow) : Prop where
  stored : item ∈ db.threadItems.rows
  segment_mem : g ∈ l.segments
  rollout : item.threadId = g.rolloutId
  inSegment : g.holds item.rolloutOrdinal
  asked : itemAsked par item

/-- The visible items can be read. -/
def ItemsReadable (db : HistoryDb) (l : RolloutLineage) (par : ListItemsParams) : Prop :=
  ∀ g item, ItemVisible db l par g item → 0 ≤ item.updatedAtOrdinal

section Items

variable {j : ReadJson} {db : HistoryDb} {l : RolloutLineage} {par : ListItemsParams}

theorem itemFilter_eq (h : par.Fits) : itemFilter par = .ok (itemAsked par) := by
  unfold itemFilter
  cases hwatermark : par.afterUpdatedAtOrdinal with
  | none =>
    refine congrArg Except.ok (funext fun item => ?_)
    simp [itemAsked, hwatermark]
  | some w =>
    simp only [pagingInteger_eq (h w hwatermark)]
    refine congrArg Except.ok (funext fun item => ?_)
    simp [itemAsked, hwatermark]

/-- The item a row is read as, with the ordinal a query selects. -/
def itemValue (ordinal : ThreadItemsRow → Int) (row : ThreadItemsRow) : StoredThreadItemRow where
  position := ordinal row
  item :=
    { turnId := row.turnId
      itemId := row.itemId
      updatedAtOrdinal := row.updatedAtOrdinal.toNat
      createdAtMs := row.createdAtMs
      itemJson := row.itemJson }

theorem storedThreadItemRow_eq {o : ThreadItemsRow → Int} {row : ThreadItemsRow}
    (hord : 0 ≤ o row) (hupd : 0 ≤ row.updatedAtOrdinal) :
    storedThreadItemRow (o row) row = .ok (itemValue o row) := by
  unfold storedThreadItemRow storedThreadItem storedUpdatedAtOrdinal
  rw [if_neg (Int.not_lt.mpr hord), if_neg (Int.not_lt.mpr hupd)]
  rfl

/-- What is asked for of the items in a segment. -/
def segmentItemAsked (par : ListItemsParams) (g : RolloutLineageSegment)
    (item : ThreadItemsRow) : Bool :=
  item.threadId = g.rolloutId && g.holds item.rolloutOrdinal && itemAsked par item

theorem segmentItemAsked_iff (hseg : g ∈ l.segments) (hstor : item ∈ db.threadItems.rows) :
    segmentItemAsked par g item ↔ ItemVisible db l par g item := by
  simp only [segmentItemAsked, Bool.and_eq_true, decide_eq_true_eq]
  exact ⟨fun ⟨⟨hrol, hhol⟩, hask⟩ => ⟨hstor, hseg, hrol, hhol, hask⟩,
    fun h => ⟨⟨h.rollout, h.inSegment⟩, h.asked⟩⟩

theorem pageItemRows_exact (hdb : db.Fits) (hne : l.segments ≠ [])
    (hinc : l.Increasing) (hfits : ∀ g ∈ l.segments, g.Fits)
    (hkey : par.sortKey = .createdAtOrdinal) (hparams : par.Fits)
    (hrep : par.afterUpdatedAtOrdinal = none ∨ l.segments.length ≤ 1)
    (hrd : ItemsReadable db l par) :
    PagesExactly position
      (fun direction size cursor => pageItemRows j db l
        { par with cursor, pageSize := size, sortDirection := direction })
      fun item => ∃ g row, ItemVisible db l par g row ∧ itemValue rolloutOrdinal row = item := by
  let query : Query ThreadItemsRow StoredThreadItemRow :=
    ⟨rolloutOrdinal, fun _ => segmentItemAsked par, fun _ => itemValue rolloutOrdinal⟩
  refine (query.pagesExactly
    (fun direction => fetchItems db { par with sortDirection := direction }) j
    par.threadId .itemsByCreatedAtOrdinal (db.threadItems.nodup_key.of_map _) hne hinc
    ?_ ?_).congr (fun direction size cursor => ?_) fun item => ⟨?_, ?_⟩
  · intro index g hseg a ha haske
    have hmem := mem_of_getElem? hseg
    have hvis := (segmentItemAsked_iff hmem ha).mp haske
    refine ⟨hvis.inSegment, (hdb.items a ha).1, rfl, fun b hb hask' hord => ?_⟩
    exact db.threadItems.eq_of_index_eq ha hb (Prod.ext
      (hvis.rollout.trans ((segmentItemAsked_iff hmem hb).mp hask').rollout.symm) hord)
  · intro direction index g hseg cursor limit
    have hmem := mem_of_getElem? hseg
    have hasked : itemFilter { par with sortDirection := direction } = .ok (itemAsked par) :=
      itemFilter_eq hparams
    unfold fetchItems
    simp only [pushSegmentRange_eq (hfits g hmem), hasked, ok_bind]
    cases pushCursorClause direction cursor with
    | error e => rfl
    | ok cut =>
      refine query_eq (fun row hrow hask => ?_) fun row hrow hask => rfl
      have hvis := (segmentItemAsked_iff hmem hrow).mp hask
      exact storedThreadItemRow_eq (nonneg_of_holds hvis.inSegment) (hrd g row hvis)
  · have hall : ¬ (par.afterUpdatedAtOrdinal.isSome && l.segments.length > 1) := by
      rcases hrep with hn | hone
      · simp [hn]
      · simp [Nat.not_lt.mpr hone]
    simp only [pageItemRows, if_neg hall, hkey]
    rfl
  · rintro ⟨g, row, hvis, hv⟩
    obtain ⟨index, hseg⟩ := mem_iff_getElem?.mp hvis.segment_mem
    exact ⟨index, g, row, hseg, hvis.stored,
      (segmentItemAsked_iff hvis.segment_mem hvis.stored).mpr hvis, hv⟩
  · rintro ⟨index, g, row, hseg, hstor, hasked, hv⟩
    exact ⟨g, row, (segmentItemAsked_iff (mem_of_getElem? hseg) hstor).mp hasked, hv⟩

/-! ### Items by their last change -/

/-- An item of a rollout that a request asks for. -/
structure ItemOfRollout (db : HistoryDb) (rolloutId : ThreadId) (par : ListItemsParams)
    (item : ThreadItemsRow) : Prop where
  stored : item ∈ db.threadItems.rows
  rollout : item.threadId = rolloutId
  asked : itemAsked par item

def rolloutItemAsked (rolloutId : ThreadId) (par : ListItemsParams) (item : ThreadItemsRow) :
    Bool :=
  item.threadId = rolloutId && itemAsked par item

theorem rolloutItemAsked_iff (hstor : item ∈ db.threadItems.rows) :
    rolloutItemAsked ri par item ↔ ItemOfRollout db ri par item := by
  simp only [rolloutItemAsked, Bool.and_eq_true, decide_eq_true_eq]
  exact ⟨fun ⟨hrol, hask⟩ => ⟨hstor, hrol, hask⟩, fun h => ⟨h.rollout, h.asked⟩⟩

/-- The items of a rollout by their last change. -/
def updatedItems (db : HistoryDb) (rolloutId : ThreadId) (par : ListItemsParams)
    (direction : SortDirection) : List StoredThreadItemRow :=
  selected updatedAtOrdinal direction (rolloutItemAsked rolloutId par)
    (itemValue updatedAtOrdinal) db.threadItems.rows

section Updated

variable {ri : ThreadId} {w : Nat}
  (hwatermark : par.afterUpdatedAtOrdinal = some w) (hparams : par.Fits)

include hwatermark

/-- With a watermark only items with a positive update ordinal are asked for. -/
theorem nonneg_of_rolloutItemAsked (h : rolloutItemAsked ri par item) :
    0 ≤ item.updatedAtOrdinal := by
  simp only [rolloutItemAsked, itemAsked, hwatermark, Option.all_some, Bool.and_eq_true,
    decide_eq_true_eq] at h
  omega

theorem nonneg_of_mem_updatedItems {d : SortDirection} {item : StoredThreadItemRow}
    (h : item ∈ updatedItems db ri par d) : 0 ≤ item.position := by
  obtain ⟨row, -, hask, rfl⟩ := mem_selected.mp h
  exact nonneg_of_rolloutItemAsked hwatermark hask

include hparams

theorem pageUpdatedItemRows_eq {d : SortDirection} {s : Nat} {t : Option Text}
    {c : Option HistoryCursor} {cut : Int → Bool} (hsize : s + 1 < 2 ^ 63)
    (hpar : parseCursor j t par.threadId .itemsByUpdatedAtOrdinal = .ok c)
    (hcut : pushCursorClause d c = .ok cut) :
    pageUpdatedItemRows j db ri
        { par with cursor := t, pageSize := s, sortDirection := d } =
      .ok (pageOf j par.threadId .itemsByUpdatedAtOrdinal position
        ((updatedItems db ri par d).filter fun item => cut item.position)
        s) := by
  have hrows : (pushOrderAndLimit updatedAtOrdinal d (s + 1)
      (db.threadItems.rows.filter fun item =>
        rolloutItemAsked ri par item && cut item.updatedAtOrdinal)).mapM
          (fun item => storedThreadItemRow item.updatedAtOrdinal item) =
      .ok (((updatedItems db ri par d).filter fun item =>
        cut item.position).take (s + 1)) := by
    refine query_eq (fun item _ hask => ?_) fun _ _ _ => rfl
    have hnon := nonneg_of_rolloutItemAsked hwatermark hask
    exact storedThreadItemRow_eq hnon hnon
  have hask : itemFilter
      { par with cursor := t, pageSize := s, sortDirection := d } =
      .ok (itemAsked par) :=
    itemFilter_eq hparams
  unfold pageUpdatedItemRows
  simp only [hpar, hask, remainingLimit_eq hsize (Nat.zero_le _), Nat.sub_zero, ok_bind, hcut]
  refine (congrArg (fun rows => rows >>= fun rows => finishPage j
    position par.threadId .itemsByUpdatedAtOrdinal rows s) hrows).trans ?_
  refine (finishPage_eq fun item hi => ?_).trans (congrArg Except.ok pageOf_take)
  exact nonneg_of_mem_updatedItems hwatermark (mem_of_mem_filter (mem_of_mem_take hi))

theorem pagesOf_updatedItems (j : ReadJson) (hdb : db.Fits)
    (hdis : ∀ a b, ItemOfRollout db ri par a → ItemOfRollout db ri par b →
      a.updatedAtOrdinal = b.updatedAtOrdinal → a = b) :
    PagesOf j par.threadId .itemsByUpdatedAtOrdinal position
      (fun direction size cursor => pageUpdatedItemRows j db ri
        { par with cursor, pageSize := size, sortDirection := direction })
      (updatedItems db ri par .asc) := by
  have hsor : ∀ direction, (updatedItems db ri par direction).Pairwise fun a b =>
      direction.before a.position b.position := by
    intro direction
    refine selected_sorted (db.threadItems.nodup_key.of_map _) ?_ fun _ _ _ => rfl
    intro a ha b hb haske hask' hord
    exact hdis a b ((rolloutItemAsked_iff ha).mp haske) ((rolloutItemAsked_iff hb).mp hask') hord
  have hmem : ∀ direction {item : StoredThreadItemRow},
      item ∈ updatedItems db ri par direction ↔ item ∈ updatedItems db ri par .asc := by
    intro direction item
    rw [updatedItems, updatedItems, mem_selected, mem_selected]
  have hlis : ∀ direction, updatedItems db ri par direction =
      direction.order (updatedItems db ri par .asc) := by
    intro direction
    refine eq_of_strict_order (hsor direction) (pairwise_order (hsor .asc)) fun item => ?_
    rw [mem_order, hmem direction]
  refine ⟨hsor .asc, ?_, ?_, ?_⟩
  · intro direction size hsize
    rw [← hlis direction]
    refine (pageUpdatedItemRows_eq hwatermark hparams hsize rfl rfl).trans ?_
    rw [filter_eq_self.mpr fun _ _ => rfl]
  · intro direction size hsize includeAnchor item hi
    rw [← hlis direction]
    have hnon := nonneg_of_mem_updatedItems hwatermark hi
    obtain ⟨row, hstor, -, rfl⟩ := mem_selected.mp hi
    have hfits : (row.updatedAtOrdinal).toNat < 2 ^ 63 := by
      have := (hdb.items row hstor).2
      omega
    refine (pageUpdatedItemRows_eq hwatermark hparams hsize (parseCursor_cursorAt includeAnchor _)
      (pushCursorClause_eq fun c hc => by
        cases hc
        exact hfits)).trans ?_
    simp only [fromCursor, Option.all_some, Int.toNat_of_nonneg hnon]
  · intro direction size cursor p hp
    have hpage := hp
    unfold pageUpdatedItemRows at hpage
    simp only [bind_eq_ok] at hpage
    obtain ⟨parsed, hpar, _, -, cut, hcut, limit, hlim, -⟩ := hpage
    rw [pageUpdatedItemRows_eq hwatermark hparams (fits_of_remainingLimit hlim) hpar hcut] at hp
    cases hp
    exact ⟨fun item hi => (hmem direction).mp (mem_of_mem_filter (mem_of_mem_take hi)), rfl⟩

end Updated

theorem pageItemRows_updated_exact (hdb : db.Fits) (hone : l.segments = [g])
    {w : Nat} (hkey : par.sortKey = .updatedAtOrdinal)
    (hwatermark : par.afterUpdatedAtOrdinal = some w) (hparams : par.Fits)
    (hdis : ∀ a b, ItemOfRollout db g.rolloutId par a →
      ItemOfRollout db g.rolloutId par b →
      a.updatedAtOrdinal = b.updatedAtOrdinal → a = b) :
    PagesExactly position
      (fun direction size cursor => pageItemRows j db l
        { par with cursor, pageSize := size, sortDirection := direction })
      fun item => ∃ row, ItemOfRollout db g.rolloutId par row ∧
        itemValue updatedAtOrdinal row = item := by
  have pages := pagesOf_updatedItems hwatermark hparams j hdb hdis
  have hex := pages.listsExactly fun item hi => nonneg_of_mem_updatedItems hwatermark hi
  refine PagesExactly.congr ⟨_, pages.sorted, fun _ => Iff.rfl, hex⟩
    (fun direction size cursor => ?_) fun item => ?_
  · unfold pageItemRows
    simp only [hone, hkey, hwatermark, Option.isSome_some, Option.isNone_some,
      length_singleton, gt_iff_lt, Nat.lt_irrefl, decide_false, Bool.and_false,
      Bool.false_eq_true, if_false]
  · rw [updatedItems, mem_selected]
    constructor
    · rintro ⟨row, hrow, rfl⟩
      exact ⟨row, hrow.stored, (rolloutItemAsked_iff hrow.stored).mpr hrow, rfl⟩
    · rintro ⟨row, hstor, hask, rfl⟩
      exact ⟨row, (rolloutItemAsked_iff hstor).mp hask, rfl⟩

end Items

/-- **Paging over a forked history is exact.**  Turns and items of the visible rows are listed once
and in order, in both directions and with every page size that SQLite can take; from a page's
backwards cursor, the rows from its first one on. -/
theorem history_paging_exact (json : ReadJson) {db : HistoryDb} (hdb : db.Fits)
    {lineage : RolloutLineage} (hne : lineage.segments ≠ []) (hincreasing : lineage.Increasing)
    (hfits : ∀ segment ∈ lineage.segments, segment.Fits) :
    (∀ (threadId : ThreadId) (itemsView : StoredTurnItemsView),
      TurnsReadable json db lineage itemsView →
      PagesExactly StoredTurnRow.position
        (fun direction size cursor =>
          pageTurnRows json db threadId lineage cursor size direction itemsView)
        fun turn => ∃ index segment row, TurnVisible db lineage index segment row ∧
          readTurn json db itemsView segment.rolloutId segment.holds row = .ok turn) ∧
    (∀ params : ListItemsParams, params.sortKey = .createdAtOrdinal → params.Fits →
      (params.afterUpdatedAtOrdinal = none ∨ lineage.segments.length ≤ 1) →
      ItemsReadable db lineage params →
      PagesExactly position
        (fun direction size cursor => pageItemRows json db lineage
          { params with cursor, pageSize := size, sortDirection := direction })
        fun item => ∃ segment row, ItemVisible db lineage params segment row ∧
          itemValue rolloutOrdinal row = item) ∧
    (∀ (params : ListItemsParams) (segment : RolloutLineageSegment) (w : Nat),
      params.sortKey = .updatedAtOrdinal → lineage.segments = [segment] →
      params.afterUpdatedAtOrdinal = some w → params.Fits →
      (∀ a b, ItemOfRollout db segment.rolloutId params a →
        ItemOfRollout db segment.rolloutId params b →
        a.updatedAtOrdinal = b.updatedAtOrdinal → a = b) →
      PagesExactly position
        (fun direction size cursor => pageItemRows json db lineage
          { params with cursor, pageSize := size, sortDirection := direction })
        fun item => ∃ row, ItemOfRollout db segment.rolloutId params row ∧
          itemValue updatedAtOrdinal row = item) := by
  refine ⟨?_, ?_, ?_⟩
  · intro threadId itemsView hrd
    exact pageTurnRows_exact hdb hne hincreasing hfits threadId hrd
  · intro params hkey hparams hrep hrd
    exact pageItemRows_exact hdb hne hincreasing hfits hkey hparams hrep hrd
  · intro params segment w hkey hone hwatermark hparams hdis
    exact pageItemRows_updated_exact hdb hone hkey hwatermark hparams hdis

/-! ### A fork -/

namespace Fork

def scopeChar : CursorScope → Char
  | .turns => 't'
  | .itemsByCreatedAtOrdinal => 'c'
  | .itemsByUpdatedAtOrdinal => 'u'

def charScope (c : Char) : CursorScope :=
  if c = 't' then .turns else if c = 'c' then .itemsByCreatedAtOrdinal else .itemsByUpdatedAtOrdinal

/-- A cursor in unary. -/
def json : ReadJson where
  cursorToString cursor :=
    (if cursor.includeAnchor then 'i' else 'e') :: scopeChar cursor.scope ::
      (List.replicate cursor.rolloutOrdinal '1' ++ '.' :: cursor.requestedThreadId)
  cursorFromStr
    | anchor :: scope :: text =>
      some { requestedThreadId := (text.dropWhile (· = '1')).tail
             rolloutOrdinal := (text.takeWhile (· = '1')).length
             includeAnchor := anchor = 'i'
             scope := charScope scope }
    | _ => none
  cursorFromStr_toString := by
    rintro ⟨threadId, ordinal, includeAnchor, scope⟩
    simp only [takeWhile_append, dropWhile_append, takeWhile_replicate, dropWhile_replicate]
    cases includeAnchor <;> cases scope <;> simp [scopeChar, charScope]
  errorFromStr text := .ok ⟨text, none, none⟩

def turn (threadId turnId : String) (ordinal : Int) : ThreadTurnsRow where
  threadId := threadId.toList
  turnId := turnId.toList
  rolloutOrdinal := ordinal
  rolloutByteOffset := none
  rolloutEndOrdinal := none
  rolloutEndByteOffset := none
  status := "completed".toList
  errorJson := none
  startedAt := none
  completedAt := none
  durationMs := none
  firstUserItemId := none
  finalAgentItemId := none

/-- The source has gone on with a third turn; the fork has repeated the second one. -/
def db : HistoryDb :=
  { HistoryDb.empty with
    threadTurns :=
      { rows := [turn "source" "1" 1, turn "source" "2" 2, turn "source" "3" 5, turn "fork" "2" 4]
        nodup_key := by decide
        nodup_index := by decide } }

def lineage : RolloutLineage :=
  ⟨[⟨"source".toList, 1, some ⟨"source".toList, 3, 300⟩⟩, ⟨"fork".toList, 4, none⟩]⟩

theorem pages_exact : PagesExactly StoredTurnRow.position
      (fun direction size cursor =>
        pageTurnRows json db "fork".toList lineage cursor size direction .notLoaded)
      fun turn => ∃ index segment row, TurnVisible db lineage index segment row ∧
        readTurn json db .notLoaded segment.rolloutId segment.holds row = .ok turn := by
  have hne : lineage.segments ≠ [] := by decide
  refine (history_paging_exact json ⟨by decide, by decide⟩ hne ?_ ?_).1 _ _ ?_
  · refine List.Pairwise.cons ?_ (pairwise_singleton _ _)
    simp [holds, endOrdinal]
    omega
  · simp [lineage, RolloutLineageSegment.Fits, endOrdinal]
  · rintro index segment row ⟨hstor, -⟩
    simp only [db, mem_cons, not_mem_nil, or_false] at hstor
    rcases hstor with rfl | rfl | rfl | rfl <;> exact ⟨_, rfl⟩

/-- A page with more rows than SQLite can be asked for is refused. -/
theorem largestPage_refused :
    pageTurnRows json db "fork".toList lineage none (2 ^ 63 - 1) .asc .notLoaded =
        .error (.invalidRequest "page size is too large".toList) ∧
      ¬ ∃ pages, Paging.Walk (fun cursor =>
        pageTurnRows json db "fork".toList lineage cursor (2 ^ 63 - 1) .asc .notLoaded)
        SegmentPage.nextCursor none pages := by
  have href : pageTurnRows json db "fork".toList lineage none (2 ^ 63 - 1) .asc .notLoaded =
      .error (.invalidRequest "page size is too large".toList) := rfl
  refine ⟨href, ?_⟩
  rintro ⟨pages, hwalk⟩
  cases hwalk with
  | last hpage _ | more hpage _ _ => exact absurd (href.symm.trans hpage) nofun

end Fork

end SushiGpt.ThreadStore
