/-
Pages of a forked history: `thread-store/src/local/thread_history/segment_paging.rs`.

A page goes through the segments of the lineage in turn, oldest or newest first, and asks each
for the rows that are still missing and one more: if that one comes, there is a next page.  A
cursor is an ordinal; the segment that holds it is found in the lineage.
-/
import Mathlib.Algebra.Group.Int.Defs
import Mathlib.Algebra.Group.Nat.Defs
import SushiGpt.ThreadStore.Rows
import SushiGpt.ThreadStore.RolloutLineage

namespace SushiGpt.ThreadStore

inductive SortDirection where
  | asc
  | desc

inductive StoredTurnItemsView where
  | notLoaded
  | summary

inductive ItemSortKey where
  | createdAtOrdinal
  | updatedAtOrdinal

structure ListItemsParams where
  threadId : ThreadId
  turnId : Option Text
  includeArchived : Bool
  cursor : Option Text
  pageSize : Nat
  sortDirection : SortDirection
  sortKey : ItemSortKey
  afterUpdatedAtOrdinal : Option Nat

structure SegmentPage (ρ : Type) where
  rows : List ρ
  nextCursor : Option Text
  backwardsCursor : Option Text

/-! ### Numbers -/

def pageSizeTooLarge : ThreadStoreError := .invalidRequest "page size is too large".toList

/-- `i64::try_from`, and before it `checked_add`, of a number of rows. -/
def rowLimit (limit : Nat) : Except ThreadStoreError Nat :=
  if limit < 2 ^ 63 then .ok limit else .error pageSizeTooLarge

def remainingLimit (pageSize rowCount : Nat) : Except ThreadStoreError Nat :=
  if pageSize + 1 < rowCount then .error pageSizeTooLarge
  else if 2 ^ 64 ≤ pageSize + 1 then .error pageSizeTooLarge
  else rowLimit (pageSize + 1 - rowCount)

/-- `sqlite_integer` of `segment_paging.rs`. -/
def pagingInteger (value : Nat) : Except ThreadStoreError Int :=
  if value < 2 ^ 63 then .ok value
  else .error (.invalidRequest "rollout ordinal exceeds SQLite integer range".toList)

/-! ### Clauses -/

def SortDirection.le : SortDirection → Int → Int → Bool
  | .asc, a, b => a ≤ b
  | .desc, a, b => b ≤ a

/-- `AND rollout_ordinal >= start AND rollout_ordinal < end`. -/
def pushSegmentRange (segment : RolloutLineageSegment) : Except ThreadStoreError (Int → Bool) := do
  let start ← pagingInteger segment.startOrdinal
  match segment.endOrdinal with
  | none => return fun ordinal => start ≤ ordinal
  | some endOrdinal =>
    let stop ← pagingInteger endOrdinal
    return fun ordinal => start ≤ ordinal && ordinal < stop

/-- The comparison with a cursor's ordinal. -/
def cursorComparator : SortDirection → Bool → Int → Int → Bool
  | .asc, true, ordinal, anchor => anchor ≤ ordinal
  | .asc, false, ordinal, anchor => anchor < ordinal
  | .desc, true, ordinal, anchor => ordinal ≤ anchor
  | .desc, false, ordinal, anchor => ordinal < anchor

variable (json : ReadJson) (db : HistoryDb) (lineage : RolloutLineage) (direction : SortDirection)

def pushCursorClause : Option HistoryCursor → Except ThreadStoreError (Int → Bool)
  | none => .ok fun _ => true
  | some cursor => do
    let anchor ← pagingInteger cursor.rolloutOrdinal
    return fun ordinal => cursorComparator direction cursor.includeAnchor ordinal anchor

/-- `ORDER BY ordinal direction LIMIT limit`. -/
def pushOrderAndLimit {ρ : Type} (ordinal : ρ → Int) (direction : SortDirection) (limit : Nat)
    (rows : List ρ) : List ρ :=
  (rows.insertionSort fun a b => direction.le (ordinal a) (ordinal b)).take limit

/-! ### Pages -/

/-- A segment of the lineage with its index, and the cursor if it is in this segment. -/
structure SegmentFromCursor where
  index : Nat
  segment : RolloutLineageSegment
  cursor : Option HistoryCursor

def cursorSegment : Option HistoryCursor → Except ThreadStoreError (Option Nat)
  | none => .ok none
  | some cursor =>
    match lineage.segmentIndexForOrdinal cursor.rolloutOrdinal with
    | none => .error (invalidCursor "position outside thread lineage".toList)
    | some index => .ok (some index)

/-- The indexes of the segments from the cursor on. -/
def SortDirection.indexesFrom (count : Nat) (cursorIndex : Option Nat) : List Nat :=
  match direction with
  | .asc => (List.range count).drop (cursorIndex.getD 0)
  | .desc => (List.range (cursorIndex.getD (count - 1) + 1)).reverse

def segmentsFromCursor (cursor : Option HistoryCursor) :
    Except ThreadStoreError (List SegmentFromCursor) := do
  let cursorIndex ← cursorSegment lineage cursor
  (direction.indexesFrom lineage.segments.length cursorIndex).mapM fun index =>
    match lineage.segments[index]? with
    | none => .error .panicked
    | some segment => .ok ⟨index, segment, if some index = cursorIndex then cursor else none⟩

def collectRows {ρ : Type} (pageSize : Nat)
    (fetch : SegmentFromCursor → Nat → Except ThreadStoreError (List ρ)) :
    List SegmentFromCursor → List ρ → Except ThreadStoreError (List ρ)
  | [], rows => .ok rows
  | segment :: segments, rows => do
    let remaining ← remainingLimit pageSize rows.length
    if remaining = 0 then return rows
    else collectRows pageSize fetch segments (rows ++ (← fetch segment remaining))

def finishPage {ρ : Type} (json : ReadJson) (position : ρ → Int) (requestedThreadId : ThreadId)
    (scope : CursorScope) (rows : List ρ) (pageSize : Nat) :
    Except ThreadStoreError (SegmentPage ρ) := do
  let hasMore := rows.length > pageSize
  let rows := rows.take pageSize
  let backwardsCursor ← rows.head?.mapM fun row =>
    serializeCursor json requestedThreadId scope (position row) true
  let nextCursor ←
    if hasMore then
      rows.getLast?.mapM fun row =>
        serializeCursor json requestedThreadId scope (position row) false
    else pure none
  return { rows, nextCursor, backwardsCursor }

def pageRows {ρ : Type} (json : ReadJson) (position : ρ → Int) (requestedThreadId : ThreadId)
    (scope : CursorScope) (lineage : RolloutLineage) (cursor : Option Text) (pageSize : Nat)
    (direction : SortDirection)
    (fetch : SegmentFromCursor → Nat → Except ThreadStoreError (List ρ)) :
    Except ThreadStoreError (SegmentPage ρ) := do
  let cursor ← parseCursor json cursor requestedThreadId scope
  let rows ← collectRows pageSize fetch (← segmentsFromCursor lineage direction cursor) []
  finishPage json position requestedThreadId scope rows pageSize

/-! ### Turns -/

/-- `LEFT JOIN thread_items` on the key of an item of a turn, within the segment. -/
def summaryItemJoin (rolloutId : ThreadId) (inSegment : Int → Bool) (turnId : Text)
    (itemId : Option Text) : Option ThreadItemsRow :=
  db.threadItems.rows.find? fun item =>
    item.threadId = rolloutId && item.turnId = turnId && some item.itemId = itemId &&
      inSegment item.rolloutOrdinal

/-- The summary of a turn, if that is asked for. -/
def summaryItemsOf (itemsView : StoredTurnItemsView) (rolloutId : ThreadId) (inSegment : Int → Bool)
    (row : ThreadTurnsRow) : Except ThreadStoreError (List StoredThreadItem) :=
  let join := summaryItemJoin db rolloutId inSegment row.turnId
  match itemsView with
  | .summary =>
    StoredSummaryColumns.intoStoredItems (join row.firstUserItemId) (join row.finalAgentItemId)
  | .notLoaded => .ok []

def readTurn (itemsView : StoredTurnItemsView) (rolloutId : ThreadId) (inSegment : Int → Bool)
    (row : ThreadTurnsRow) : Except ThreadStoreError StoredTurnRow := do
  let summaryItems ← summaryItemsOf db itemsView rolloutId inSegment row
  let turn ← storedTurnRow json row
  return { turn with summaryItems }

/-- `NOT EXISTS` of a turn with the same id in the range of a newer segment. -/
def notShadowed (newer : List (ThreadId × (Int → Bool))) (turnId : Text) : Bool :=
  newer.all fun (rolloutId, inSegment) =>
    !db.threadTurns.rows.any fun turn =>
      turn.threadId = rolloutId && turn.turnId = turnId && inSegment turn.rolloutOrdinal

def fetchTurns (itemsView : StoredTurnItemsView) (source : SegmentFromCursor) (limit : Nat) :
    Except ThreadStoreError (List StoredTurnRow) := do
  let inSegment ← pushSegmentRange source.segment
  let newer ← (lineage.segments.drop (source.index + 1)).mapM fun newer => do
    return (newer.rolloutId, ← pushSegmentRange newer)
  let fromCursor ← pushCursorClause direction source.cursor
  let pageTurns := pushOrderAndLimit ThreadTurnsRow.rolloutOrdinal direction limit <|
    db.threadTurns.rows.filter fun turn =>
      turn.threadId = source.segment.rolloutId && inSegment turn.rolloutOrdinal &&
        notShadowed db newer turn.turnId && fromCursor turn.rolloutOrdinal
  pageTurns.mapM (readTurn json db itemsView source.segment.rolloutId inSegment)

def pageTurnRows (requestedThreadId : ThreadId) (lineage : RolloutLineage) (cursor : Option Text)
    (pageSize : Nat) (direction : SortDirection) (itemsView : StoredTurnItemsView) :
    Except ThreadStoreError (SegmentPage StoredTurnRow) :=
  pageRows json StoredTurnRow.position requestedThreadId .turns lineage cursor pageSize direction
    (fetchTurns json db lineage direction itemsView)

/-! ### Items -/

/-- The conditions of a request on the items: what has been changed since, and one turn only. -/
def itemFilter (params : ListItemsParams) : Except ThreadStoreError (ThreadItemsRow → Bool) :=
  let inTurn (item : ThreadItemsRow) : Bool := params.turnId.all (item.turnId = ·)
  match params.afterUpdatedAtOrdinal with
  | none => .ok inTurn
  | some watermark => do
    let watermark ← pagingInteger watermark
    return fun item => watermark < item.updatedAtOrdinal && inTurn item

def fetchItems (params : ListItemsParams) (source : SegmentFromCursor) (limit : Nat) :
    Except ThreadStoreError (List StoredThreadItemRow) := do
  let inSegment ← pushSegmentRange source.segment
  let asked ← itemFilter params
  let fromCursor ← pushCursorClause params.sortDirection source.cursor
  let pageItems := pushOrderAndLimit ThreadItemsRow.rolloutOrdinal params.sortDirection limit <|
    db.threadItems.rows.filter fun item =>
      item.threadId = source.segment.rolloutId && inSegment item.rolloutOrdinal && asked item &&
        fromCursor item.rolloutOrdinal
  pageItems.mapM fun item => storedThreadItemRow item.rolloutOrdinal item

/-- All items of a rollout, by their last change. -/
def pageUpdatedItemRows (rolloutId : ThreadId) (params : ListItemsParams) :
    Except ThreadStoreError (SegmentPage StoredThreadItemRow) := do
  let cursor ← parseCursor json params.cursor params.threadId .itemsByUpdatedAtOrdinal
  let asked ← itemFilter params
  let fromCursor ← pushCursorClause params.sortDirection cursor
  let limit ← remainingLimit params.pageSize 0
  let pageItems := pushOrderAndLimit ThreadItemsRow.updatedAtOrdinal params.sortDirection limit <|
    db.threadItems.rows.filter fun item =>
      item.threadId = rolloutId && asked item && fromCursor item.updatedAtOrdinal
  let rows ← pageItems.mapM fun item => storedThreadItemRow item.updatedAtOrdinal item
  finishPage json StoredThreadItemRow.position params.threadId .itemsByUpdatedAtOrdinal rows
    params.pageSize

def pageItemRows (params : ListItemsParams) :
    Except ThreadStoreError (SegmentPage StoredThreadItemRow) :=
  -- Update ordinals are local to a rollout.
  if params.afterUpdatedAtOrdinal.isSome && lineage.segments.length > 1 then
    .error (.invalidRequest "incremental item replay is not supported for forked threads".toList)
  else
    match params.sortKey with
    | .updatedAtOrdinal =>
      if params.afterUpdatedAtOrdinal.isNone then
        .error (.invalidRequest "update-ordinal item sorting requires an update watermark".toList)
      else
        match lineage.segments with
        | [segment] => pageUpdatedItemRows json db segment.rolloutId params
        | _ => .error (.internal "update-ordinal item paging requires one rollout segment".toList)
    | .createdAtOrdinal =>
      pageRows json StoredThreadItemRow.position params.threadId .itemsByCreatedAtOrdinal
        lineage params.cursor params.pageSize params.sortDirection (fetchItems db params)

end SushiGpt.ThreadStore
