/-
Cursors and rows of a history: the lower half of `thread-store/src/local/thread_history/read.rs`.
-/
import SushiGpt.ThreadStore.HistoryDb
import Mathlib.Data.List.Sort

namespace SushiGpt.ThreadStore

/-! ### Cursors -/

inductive CursorScope where
  | turns
  | itemsByCreatedAtOrdinal
  | itemsByUpdatedAtOrdinal
  deriving DecidableEq

structure HistoryCursor where
  requestedThreadId : ThreadId
  rolloutOrdinal : Nat
  includeAnchor : Bool
  scope : CursorScope

structure StoredTurnError where
  message : Text
  codexErrorInfo : Option Text
  additionalDetails : Option Text

/-- The JSON of what is read: a cursor is read as it was written, the error of a turn may not be
readable. -/
structure ReadJson where
  cursorToString : HistoryCursor → Text
  cursorFromStr : Text → Option HistoryCursor
  cursorFromStr_toString : ∀ cursor, cursorFromStr (cursorToString cursor) = some cursor
  errorFromStr : Text → Except Text StoredTurnError

def invalidCursor (cursor : Text) : ThreadStoreError :=
  .invalidRequest ("invalid cursor: ".toList ++ cursor)

def parseCursor (json : ReadJson) (cursor : Option Text) (requestedThreadId : ThreadId)
    (scope : CursorScope) : Except ThreadStoreError (Option HistoryCursor) :=
  match cursor with
  | none => .ok none
  | some cursor =>
    match json.cursorFromStr cursor with
    | none => .error (invalidCursor cursor)
    | some value =>
      if value.requestedThreadId ≠ requestedThreadId || value.scope ≠ scope then
        .error (invalidCursor cursor)
      else .ok (some value)

def serializeCursor (json : ReadJson) (requestedThreadId : ThreadId) (scope : CursorScope)
    (rolloutOrdinal : Int) (includeAnchor : Bool) : Except ThreadStoreError Text :=
  if rolloutOrdinal < 0 then .error (invalidCursor "negative rollout ordinal".toList)
  else .ok (json.cursorToString
    { requestedThreadId, rolloutOrdinal := rolloutOrdinal.toNat, includeAnchor, scope })

/-! ### Items -/

structure StoredThreadItem where
  turnId : Text
  itemId : Text
  updatedAtOrdinal : Nat
  createdAtMs : Int
  itemJson : Text

structure StoredThreadItemRow where
  position : Int
  item : StoredThreadItem

def storedUpdatedAtOrdinal (updatedAtOrdinal : Int) : Except ThreadStoreError Nat :=
  if updatedAtOrdinal < 0 then
    .error (.internal ("invalid stored item updated-at ordinal: ".toList ++
      (toString updatedAtOrdinal).toList))
  else .ok updatedAtOrdinal.toNat

def storedThreadItem (row : ThreadItemsRow) : Except ThreadStoreError StoredThreadItem := do
  let updatedAtOrdinal ← storedUpdatedAtOrdinal row.updatedAtOrdinal
  return { turnId := row.turnId, itemId := row.itemId, updatedAtOrdinal,
           createdAtMs := row.createdAtMs, itemJson := row.itemJson }

/-- A row with the ordinal that the query selects as `rollout_ordinal`. -/
def storedThreadItemRow (rolloutOrdinal : Int) (row : ThreadItemsRow) :
    Except ThreadStoreError StoredThreadItemRow := do
  if rolloutOrdinal < 0 then
    throw (.internal ("invalid stored item rollout ordinal: ".toList ++
      (toString rolloutOrdinal).toList))
  return { position := rolloutOrdinal, item := ← storedThreadItem row }

/-! ### Turns -/

inductive StoredTurnStatus where
  | completed
  | interrupted
  | failed
  | inProgress
  deriving Inhabited

structure StoredTurnRow where
  position : Int
  turnId : Text
  status : StoredTurnStatus
  error : Option StoredTurnError
  startedAt : Option Int
  completedAt : Option Int
  durationMs : Option Int
  firstUserItemId : Option Text
  finalAgentItemId : Option Text
  summaryItems : List StoredThreadItem
  deriving Inhabited

def storedTurnStatus (status : Text) : Except ThreadStoreError StoredTurnStatus :=
  if status = "completed".toList then .ok .completed
  else if status = "interrupted".toList then .ok .interrupted
  else if status = "failed".toList then .ok .failed
  else if status = "inProgress".toList then .ok .inProgress
  else .error (.internal ("unknown stored turn status: ".toList ++ status))

def storedTurnError (json : ReadJson) :
    Option Text → Except ThreadStoreError (Option StoredTurnError)
  | none => .ok none
  | some errorJson =>
    match json.errorFromStr errorJson with
    | .ok error => .ok (some error)
    | .error err => .error (threadHistoryError err)

def storedTurnRow (json : ReadJson) (row : ThreadTurnsRow) :
    Except ThreadStoreError StoredTurnRow := do
  let status ← storedTurnStatus row.status
  let error ← storedTurnError json row.errorJson
  return { position := row.rolloutOrdinal, turnId := row.turnId, status, error,
           startedAt := row.startedAt, completedAt := row.completedAt,
           durationMs := row.durationMs, firstUserItemId := row.firstUserItemId,
           finalAgentItemId := row.finalAgentItemId, summaryItems := [] }

/-- The columns of one of the two joins of a summary, if it found a row: the columns of an item
are never null. -/
def StoredSummaryItemColumns.intoStoredItem :
    Option ThreadItemsRow → Except ThreadStoreError (Option (Int × StoredThreadItem))
  | none => .ok none
  | some row => do return some (row.rolloutOrdinal, ← storedThreadItem row)

/-- The items of a summary, in the order of the rollout. -/
def StoredSummaryColumns.intoStoredItems (firstUser finalAgent : Option ThreadItemsRow) :
    Except ThreadStoreError (List StoredThreadItem) := do
  let firstUser ← StoredSummaryItemColumns.intoStoredItem firstUser
  let finalAgent ← StoredSummaryItemColumns.intoStoredItem finalAgent
  let summaryItems := firstUser.toList ++ finalAgent.toList
  return (summaryItems.insertionSort fun a b => a.1 ≤ b.1).map Prod.snd

end SushiGpt.ThreadStore
