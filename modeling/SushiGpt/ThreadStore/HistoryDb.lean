/-
The SQLite database of thread histories: `state/thread_history_migrations`.

A thread's turns and items are projected from its rollout.  The rows of a table have the thread's
id, the ordinal of the rollout line they come from, which no other row of that thread's has, and
what the line says.  A fork reads the rows of the rollouts it inherits.
-/
import SushiGpt.Lib.Table
import SushiGpt.Lib.Text

namespace SushiGpt.ThreadStore

abbrev ThreadId := Text

inductive ThreadStoreError where
  | invalidRequest (message : Text)
  | unsupported (operation : Text)
  | internal (message : Text)
  /-- An index out of bounds. -/
  | panicked

def threadHistoryError (err : Text) : ThreadStoreError :=
  .internal ("failed to access thread history: ".toList ++ err)

/-! ### Tables -/

structure ThreadTurnsRow where
  threadId : ThreadId
  turnId : Text
  /-- The line that began the turn. -/
  rolloutOrdinal : Int
  rolloutByteOffset : Option Int
  /-- The line that ended it. -/
  rolloutEndOrdinal : Option Int
  rolloutEndByteOffset : Option Int
  status : Text
  errorJson : Option Text
  startedAt : Option Int
  completedAt : Option Int
  durationMs : Option Int
  firstUserItemId : Option Text
  finalAgentItemId : Option Text

structure ThreadItemsRow where
  threadId : ThreadId
  turnId : Text
  itemId : Text
  /-- The line that brought the item. -/
  rolloutOrdinal : Int
  /-- The line that changed it last. -/
  updatedAtOrdinal : Int
  createdAtMs : Int
  itemType : Text
  itemJson : Text

structure ThreadRealtimeItemsRow where
  threadId : ThreadId
  itemId : Text
  rolloutOrdinal : Int
  createdAtMs : Int
  itemType : Text
  itemJson : Text

/-- A row of `thread_history_projection_state`: what of a rollout has been projected. -/
structure ProjectionStateRow where
  threadId : ThreadId
  nextRolloutByteOffset : Int
  nextRolloutOrdinal : Int

def ThreadTurnsRow.key (row : ThreadTurnsRow) : ThreadId × Text := (row.threadId, row.turnId)

def ThreadTurnsRow.page (row : ThreadTurnsRow) : ThreadId × Int :=
  (row.threadId, row.rolloutOrdinal)

def ThreadItemsRow.key (row : ThreadItemsRow) : ThreadId × Text × Text :=
  (row.threadId, row.turnId, row.itemId)

def ThreadItemsRow.page (row : ThreadItemsRow) : ThreadId × Int :=
  (row.threadId, row.rolloutOrdinal)

def ThreadRealtimeItemsRow.key (row : ThreadRealtimeItemsRow) : ThreadId × Text :=
  (row.threadId, row.itemId)

def ThreadRealtimeItemsRow.page (row : ThreadRealtimeItemsRow) : ThreadId × Int :=
  (row.threadId, row.rolloutOrdinal)

structure HistoryDb where
  threadTurns : Table ThreadTurnsRow ThreadTurnsRow.key ThreadTurnsRow.page
  threadItems : Table ThreadItemsRow ThreadItemsRow.key ThreadItemsRow.page
  threadRealtimeItems :
    Table ThreadRealtimeItemsRow ThreadRealtimeItemsRow.key ThreadRealtimeItemsRow.page
  projectionState : Table ProjectionStateRow ProjectionStateRow.threadId ProjectionStateRow.threadId

def HistoryDb.empty : HistoryDb := ⟨.empty, .empty, .empty, .empty⟩

end SushiGpt.ThreadStore
