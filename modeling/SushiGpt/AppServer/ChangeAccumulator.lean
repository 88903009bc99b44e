/-
The changes of a batch as one change set: `ThreadHistoryChangeAccumulator` of
`app-server-protocol/src/protocol/thread_history.rs`.

The hash maps into the sparse vectors are `Slots`; which key of a map comes first does not matter.
`removed_turn_indexes` has the keys that are in `removed_turn_ids`, and is read only for that.
-/
import SushiGpt.AppServer.HistoryProjection
import SushiGpt.Lib.Slots

namespace SushiGpt.AppServer

structure ThreadHistoryChangeAccumulator where
  changedItems : Slots (Text × Text) ThreadHistoryItemChange
  changedTurns : Slots Text ThreadHistoryTurnMetadata
  removedTurnIds : List Text

namespace ThreadHistoryChangeAccumulator

def new : ThreadHistoryChangeAccumulator := ⟨.empty, .empty, []⟩

variable (accumulator : ThreadHistoryChangeAccumulator)

def pushItemChange (change : ThreadHistoryItemChange) : ThreadHistoryChangeAccumulator :=
  { accumulator with
    changedItems := accumulator.changedItems.push (change.turnId, change.item.id) change }

def pushTurnChange (change : ThreadHistoryTurnMetadata) : ThreadHistoryChangeAccumulator :=
  { accumulator with changedTurns := accumulator.changedTurns.push change.turnId change }

def pushRemovedTurnId (turnId : Text) : ThreadHistoryChangeAccumulator :=
  let removedItemKeys :=
    (accumulator.changedItems.indexes.map Prod.fst).filter fun key => key.1 = turnId
  { changedItems := removedItemKeys.foldl Slots.remove accumulator.changedItems
    changedTurns := accumulator.changedTurns.remove turnId
    removedTurnIds :=
      if turnId ∈ accumulator.removedTurnIds then accumulator.removedTurnIds
      else accumulator.removedTurnIds ++ [turnId] }

def push (changes : ThreadHistoryChangeSet) : ThreadHistoryChangeAccumulator :=
  let removed := changes.removedTurnIds.foldl pushRemovedTurnId accumulator
  changes.changedTurns.foldl pushTurnChange (changes.changedItems.foldl pushItemChange removed)

def finish : ThreadHistoryChangeSet :=
  ⟨accumulator.changedItems.values, accumulator.changedTurns.values, accumulator.removedTurnIds⟩

end ThreadHistoryChangeAccumulator

def ThreadHistoryBuilder.handleRolloutItemsWithChanges (ops : ItemOps) (b : ThreadHistoryBuilder)
    (items : List RolloutItem) : ThreadHistoryBuilder × ThreadHistoryChangeSet :=
  let (b, accumulator) := items.foldl
    (fun (b, accumulator) item =>
      let (b, changes) := b.handleRolloutItemWithChanges ops item
      (b, accumulator.push changes))
    (b, ThreadHistoryChangeAccumulator.new)
  (b, accumulator.finish)

end SushiGpt.AppServer
