/-
A live session's history and the rollout it writes.

Every operation on the history persists what a later resume needs.  Only an update of the world
state and a compaction write world-state records; a replacement of the items and the removal of
the first one clear the baseline and write nothing.
-/
import SushiGpt.Core.RolloutReconstruction

namespace SushiGpt.Core

/-- The history in memory and the records persisted so far. -/
structure LiveHistory where
  history : ContextManager
  rollout : List RolloutItem

def LiveHistory.new : LiveHistory := ⟨.new, []⟩

/-- What a compaction records beside the items that replace the history. -/
structure CompactedHistoryMetadata where
  message : Text
  windowNumber : Nat
  firstWindowId : Text
  previousWindowId : Option Text
  windowId : Text

inductive HistoryOp where
  /-- The world state of a new step. -/
  | updateWorldState (state : WorldState)
  | recordConversationItems (items : List ResponseItemEnvelope)
  /-- A compaction, which may set a new baseline at once. -/
  | replaceCompactedHistory (items : List ResponseItemEnvelope)
      (worldStateBaseline : Option WorldState) (metadata : CompactedHistoryMetadata)
  | replaceAnnotated (items : List ResponseItemEnvelope)
  | removeFirstItem

namespace LiveHistory

def persist (live : LiveHistory) (items : List RolloutItem) : LiveHistory :=
  { live with rollout := live.rollout ++ items }

def replaceCompactedHistory (live : LiveHistory) (items : List ResponseItemEnvelope)
    (worldStateBaseline : Option WorldState) (metadata : CompactedHistoryMetadata) : LiveHistory :=
  let compacted : CompactedItem :=
    { message := metadata.message
      replacementHistory := some items
      windowNumber := some metadata.windowNumber
      firstWindowId := some metadata.firstWindowId
      previousWindowId := metadata.previousWindowId
      windowId := some metadata.windowId }
  let replaced := { live with history := live.history.replaceCompacted items }
  match worldStateBaseline with
  | some state =>
    -- The baseline is persisted after the history that established it.
    { replaced with history := replaced.history.setWorldStateBaseline state.snapshot }.persist
      [.compacted compacted, .worldState ⟨true, state.snapshot.intoObject⟩]
  | none => replaced.persist [.compacted compacted]

def step (context : ReplayContext) (live : LiveHistory) : HistoryOp → LiveHistory
  | .updateWorldState state =>
    let (history, rolloutItem) := live.history.updateWorldState state
    { live with history }.persist (rolloutItem.map RolloutItem.worldState).toList
  | .recordConversationItems items =>
    { live with
      history := live.history.recordAnnotatedItems context.reading context.truncationPolicy
        items }.persist (items.map RolloutItem.responseItem)
  | .replaceCompactedHistory items worldStateBaseline metadata =>
    live.replaceCompactedHistory items worldStateBaseline metadata
  | .replaceAnnotated items => { live with history := live.history.replaceAnnotated items }
  | .removeFirstItem => { live with history := live.history.removeFirstItem }

def run (context : ReplayContext) (live : LiveHistory) (ops : List HistoryOp) : LiveHistory :=
  ops.foldl (step context) live

end LiveHistory

end SushiGpt.Core
