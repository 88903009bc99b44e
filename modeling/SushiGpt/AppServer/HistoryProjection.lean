/-
What change sets are for: a projection of a thread's history that follows a builder.

The projection is two tables, turns by their id and items by the ids of their turn and their own.
A change set removes turns with their items, puts items and puts turns; whatever was put first
under a key keeps its place.
-/
import SushiGpt.AppServer.ThreadHistory

namespace SushiGpt.AppServer

structure HistoryProjection where
  turns : List (Text × ThreadHistoryTurnMetadata)
  items : List ((Text × Text) × ThreadItem)

namespace HistoryProjection

def empty : HistoryProjection := ⟨[], []⟩

variable (p : HistoryProjection)

def removeTurns (ids : List Text) : HistoryProjection where
  turns := p.turns.filter fun entry => !ids.contains entry.1
  items := p.items.filter fun entry => !ids.contains entry.1.1

def putItem (turnId : Text) (item : ThreadItem) : HistoryProjection :=
  { p with items := IndexMap.insert (turnId, item.id) item p.items }

def putTurn (turn : ThreadHistoryTurnMetadata) : HistoryProjection :=
  { p with turns := IndexMap.insert turn.turnId turn p.turns }

def apply (changes : ThreadHistoryChangeSet) : HistoryProjection :=
  let removed := p.removeTurns changes.removedTurnIds
  let withItems := changes.changedItems.foldl (fun p change => p.putItem change.turnId change.item)
    removed
  changes.changedTurns.foldl putTurn withItems

/-- The items of a turn, in the order in which they came. -/
def itemsOf (turnId : Text) : List ThreadItem :=
  (p.items.filter fun entry => entry.1.1 == turnId).map Prod.snd

def toTurns : List Turn :=
  p.turns.map fun (_, turn) =>
    { id := turn.turnId
      items := p.itemsOf turn.turnId
      error := turn.error
      status := turn.status
      startedAt := turn.startedAt
      completedAt := turn.completedAt
      durationMs := turn.durationMs }

end HistoryProjection

/-- A builder and a projection that gets its change sets, over a rollout. -/
def follow (ops : ItemOps) (items : List RolloutItem) : ThreadHistoryBuilder × HistoryProjection :=
  items.foldl
    (fun (b, p) item =>
      let (b, changes) := b.handleRolloutItemWithChanges ops item
      (b, p.apply changes))
    (.new, .empty)

end SushiGpt.AppServer
