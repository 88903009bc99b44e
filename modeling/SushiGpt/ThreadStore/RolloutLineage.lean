/-
The rollouts a thread's history is made of: `thread-store/src/local/rollout_lineage.rs`.

A fork's rollout continues those of its ancestors.  Each contributes the lines of a range of
ordinals; the last one, the thread's own, has no end.
-/
import SushiGpt.ThreadStore.HistoryDb

namespace SushiGpt.ThreadStore

/-- A place in a rollout, behind a line. -/
structure HistoryPosition where
  threadId : ThreadId
  endOrdinalExclusive : Nat
  endByteOffset : Nat

structure RolloutLineageSegment where
  rolloutId : ThreadId
  startOrdinal : Nat
  endPosition : Option HistoryPosition
  deriving Inhabited

def RolloutLineageSegment.endOrdinal (segment : RolloutLineageSegment) : Option Nat :=
  segment.endPosition.map HistoryPosition.endOrdinalExclusive

structure RolloutLineage where
  segments : List RolloutLineageSegment

def RolloutLineage.segmentIndexForOrdinal (lineage : RolloutLineage) (ordinal : Nat) : Option Nat :=
  lineage.segments.findIdx? fun segment =>
    segment.startOrdinal ≤ ordinal && segment.endOrdinal.all fun endOrdinal => ordinal < endOrdinal

end SushiGpt.ThreadStore
