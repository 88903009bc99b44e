/-
The bounded scan for the latest model context.

A storage reader feeds records newest first until the scan has seen a usable compaction and a
completed turn that supplies the resume metadata; the records collected by then, behind the head
of the rollout, are to reconstruct as the whole rollout does.  A rollback marker, or a compaction
without replacement history or window number, makes the scan go to the start.
-/
import SushiGpt.Core.RolloutReconstruction

namespace SushiGpt.Core

inductive ModelContextScanProgress where
  | continue
  | complete

/-- What the scan knows of the turn it is in. -/
structure ActiveTurnSegment where
  turnId : Option Text := none
  hasUserTurn : Bool := false
  hasTurnContext : Bool := false
  hasFullWorldState : Bool := false
  sawCompaction : Bool := false

structure ModelContextScan where
  itemsNewestFirst : List RolloutItem := []
  sawCompaction : Bool := false
  sawCompletedTurnContext : Bool := false
  mustScanToStart : Bool := false
  activeSegment : ActiveTurnSegment := {}

/-- A raw message of the user does not count: context fragments have the same role. -/
def responseItemCountsAsUserTurn (reading : Reading) (envelope : ResponseItemEnvelope) : Bool :=
  match envelope.item with
  | .agentMessage .. => true
  | .message _ role content _ _ =>
    role == "assistant".toList && reading.isMessageContent content
  | _ => false

namespace ModelContextScan

variable (reading : Reading) (scan : ModelContextScan)

def hasBoundedCutoff : Bool :=
  !scan.mustScanToStart && scan.sawCompaction && scan.sawCompletedTurnContext

def finalizeActiveSegment : ModelContextScan :=
  { scan with
    sawCompletedTurnContext :=
      scan.sawCompletedTurnContext ||
        (scan.activeSegment.hasTurnContext &&
          (scan.activeSegment.hasUserTurn || scan.activeSegment.hasFullWorldState))
    activeSegment := {} }

def withSegment (change : ActiveTurnSegment → ActiveTurnSegment) : ModelContextScan :=
  { scan with activeSegment := change scan.activeSegment }

/-- What a record changes, the scan not being bound to go to the start. -/
def note : RolloutItem → ModelContextScan
  | .compacted compacted =>
    if compacted.replacementHistory.isNone || compacted.windowNumber.isNone then
      { scan with mustScanToStart := true }
    else
      { scan with
        sawCompaction := true
        activeSegment := { scan.activeSegment with sawCompaction := true } }
  | .eventMsg (.threadRolledBack _) => { scan with mustScanToStart := true }
  | .eventMsg (.itemCompleted turnId item) =>
    scan.withSegment fun segment =>
      let segment := { segment with turnId := segment.turnId.or (some turnId) }
      if turnIdsAreCompatible segment.turnId (some turnId) then
        { segment with hasUserTurn := segment.hasUserTurn || item.isUserMessage }
      else segment
  | .eventMsg (.turnComplete turnId) =>
    scan.withSegment fun segment => { segment with turnId := segment.turnId.or (some turnId) }
  | .eventMsg (.turnAborted turnId) =>
    scan.withSegment fun segment => { segment with turnId := segment.turnId.or turnId }
  | .eventMsg (.turnStarted turnId) =>
    if turnIdsAreCompatible scan.activeSegment.turnId (some turnId) then
      scan.finalizeActiveSegment
    else scan
  | .turnContext context =>
    scan.withSegment fun segment =>
      let segment := { segment with turnId := segment.turnId.or context.turnId }
      if turnIdsAreCompatible segment.turnId context.turnId then
        { segment with hasTurnContext := true }
      else segment
  | .responseItem envelope =>
    scan.withSegment fun segment =>
      { segment with
        hasUserTurn :=
          segment.hasUserTurn || responseItemCountsAsUserTurn reading envelope }
  | .interAgentCommunication _ =>
    scan.withSegment fun segment => { segment with hasUserTurn := true }
  | .eventMsg (.userMessage _) =>
    scan.withSegment fun segment => { segment with hasUserTurn := true }
  | .worldState state =>
    scan.withSegment fun segment =>
      { segment with
        hasFullWorldState :=
          segment.hasFullWorldState || (state.full && !segment.sawCompaction) }
  | _ => scan

def observe (item : RolloutItem) : ModelContextScan × ModelContextScanProgress :=
  if scan.mustScanToStart then (scan, .continue)
  else
    let scan := scan.note reading item
    (scan, if scan.hasBoundedCutoff then .complete else .continue)

/-- Adds the next older record and says whether the reader can stop. -/
def push (item : RolloutItem) : ModelContextScan × ModelContextScanProgress :=
  let (scan, progress) := scan.observe reading item
  ({ scan with itemsNewestFirst := scan.itemsNewestFirst ++ [item] }, progress)

/-- The reader: feeds the records, newest first, until the scan is complete. -/
def feed (reading : Reading) (scan : ModelContextScan) : List RolloutItem → ModelContextScan
  | [] => scan
  | item :: older =>
    match scan.push reading item with
    | (scan, .complete) => scan
    | (scan, .continue) => scan.feed reading older

/-- The collected records, oldest first, behind the head when the scan stopped before it. -/
def finish (sessionMeta : SessionMeta) : List RolloutItem :=
  if scan.hasBoundedCutoff then .sessionMeta sessionMeta :: scan.itemsNewestFirst.reverse
  else scan.itemsNewestFirst.reverse

end ModelContextScan

/-- The records a resume loads of a rollout with the given head. -/
def loadModelContext (reading : Reading) (head : SessionMeta) (items : List RolloutItem) :
    List RolloutItem :=
  (ModelContextScan.feed reading {} items.reverse).finish head

end SushiGpt.Core
