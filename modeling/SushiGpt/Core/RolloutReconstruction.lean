/-
Rebuilding a thread from its rollout.

The records are scanned newest first.  They gather in segments, each closed by the `TurnStarted`
of its turn; a rollback marker makes the scan skip the next segments that hold a user turn.  The
scan stops when the newest surviving compaction with a replacement history and the settings of
the newest surviving turn are known.  What the history then needs is the replay of the records
after that compaction.
-/
import SushiGpt.Core.ContextManager
import SushiGpt.Core.Rollout
import SushiGpt.Lib.Usize

namespace SushiGpt.Core

structure PreviousTurnSettings where
  model : Text
  compHash : Option Text
  realtimeActive : Option Bool

structure ReconstructedWindow where
  number : Nat
  firstId : Option Text
  previousId : Option Text
  id : Option Text

inductive TurnReferenceContextItem where
  /-- No context was seen in this span. -/
  | neverSet
  /-- A baseline was invalidated by a later compaction. -/
  | cleared
  | latest (item : TurnContextItem)
  deriving DecidableEq

def TurnReferenceContextItem.isNeverSet : TurnReferenceContextItem → Bool
  | .neverSet => true
  | _ => false

/-- A compaction with a replacement history and the records after it. -/
structure ReplayCheckpoint where
  compacted : CompactedItem
  suffix : List RolloutItem

/-- The records of the turn that the scan is in. -/
structure ActiveReplaySegment where
  turnId : Option Text := none
  countsAsUserTurn : Bool := false
  previousTurnSettings : Option PreviousTurnSettings := none
  referenceContextItem : TurnReferenceContextItem := .neverSet
  /-- Newest first. -/
  worldStateReplay : List RolloutItem := []
  baseCompaction : Option ReplayCheckpoint := none
  window : Option ReconstructedWindow := none

structure ReverseScan where
  baseCompaction : Option ReplayCheckpoint := none
  previousTurnSettings : Option PreviousTurnSettings := none
  referenceContextItem : TurnReferenceContextItem := .neverSet
  /-- Newest first. -/
  worldStateReplay : List RolloutItem := []
  window : Option ReconstructedWindow := none
  pendingRollbackTurns : Nat := 0
  activeSegment : Option ActiveReplaySegment := none

structure RolloutReconstruction where
  history : List ResponseItemEnvelope
  previousTurnSettings : Option PreviousTurnSettings
  referenceContextItem : Option TurnContextItem
  worldStateBaseline : Option WorldStateSnapshot
  windowNumber : Nat
  firstWindowId : Option Text
  previousWindowId : Option Text
  windowId : Option Text

/-- What the session that resumes brings: how it reads texts, the truncation policy of its
model, whether compacted messages keep their ids, and how it parses window ids. -/
structure ReplayContext where
  reading : Reading
  truncationPolicy : TruncationPolicy
  identity : CompactedMessageIdentity
  parseUuidV7 : Text → Option Text

def turnIdsAreCompatible (activeTurnId itemTurnId : Option Text) : Bool :=
  activeTurnId.all fun turnId => itemTurnId.all fun itemTurnId => itemTurnId == turnId

/-! ### Segments -/

def RolloutItem.isCompacted : RolloutItem → Bool
  | .compacted _ => true
  | _ => false

def RolloutItem.isFullWorldState : RolloutItem → Bool
  | .worldState state => state.full
  | _ => false

/-- The segment establishes context: it holds a user turn, or a full world state newer than its
latest compaction. -/
def ActiveReplaySegment.hasContextBaseline (segment : ActiveReplaySegment) : Bool :=
  segment.countsAsUserTurn ||
    (segment.worldStateReplay.takeWhile fun item => !item.isCompacted).any
      RolloutItem.isFullWorldState

variable (context : ReplayContext) (scan : ReverseScan)

def finalizeActiveSegment (segment : ActiveReplaySegment) : ReverseScan :=
  if 0 < scan.pendingRollbackTurns then
    { scan with
      pendingRollbackTurns :=
        if segment.countsAsUserTurn then scan.pendingRollbackTurns - 1
        else scan.pendingRollbackTurns }
  else
    { scan with
      worldStateReplay := scan.worldStateReplay ++ segment.worldStateReplay
      baseCompaction := scan.baseCompaction.or segment.baseCompaction
      window := scan.window.or segment.window
      previousTurnSettings :=
        if scan.previousTurnSettings.isNone && segment.hasContextBaseline then
          segment.previousTurnSettings
        else scan.previousTurnSettings
      referenceContextItem :=
        if scan.referenceContextItem.isNeverSet &&
            (segment.hasContextBaseline || segment.referenceContextItem = .cleared) then
          segment.referenceContextItem
        else scan.referenceContextItem }

/-! ### The scan -/

/-- Changes the active segment, which starts empty when there is none. -/
def ReverseScan.withSegment (change : ActiveReplaySegment → ActiveReplaySegment) : ReverseScan :=
  { scan with activeSegment := some (change (scan.activeSegment.getD {})) }

def ActiveReplaySegment.observeCompacted (parseUuidV7 : Text → Option Text)
    (compacted : CompactedItem) (suffix : List RolloutItem) (segment : ActiveReplaySegment) :
    ActiveReplaySegment :=
  { segment with
    worldStateReplay := segment.worldStateReplay ++ [.compacted compacted]
    window := segment.window.or (compacted.windowNumber.map fun number =>
      { number
        firstId := compacted.firstWindowId.bind parseUuidV7
        previousId := compacted.previousWindowId.bind parseUuidV7
        id := compacted.windowId.bind parseUuidV7 })
    referenceContextItem :=
      if segment.referenceContextItem.isNeverSet then .cleared else segment.referenceContextItem
    baseCompaction := segment.baseCompaction.or
      (if compacted.replacementHistory.isSome then some ⟨compacted, suffix⟩ else none) }

def ActiveReplaySegment.observeTurnContext (context : TurnContextItem)
    (segment : ActiveReplaySegment) : ActiveReplaySegment :=
  let segment := { segment with turnId := segment.turnId.or context.turnId }
  if turnIdsAreCompatible segment.turnId context.turnId then
    { segment with
      previousTurnSettings := some ⟨context.model, context.compHash, context.realtimeActive⟩
      referenceContextItem :=
        if segment.referenceContextItem.isNeverSet then .latest context
        else segment.referenceContextItem }
  else segment

/-- One record of the scan; `suffix` are the records after it. -/
def ReverseScan.observe (item : RolloutItem) (suffix : List RolloutItem) : ReverseScan :=
  match item with
  | .compacted compacted =>
    scan.withSegment (·.observeCompacted context.parseUuidV7 compacted suffix)
  | .eventMsg (.threadRolledBack numTurns) =>
    { scan with
      pendingRollbackTurns := saturatingAdd scan.pendingRollbackTurns numTurns }
  | .eventMsg (.turnComplete turnId) =>
    scan.withSegment fun segment => { segment with turnId := segment.turnId.or (some turnId) }
  | .eventMsg (.turnAborted turnId) =>
    match scan.activeSegment with
    | some segment =>
      { scan with activeSegment := some { segment with turnId := segment.turnId.or turnId } }
    | none =>
      match turnId with
      | some turnId =>
        { scan with activeSegment := some ({ turnId := some turnId } : ActiveReplaySegment) }
      | none => scan
  | .eventMsg (.userMessage _) =>
    scan.withSegment fun segment => { segment with countsAsUserTurn := true }
  | .turnContext turnContext => scan.withSegment (·.observeTurnContext turnContext)
  | .worldState state =>
    scan.withSegment fun segment =>
      { segment with worldStateReplay := segment.worldStateReplay ++ [.worldState state] }
  | .eventMsg (.turnStarted turnId) =>
    match scan.activeSegment with
    | some segment =>
      if turnIdsAreCompatible segment.turnId (some turnId) then
        finalizeActiveSegment { scan with activeSegment := none } segment
      else scan
    | none => scan
  | .responseItem envelope =>
    scan.withSegment fun segment =>
      { segment with
        countsAsUserTurn :=
          segment.countsAsUserTurn || context.reading.isUserTurnBoundary envelope.item }
  | .interAgentCommunication _ =>
    scan.withSegment fun segment => { segment with countsAsUserTurn := true }
  | _ => scan

/-- Older records cannot change the result. -/
def ReverseScan.isComplete : Bool :=
  scan.baseCompaction.isSome && scan.previousTurnSettings.isSome &&
    !scan.referenceContextItem.isNeverSet

/-- The loop, over the records newest first. -/
def ReverseScan.run (context : ReplayContext) (scan : ReverseScan) (suffix : List RolloutItem) :
    List RolloutItem → ReverseScan
  | [] => scan
  | item :: older =>
    let scan := scan.observe context item suffix
    if scan.isComplete then scan else scan.run context (item :: suffix) older

/-- The oldest segment has no `TurnStarted` to close it. -/
def ReverseScan.close : ReverseScan :=
  match scan.activeSegment with
  | some segment => finalizeActiveSegment { scan with activeSegment := none } segment
  | none => scan

/-! ### The replay -/

structure HistoryReplay where
  history : ContextManager
  sawLegacyCompaction : Bool

/-- The history that a compaction without a replacement history leaves. -/
def rebuildCompacted (history : ContextManager) (compacted : CompactedItem) : ContextManager :=
  let userMessages :=
    collectAnnotatedUserMessages context.reading history.items context.identity
  history.replaceAnnotated (buildCompactedHistory context.reading userMessages compacted.message)

def HistoryReplay.observe (replay : HistoryReplay) : RolloutItem → HistoryReplay
  | .responseItem envelope =>
    { replay with
      history := replay.history.recordAnnotatedItems context.reading context.truncationPolicy
        [envelope] }
  | .interAgentCommunication communication =>
    { replay with
      history := replay.history.recordItems context.reading context.truncationPolicy
        [communication.toModelInputItem] }
  | .compacted compacted =>
    -- A newer replacement history belongs to a turn that was rolled back.
    match compacted.replacementHistory with
    | none =>
      { history := rebuildCompacted context replay.history compacted
        sawLegacyCompaction := true }
    | some _ => replay
  | .eventMsg (.threadRolledBack numTurns) =>
    { replay with
      history := replay.history.dropLastNUserTurns context.reading numTurns }
  | _ => replay

def replayWorldState (baseline : Option WorldStateSnapshot) :
    RolloutItem → Option WorldStateSnapshot
  | .compacted _ => none
  | .worldState state =>
    if state.full then some (.ofState state.state)
    else baseline.map (·.applyMergePatch state.state)
  | _ => baseline

/-! ### Windows -/

def reconstructedWindowFromSessionContextWindow (parseUuidV7 : Text → Option Text)
    (windowId : Text) : Option ReconstructedWindow :=
  (parseUuidV7 windowId).map fun id =>
    { number := 0, firstId := some id, previousId := none, id := some id }

def hasLegacyCompactionWithoutWindowNumber (items : List RolloutItem) : Bool :=
  items.any fun
    | .compacted compacted => compacted.windowNumber.isNone
    | _ => false

def initialWindow (parseUuidV7 : Text → Option Text) (items : List RolloutItem) :
    Option ReconstructedWindow :=
  if hasLegacyCompactionWithoutWindowNumber items then none
  else
    items.findSome? fun
      | .sessionMeta line =>
        line.contextWindow.bind (reconstructedWindowFromSessionContextWindow parseUuidV7)
      | _ => none

def fallbackWindowNumber (items : List RolloutItem) : Nat :=
  (items.filter RolloutItem.isCompacted).length

def reconstructHistoryFromRollout (items : List RolloutItem) : RolloutReconstruction :=
  let scan := (ReverseScan.run context {} [] items.reverse).close
  let start :=
    match scan.baseCompaction.bind (·.compacted.replacementHistory) with
    | some replacement => ContextManager.new.replaceAnnotated replacement
    | none => ContextManager.new
  let suffix := (scan.baseCompaction.map (·.suffix)).getD items
  let replay := suffix.foldl (HistoryReplay.observe context) ⟨start, false⟩
  let referenceContextItem :=
    match scan.referenceContextItem with
    | .latest item => if replay.sawLegacyCompaction then none else some item
    | _ => none
  let window :=
    (scan.window.or (initialWindow context.parseUuidV7 items)).getD
      { number := fallbackWindowNumber items, firstId := none, previousId := none, id := none }
  { history := replay.history.items
    previousTurnSettings := scan.previousTurnSettings
    referenceContextItem
    worldStateBaseline := scan.worldStateReplay.reverse.foldl replayWorldState none
    windowNumber := window.number
    firstWindowId := window.firstId
    previousWindowId := window.previousId
    windowId := window.id }

end SushiGpt.Core
