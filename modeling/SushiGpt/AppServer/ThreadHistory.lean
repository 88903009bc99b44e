/-
Thread history: `app-server-protocol/src/protocol/thread_history.rs`.

A rollout is reduced to turns with their items.  The builder keeps the turns that are finished
and the one that is open; a turn is opened by an event that names it, by a review that names an
unknown one, or by the first item that needs a turn.  With changes tracked, handling one rollout
item also yields the items and the turns that it changed, and the turns that it removed, so that
a projection can follow without rebuilding.

The items of a turn are found by id, through an index that is only made for long turns.
-/
import SushiGpt.AppServer.ThreadItem
import SushiGpt.Lib.IndexMap
import SushiGpt.Lib.Lists

namespace SushiGpt.AppServer

/-! ### Events -/

inductive CodexErrorInfo where
  | threadRollbackFailed
  | activeTurnNotSteerable (turnKind : Text)
  /-- Every other kind of error. -/
  | other (payload : Text)

def CodexErrorInfo.affectsTurnStatus : CodexErrorInfo → Bool
  | threadRollbackFailed | activeTurnNotSteerable _ => false
  | other _ => true

structure ErrorEvent where
  message : Text
  codexErrorInfo : Option CodexErrorInfo
  misalignment : Option Text

def ErrorEvent.affectsTurnStatus (payload : ErrorEvent) : Bool :=
  payload.codexErrorInfo.all CodexErrorInfo.affectsTurnStatus

structure EnteredReviewModeEvent where
  userFacingHint : Option Text
  turnId : Option Text
  itemId : Option Text

structure ExitedReviewModeEvent where
  turnId : Option Text
  itemId : Option Text
  reviewOutput : Option Text

structure TurnStartedEvent where
  turnId : Text
  rootTurnId : Option Text
  startedAt : Option Int

structure TurnCompleteEvent where
  turnId : Text
  error : Option ErrorEvent
  completedAt : Option Int
  durationMs : Option Int

structure TurnAbortedEvent where
  turnId : Option Text
  completedAt : Option Int
  durationMs : Option Int

inductive EventMsg where
  | userMessage (payload : UserMessageEvent)
  | agentMessage (message carried : Text)
  | agentReasoning (text : Text)
  | agentReasoningRawContent (text : Text)
  | webSearchBegin (callId : Text)
  | webSearchEnd (payload : WebSearchEndEvent)
  | execCommandBegin (payload : ExecCommandBeginEvent)
  | execCommandEnd (payload : ExecCommandEndEvent)
  | guardianAssessment (payload : GuardianAssessmentEvent)
  | applyPatchApprovalRequest (payload : PatchEvent)
  | patchApplyBegin (payload : PatchEvent)
  | patchApplyEnd (payload : PatchApplyEndEvent)
  | dynamicToolCallRequest (payload : DynamicToolCallRequest)
  | dynamicToolCallResponse (payload : DynamicToolCallResponseEvent)
  | mcpToolCallBegin (payload : McpToolCallBeginEvent)
  | mcpToolCallEnd (payload : McpToolCallEndEvent)
  | viewImageToolCall (callId path : Text)
  | imageGenerationBegin (callId : Text)
  | imageGenerationEnd (payload : ImageGenerationEndEvent)
  | collabAgentSpawnBegin (payload : CollabAgentSpawnBeginEvent)
  | collabAgentSpawnEnd (payload : CollabAgentSpawnEndEvent)
  | collabAgentInteractionBegin (payload : CollabCallBeginEvent) (prompt : Text)
  | collabAgentInteractionEnd (payload : CollabCallEndEvent) (prompt : Text)
  | subAgentActivity (eventId kind agentThreadId agentPath : Text)
  | collabWaitingBegin (payload : CollabWaitingBeginEvent)
  | collabWaitingEnd (payload : CollabWaitingEndEvent)
  | collabCloseBegin (payload : CollabCallBeginEvent)
  | collabCloseEnd (payload : CollabCallEndEvent)
  | collabResumeBegin (payload : CollabCallBeginEvent)
  | collabResumeEnd (payload : CollabCallEndEvent)
  | contextCompacted
  | enteredReviewMode (payload : EnteredReviewModeEvent)
  | exitedReviewMode (payload : ExitedReviewModeEvent)
  | itemStarted (turnId : Text) (item : TurnItem)
  | itemCompleted (turnId : Text) (item : TurnItem)
  | error (payload : ErrorEvent)
  | threadRolledBack (numTurns : Nat)
  | turnAborted (payload : TurnAbortedEvent)
  | turnStarted (payload : TurnStartedEvent)
  | turnComplete (payload : TurnCompleteEvent)
  /-- Hooks, token counts and everything else that leaves no trace in the history. -/
  | other

inductive RolloutItem where
  | eventMsg (event : EventMsg)
  | compacted
  | responseItem (item : Core.ResponseItem)
  /-- Items that are passed over. -/
  | other

/-! ### Turns -/

inductive TurnStatus where
  | completed
  | interrupted
  | failed
  | inProgress
  deriving DecidableEq

structure TurnError where
  message : Text
  codexErrorInfo : Option CodexErrorInfo
  additionalDetails : Option Text
  misalignment : Option Text

def TurnError.ofEvent (payload : ErrorEvent) : TurnError where
  message := payload.message
  codexErrorInfo := payload.codexErrorInfo
  additionalDetails := none
  misalignment := payload.misalignment

/-- A turn with all of its items. -/
structure Turn where
  id : Text
  items : List ThreadItem
  error : Option TurnError
  status : TurnStatus
  startedAt : Option Int
  completedAt : Option Int
  durationMs : Option Int

/-! ### The index of a turn's items -/

def turnItemIndexThreshold : Nat := 32

/-- Where the items with the given ids are, once a turn is long enough to be indexed. -/
structure TurnItemIndex where
  positions : Option (List (Text × Nat))

namespace TurnItemIndex

/-- `entry(id).or_insert(position)`. -/
def orInsert (positions : List (Text × Nat)) (id : Text) (position : Nat) : List (Text × Nat) :=
  if (IndexMap.get? positions id).isSome then positions else IndexMap.insert id position positions

def push (index : TurnItemIndex) (items : List ThreadItem) (item : ThreadItem) :
    TurnItemIndex × List ThreadItem :=
  (⟨index.positions.map fun positions => orInsert positions item.id items.length⟩, items ++ [item])

/-- The positions of a list of items, the first one of each id. -/
def positionsOf (items : List ThreadItem) : List (Text × Nat) :=
  items.zipIdx.foldl (fun positions entry => orInsert positions entry.1.id entry.2) []

/-- The index, made if the turn has become long. -/
def prepared (index : TurnItemIndex) (items : List ThreadItem) : TurnItemIndex :=
  if index.positions.isNone && turnItemIndexThreshold ≤ items.length then
    ⟨some (positionsOf items)⟩
  else index

def existingIndex (index : TurnItemIndex) (items : List ThreadItem) (id : Text) : Option Nat :=
  match index.positions with
  | some positions => IndexMap.get? positions id
  | none => items.findIdx? fun existing => existing.id == id

def upsert (index : TurnItemIndex) (items : List ThreadItem) (item : ThreadItem) :
    TurnItemIndex × List ThreadItem :=
  let index := index.prepared items
  match index.existingIndex items item.id with
  | some position => (index, items.set position item)
  | none => index.push items item

end TurnItemIndex

structure PendingTurn where
  id : Text
  rootTurnId : Option Text
  items : List ThreadItem
  itemIndex : TurnItemIndex
  error : Option TurnError
  status : TurnStatus
  startedAt : Option Int
  completedAt : Option Int
  durationMs : Option Int
  openedExplicitly : Bool
  sawCompaction : Bool
  rolloutStartIndex : Nat

namespace PendingTurn

variable (turn : PendingTurn)

/-- `Turn::from`. -/
def toTurn : Turn where
  id := turn.id
  items := turn.items
  error := turn.error
  status := turn.status
  startedAt := turn.startedAt
  completedAt := turn.completedAt
  durationMs := turn.durationMs

def pushItem (item : ThreadItem) : PendingTurn :=
  let pushed := turn.itemIndex.push turn.items item
  { turn with itemIndex := pushed.1, items := pushed.2 }

def upsertItem (item : ThreadItem) : PendingTurn :=
  let upserted := turn.itemIndex.upsert turn.items item
  { turn with itemIndex := upserted.1, items := upserted.2 }

def applyAbort (payload : TurnAbortedEvent) : PendingTurn :=
  { turn with
    status := .interrupted
    completedAt := payload.completedAt
    durationMs := payload.durationMs }

def applyCompletion (payload : TurnCompleteEvent) : PendingTurn :=
  let turn : PendingTurn :=
    match payload.error with
    | some error => { turn with status := .failed, error := some (.ofEvent error) }
    | none =>
      if turn.status = .completed ∨ turn.status = .inProgress then
        { turn with status := .completed }
      else turn
  { turn with completedAt := payload.completedAt, durationMs := payload.durationMs }

def applyError (payload : ErrorEvent) : PendingTurn :=
  { turn with status := .failed, error := some (.ofEvent payload) }

end PendingTurn

/-! ### Changes -/

structure ThreadHistoryItemChange where
  turnId : Text
  item : ThreadItem
  startedAtMs : Option Int
  completedAtMs : Option Int

structure ThreadHistoryTurnMetadata where
  turnId : Text
  rootTurnId : Option Text
  status : TurnStatus
  error : Option TurnError
  startedAt : Option Int
  completedAt : Option Int
  durationMs : Option Int

def ThreadHistoryTurnMetadata.fromPendingTurn (turn : PendingTurn) : ThreadHistoryTurnMetadata where
  turnId := turn.id
  rootTurnId := turn.rootTurnId
  status := turn.status
  error := turn.error
  startedAt := turn.startedAt
  completedAt := turn.completedAt
  durationMs := turn.durationMs

structure ThreadHistoryChangeSet where
  changedItems : List ThreadHistoryItemChange
  changedTurns : List ThreadHistoryTurnMetadata
  removedTurnIds : List Text

def ThreadHistoryChangeSet.empty : ThreadHistoryChangeSet := ⟨[], [], []⟩

/-! ### The builder -/

structure ThreadHistoryBuilder where
  turns : List PendingTurn
  currentTurn : Option PendingTurn
  nextItemIndex : Nat
  currentRolloutIndex : Nat
  nextRolloutIndex : Nat
  activeChangeSet : Option ThreadHistoryChangeSet

namespace ThreadHistoryBuilder

def new : ThreadHistoryBuilder := ⟨[], none, 1, 0, 0, none⟩

/-- The turns that the builder holds, the open one last. -/
def held (b : ThreadHistoryBuilder) : List PendingTurn := b.turns ++ b.currentTurn.toList

section Recording

variable (b : ThreadHistoryBuilder)

def recordChangedItem (turnId : Text) (item : ThreadItem) : ThreadHistoryBuilder :=
  { b with
    activeChangeSet := b.activeChangeSet.map fun changes =>
      { changes with changedItems := changes.changedItems ++ [⟨turnId, item, none, none⟩] } }

def recordChangedTurn (turn : ThreadHistoryTurnMetadata) : ThreadHistoryBuilder :=
  { b with
    activeChangeSet := b.activeChangeSet.map fun changes =>
      { changes with changedTurns := changes.changedTurns ++ [turn] } }

def recordRemovedTurnIds (ids : List Text) : ThreadHistoryBuilder :=
  { b with
    activeChangeSet := b.activeChangeSet.map fun changes =>
      { changes with removedTurnIds := changes.removedTurnIds ++ ids } }

end Recording

section Primitives

variable (ops : ItemOps) (b : ThreadHistoryBuilder)

/-- An implicit turn that nothing happened in is dropped. -/
def finishCurrentTurn : ThreadHistoryBuilder :=
  match b.currentTurn with
  | none => b
  | some turn =>
    if turn.items = [] ∧ turn.openedExplicitly = false ∧ turn.sawCompaction = false then
      { b with currentTurn := none }
    else { b with turns := b.turns ++ [turn], currentTurn := none }

def newTurn (id : Option Text) : PendingTurn where
  id := id.getD <|
    if b.nextRolloutIndex = 0 then ops.newUuid b.currentRolloutIndex
    else "rollout-".toList ++ (toString b.currentRolloutIndex).toList
  rootTurnId := none
  items := []
  itemIndex := ⟨none⟩
  error := none
  status := .completed
  startedAt := none
  completedAt := none
  durationMs := none
  openedExplicitly := false
  sawCompaction := false
  rolloutStartIndex := b.currentRolloutIndex

/-- A new turn is recorded and becomes the open one. -/
def openTurn (turn : PendingTurn) : ThreadHistoryBuilder :=
  { b.recordChangedTurn (.fromPendingTurn turn) with currentTurn := some turn }

def ensureTurn : ThreadHistoryBuilder :=
  match b.currentTurn with
  | none => b.openTurn (b.newTurn ops none)
  | some _ => b

/-- The open turn is updated, and the item recorded. -/
def updateCurrentTurn (update : PendingTurn → PendingTurn) (item : ThreadItem) :
    ThreadHistoryBuilder :=
  match b.currentTurn with
  | none => b
  | some turn => recordChangedItem { b with currentTurn := some (update turn) } turn.id item

def pushItemInCurrentTurn (item : ThreadItem) : ThreadHistoryBuilder :=
  (b.ensureTurn ops).updateCurrentTurn (·.pushItem item) item

def upsertItemInCurrentTurn (item : ThreadItem) : ThreadHistoryBuilder :=
  (b.ensureTurn ops).updateCurrentTurn (·.upsertItem item) item

variable (turnId : Text)

/-- The finished turn of this id, if there is one. -/
def hasFinishedTurn : Bool := b.turns.any fun turn => turn.id == turnId

def currentTurnMatches : Bool := b.currentTurn.any fun turn => turn.id == turnId

/-- Applies to the first finished turn of this id. -/
def updateFinishedTurn (update : PendingTurn → PendingTurn) : List PendingTurn :=
  Lists.modifyFirst (fun turn => turn.id == turnId) update b.turns

/-- An item for a turn that is not known is dropped. -/
def upsertItemInTurnId (item : ThreadItem) : ThreadHistoryBuilder :=
  if b.currentTurnMatches turnId then b.updateCurrentTurn (·.upsertItem item) item
  else if b.hasFinishedTurn turnId then
    recordChangedItem { b with turns := b.updateFinishedTurn turnId (·.upsertItem item) }
      turnId item
  else b

/-- `upsert_item_in_current_turn` for an event without a turn, and otherwise
`upsert_item_in_turn_id`. -/
def upsertItemForTurn (item : ThreadItem) : ThreadHistoryBuilder :=
  if turnId = [] then b.upsertItemInCurrentTurn ops item else b.upsertItemInTurnId turnId item

/-- `next_item_id`: the id, and the builder that has given it out. -/
def nextItemId : Text × ThreadHistoryBuilder :=
  ("item-".toList ++ (toString b.nextItemIndex).toList,
    { b with nextItemIndex := b.nextItemIndex + 1 })

/-- The id given, or else the next one. -/
def itemIdOr (id : Option Text) : Text × ThreadHistoryBuilder :=
  match id with
  | some id => (id, b)
  | none => b.nextItemId

end Primitives

/-! ### Handlers -/

section Handlers

variable (ops : ItemOps) (b : ThreadHistoryBuilder)

def handleResponseItem (item : Core.ResponseItem) : ThreadHistoryBuilder :=
  match item with
  | .message id role content _ _ =>
    if role ≠ "user".toList then b
    else
      match parseHookPromptMessage ops b.currentRolloutIndex id content with
      | none => b
      | some hookPrompt => b.pushItemInCurrentTurn ops hookPrompt
  | _ => b

/-- An implicit turn is closed before a user message, unless only a compaction is in it. -/
def closesForUserMessage : Bool :=
  b.currentTurn.any fun turn =>
    !turn.openedExplicitly && !(turn.sawCompaction && turn.items.isEmpty)

def handleUserMessage (payload : UserMessageEvent) : ThreadHistoryBuilder :=
  let b := if b.closesForUserMessage then b.finishCurrentTurn else b
  let (id, b) := b.nextItemId
  b.pushItemInCurrentTurn ops (.userMessage id payload.clientId payload.buildUserInputs)

def handleAgentMessage (message carried : Text) : ThreadHistoryBuilder :=
  if message = [] then b
  else
    let (id, b) := b.nextItemId
    b.pushItemInCurrentTurn ops (.agentMessage id message carried)

/-- The last item of the open turn, if it is a reasoning item. -/
def lastReasoning : Option (Text × List Text × List Text) :=
  match b.currentTurn.bind fun turn => turn.items.getLast? with
  | some (.reasoning id summary content) => some (id, summary, content)
  | _ => none

/-- Reasoning goes on in the last item of the turn, or else begins a new one. -/
def appendReasoning (summary content : List Text) : ThreadHistoryBuilder :=
  let b := b.ensureTurn ops
  match b.lastReasoning with
  | some (id, oldSummary, oldContent) =>
    let item := ThreadItem.reasoning id (oldSummary ++ summary) (oldContent ++ content)
    b.updateCurrentTurn (fun turn => { turn with items := turn.items.dropLast ++ [item] }) item
  | none =>
    let (id, b) := b.nextItemId
    b.pushItemInCurrentTurn ops (.reasoning id summary content)

def handleAgentReasoning (text : Text) : ThreadHistoryBuilder :=
  if text = [] then b else b.appendReasoning ops [text] []

def handleAgentReasoningRawContent (text : Text) : ThreadHistoryBuilder :=
  if text = [] then b else b.appendReasoning ops [] [text]

def upsertReviewModeItem (turnId : Option Text) (item : ThreadItem) : ThreadHistoryBuilder :=
  match turnId with
  | none => b.upsertItemInCurrentTurn ops item
  | some turnId =>
    let b :=
      if !b.currentTurnMatches turnId && !b.hasFinishedTurn turnId then
        let b := b.finishCurrentTurn
        b.openTurn (b.newTurn ops (some turnId))
      else b
    b.upsertItemInTurnId turnId item

def handleMaterializedItemLifecycle (turnId : Text) (item : TurnItem) : ThreadHistoryBuilder :=
  match item.toThreadItem ops with
  | none => b
  | some threadItem =>
    if item.isReviewModeItem then b.upsertReviewModeItem ops (some turnId) threadItem
    else b.upsertItemInTurnId turnId threadItem

def handleWebSearchBegin (callId : Text) : ThreadHistoryBuilder :=
  b.upsertItemInCurrentTurn ops (.webSearch ⟨callId, [], none, none⟩)

def handleWebSearchEnd (payload : WebSearchEndEvent) : ThreadHistoryBuilder :=
  b.upsertItemInCurrentTurn ops
    (.webSearch ⟨payload.callId, payload.query, some payload.action, payload.results⟩)

def handleExecCommandBegin (payload : ExecCommandBeginEvent) : ThreadHistoryBuilder :=
  b.upsertItemInTurnId payload.turnId (buildCommandExecutionBeginItem ops payload)

def handleExecCommandEnd (payload : ExecCommandEndEvent) : ThreadHistoryBuilder :=
  b.upsertItemInTurnId payload.turnId (buildCommandExecutionEndItem ops payload)

def guardianStatus : GuardianAssessmentStatus → Option CommandExecutionStatus
  | .inProgress => some .inProgress
  | .denied | .aborted => some .declined
  | .timedOut => some .failed
  | .approved => none

def handleGuardianAssessment (payload : GuardianAssessmentEvent) : ThreadHistoryBuilder :=
  match (guardianStatus payload.status).bind (buildItemFromGuardianEvent ops payload) with
  | none => b
  | some item => b.upsertItemForTurn ops payload.turnId item

def handleApplyPatchApprovalRequest (payload : PatchEvent) : ThreadHistoryBuilder :=
  b.upsertItemForTurn ops payload.turnId (buildFileChangeApprovalRequestItem payload)

def handlePatchApplyBegin (payload : PatchEvent) : ThreadHistoryBuilder :=
  b.upsertItemForTurn ops payload.turnId (buildFileChangeBeginItem payload)

def handlePatchApplyEnd (payload : PatchApplyEndEvent) : ThreadHistoryBuilder :=
  b.upsertItemForTurn ops payload.turnId (buildFileChangeEndItem payload)

def handleDynamicToolCallRequest (payload : DynamicToolCallRequest) : ThreadHistoryBuilder :=
  b.upsertItemForTurn ops payload.turnId
    (.dynamicToolCall
      { id := payload.callId
        ns := payload.ns
        tool := payload.tool
        arguments := payload.arguments
        status := .inProgress
        contentItems := none
        success := none
        durationMs := none })

def handleDynamicToolCallResponse (payload : DynamicToolCallResponseEvent) : ThreadHistoryBuilder :=
  b.upsertItemForTurn ops payload.turnId
    (.dynamicToolCall
      { id := payload.callId
        ns := payload.ns
        tool := payload.tool
        arguments := payload.arguments
        status := if payload.success then .completed else .failed
        contentItems := some payload.contentItems
        success := some payload.success
        durationMs := millisToI64 payload.durationMillis })

def handleMcpToolCallBegin (payload : McpToolCallBeginEvent) : ThreadHistoryBuilder :=
  b.upsertItemForTurn ops payload.turnId (payload.item .inProgress none none none)

def handleMcpToolCallEnd (payload : McpToolCallEndEvent) : ThreadHistoryBuilder :=
  let status := if payload.isSuccess then ToolCallStatus.completed else .failed
  let durationMs := millisToI64 payload.durationMillis
  let item :=
    match payload.result with
    | .inr value => payload.item status (some value.toMcpToolCallResult) none durationMs
    | .inl message => payload.item status none (some message) durationMs
  b.upsertItemForTurn ops payload.turnId item

def handleViewImageToolCall (callId path : Text) : ThreadHistoryBuilder :=
  b.upsertItemInCurrentTurn ops (.imageView callId path)

def handleImageGenerationBegin (callId : Text) : ThreadHistoryBuilder :=
  b.upsertItemInCurrentTurn ops
    (.imageGeneration ⟨callId, [], none, [], none, none, none, none, none⟩)

def handleImageGenerationEnd (payload : ImageGenerationEndEvent) : ThreadHistoryBuilder :=
  b.upsertItemInCurrentTurn ops
    (.imageGeneration
      { id := payload.callId
        status := payload.status
        revisedPrompt := payload.revisedPrompt
        result := payload.result
        transparentBackground := payload.transparentBackground
        failure := payload.failure
        savedPath := payload.savedPath
        imagegenRequestId := none
        generationId := none })

def handleCollabAgentSpawnBegin (payload : CollabAgentSpawnBeginEvent) : ThreadHistoryBuilder :=
  b.upsertItemInCurrentTurn ops (collabAgentSpawnBeginItem payload)

def handleCollabAgentSpawnEnd (payload : CollabAgentSpawnEndEvent) : ThreadHistoryBuilder :=
  b.upsertItemInCurrentTurn ops (collabAgentSpawnEndItem payload)

def handleCollabAgentInteractionBegin (payload : CollabCallBeginEvent) (prompt : Text) :
    ThreadHistoryBuilder :=
  b.upsertItemInCurrentTurn ops (payload.item .sendInput (some prompt))

def handleCollabAgentInteractionEnd (payload : CollabCallEndEvent) (prompt : Text) :
    ThreadHistoryBuilder :=
  b.upsertItemInCurrentTurn ops (payload.item .sendInput (some prompt))

def handleSubAgentActivity (eventId kind agentThreadId agentPath : Text) : ThreadHistoryBuilder :=
  b.upsertItemInCurrentTurn ops (.subAgentActivity eventId kind agentThreadId agentPath)

def handleCollabWaitingBegin (payload : CollabWaitingBeginEvent) : ThreadHistoryBuilder :=
  b.upsertItemInCurrentTurn ops (collabWaitingBeginItem payload)

def handleCollabWaitingEnd (payload : CollabWaitingEndEvent) : ThreadHistoryBuilder :=
  b.upsertItemInCurrentTurn ops (collabWaitingEndItem payload)

def handleCollabCloseBegin (payload : CollabCallBeginEvent) : ThreadHistoryBuilder :=
  b.upsertItemInCurrentTurn ops (payload.item .closeAgent none)

def handleCollabCloseEnd (payload : CollabCallEndEvent) : ThreadHistoryBuilder :=
  b.upsertItemInCurrentTurn ops (payload.item .closeAgent none)

def handleCollabResumeBegin (payload : CollabCallBeginEvent) : ThreadHistoryBuilder :=
  b.upsertItemInCurrentTurn ops (payload.item .resumeAgent none)

def handleCollabResumeEnd (payload : CollabCallEndEvent) : ThreadHistoryBuilder :=
  b.upsertItemInCurrentTurn ops (payload.item .resumeAgent none)

def handleContextCompacted : ThreadHistoryBuilder :=
  let (id, b) := b.nextItemId
  b.pushItemInCurrentTurn ops (.contextCompaction id)

def handleEnteredReviewMode (payload : EnteredReviewModeEvent) : ThreadHistoryBuilder :=
  let review := payload.userFacingHint.getD "Review requested.".toList
  let (id, b) := b.itemIdOr payload.itemId
  b.upsertReviewModeItem ops payload.turnId (.enteredReviewMode id review)

def handleExitedReviewMode (payload : ExitedReviewModeEvent) : ThreadHistoryBuilder :=
  let review := reviewOutputText ops payload.reviewOutput
  let (id, b) := b.itemIdOr payload.itemId
  b.upsertReviewModeItem ops payload.turnId (.exitedReviewMode id review)

/-- The open turn is replaced, and its metadata recorded. -/
def replaceCurrentTurn (turn : PendingTurn) : ThreadHistoryBuilder :=
  recordChangedTurn { b with currentTurn := some turn } (.fromPendingTurn turn)

/-- The first finished turn of this id is updated, and its metadata recorded. -/
def updateFinishedTurnMetadata (turnId : Text) (update : PendingTurn → PendingTurn) :
    ThreadHistoryBuilder :=
  match b.turns.find? fun turn => turn.id == turnId with
  | none => b
  | some turn =>
    recordChangedTurn { b with turns := b.updateFinishedTurn turnId update }
      (.fromPendingTurn (update turn))

def handleError (payload : ErrorEvent) : ThreadHistoryBuilder :=
  if !payload.affectsTurnStatus then b
  else
    match b.currentTurn with
    | none => b
    | some turn => b.replaceCurrentTurn (turn.applyError payload)

def handleTurnAborted (payload : TurnAbortedEvent) : ThreadHistoryBuilder :=
  let finished := payload.turnId.filter fun turnId =>
    !b.currentTurnMatches turnId && b.hasFinishedTurn turnId
  match finished with
  | some turnId => b.updateFinishedTurnMetadata turnId (·.applyAbort payload)
  | none =>
    -- The open turn has the id, or else stands in for an unknown one.
    match b.currentTurn with
    | none => b
    | some turn => b.replaceCurrentTurn (turn.applyAbort payload)

def handleTurnStarted (payload : TurnStartedEvent) : ThreadHistoryBuilder :=
  let b := b.finishCurrentTurn
  b.openTurn
    { b.newTurn ops (some payload.turnId) with
      status := .inProgress
      startedAt := payload.startedAt
      openedExplicitly := true
      rootTurnId := payload.rootTurnId }

def handleTurnComplete (payload : TurnCompleteEvent) : ThreadHistoryBuilder :=
  if !b.currentTurnMatches payload.turnId && b.hasFinishedTurn payload.turnId then
    b.updateFinishedTurnMetadata payload.turnId (·.applyCompletion payload)
  else
    match b.currentTurn with
    | none => b
    | some turn => (b.replaceCurrentTurn (turn.applyCompletion payload)).finishCurrentTurn

def handleCompacted : ThreadHistoryBuilder :=
  let b := b.ensureTurn ops
  { b with currentTurn := b.currentTurn.map fun turn => { turn with sawCompaction := true } }

def handleThreadRollback (numTurns : Nat) : ThreadHistoryBuilder :=
  let b := b.finishCurrentTurn
  let kept := b.turns.length - numTurns
  let b := b.recordRemovedTurnIds ((b.turns.drop kept).map PendingTurn.id)
  let turns := b.turns.take kept
  { b with turns := turns, nextItemIndex := (turns.map fun turn => turn.items.length).sum + 1 }

def handleEvent : EventMsg → ThreadHistoryBuilder
  | .userMessage payload => b.handleUserMessage ops payload
  | .agentMessage message carried => b.handleAgentMessage ops message carried
  | .agentReasoning text => b.handleAgentReasoning ops text
  | .agentReasoningRawContent text => b.handleAgentReasoningRawContent ops text
  | .webSearchBegin callId => b.handleWebSearchBegin ops callId
  | .webSearchEnd payload => b.handleWebSearchEnd ops payload
  | .execCommandBegin payload => b.handleExecCommandBegin ops payload
  | .execCommandEnd payload => b.handleExecCommandEnd ops payload
  | .guardianAssessment payload => b.handleGuardianAssessment ops payload
  | .applyPatchApprovalRequest payload => b.handleApplyPatchApprovalRequest ops payload
  | .patchApplyBegin payload => b.handlePatchApplyBegin ops payload
  | .patchApplyEnd payload => b.handlePatchApplyEnd ops payload
  | .dynamicToolCallRequest payload => b.handleDynamicToolCallRequest ops payload
  | .dynamicToolCallResponse payload => b.handleDynamicToolCallResponse ops payload
  | .mcpToolCallBegin payload => b.handleMcpToolCallBegin ops payload
  | .mcpToolCallEnd payload => b.handleMcpToolCallEnd ops payload
  | .viewImageToolCall callId path => b.handleViewImageToolCall ops callId path
  | .imageGenerationBegin callId => b.handleImageGenerationBegin ops callId
  | .imageGenerationEnd payload => b.handleImageGenerationEnd ops payload
  | .collabAgentSpawnBegin payload => b.handleCollabAgentSpawnBegin ops payload
  | .collabAgentSpawnEnd payload => b.handleCollabAgentSpawnEnd ops payload
  | .collabAgentInteractionBegin payload prompt =>
    b.handleCollabAgentInteractionBegin ops payload prompt
  | .collabAgentInteractionEnd payload prompt =>
    b.handleCollabAgentInteractionEnd ops payload prompt
  | .subAgentActivity eventId kind agentThreadId agentPath =>
    b.handleSubAgentActivity ops eventId kind agentThreadId agentPath
  | .collabWaitingBegin payload => b.handleCollabWaitingBegin ops payload
  | .collabWaitingEnd payload => b.handleCollabWaitingEnd ops payload
  | .collabCloseBegin payload => b.handleCollabCloseBegin ops payload
  | .collabCloseEnd payload => b.handleCollabCloseEnd ops payload
  | .collabResumeBegin payload => b.handleCollabResumeBegin ops payload
  | .collabResumeEnd payload => b.handleCollabResumeEnd ops payload
  | .contextCompacted => b.handleContextCompacted ops
  | .enteredReviewMode payload => b.handleEnteredReviewMode ops payload
  | .exitedReviewMode payload => b.handleExitedReviewMode ops payload
  | .itemStarted turnId item => b.handleMaterializedItemLifecycle ops turnId item
  | .itemCompleted turnId item => b.handleMaterializedItemLifecycle ops turnId item
  | .error payload => b.handleError payload
  | .threadRolledBack numTurns => b.handleThreadRollback numTurns
  | .turnAborted payload => b.handleTurnAborted payload
  | .turnStarted payload => b.handleTurnStarted ops payload
  | .turnComplete payload => b.handleTurnComplete payload
  | .other => b

def handleRolloutItem (item : RolloutItem) : ThreadHistoryBuilder :=
  let b :=
    { b with
      currentRolloutIndex := b.nextRolloutIndex, nextRolloutIndex := b.nextRolloutIndex + 1 }
  match item with
  | .eventMsg event => b.handleEvent ops event
  | .compacted => b.handleCompacted ops
  | .responseItem item => b.handleResponseItem ops item
  | .other => b

/-- `handle_rollout_item_with_changes`: the builder, and what the item changed. -/
def handleRolloutItemWithChanges (item : RolloutItem) :
    ThreadHistoryBuilder × ThreadHistoryChangeSet :=
  let b := handleRolloutItem ops { b with activeChangeSet := some .empty } item
  ({ b with activeChangeSet := none }, b.activeChangeSet.getD .empty)

end Handlers

end ThreadHistoryBuilder

end SushiGpt.AppServer
