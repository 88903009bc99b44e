/-
The model history of a thread.

`ContextManager` keeps the items that the model sees and the world state they already tell it.
Whatever rewrites the items drops the world-state baseline, so that the next update is a full
one.  The review and retained-context fields, which depend on the items and never change them,
are left out.
-/
import SushiGpt.Core.ResponseItem
import SushiGpt.Core.WorldState

namespace SushiGpt.Core

structure ContextManager where
  /-- Oldest first. -/
  items : List ResponseItemEnvelope
  /-- World state most recently appended to model-visible history. -/
  worldStateBaseline : Option WorldStateSnapshot

/-! ### Call and output pairs -/

variable (reading : Reading) (policy : TruncationPolicy) (items : List ResponseItemEnvelope)

def removeFirstMatching (matching : ResponseItem → Bool) : List ResponseItemEnvelope :=
  items.eraseP fun envelope => matching envelope.item

def isFunctionCallOutputFor (callId : Text) : ResponseItem → Bool
  | .functionCallOutput _ existing _ _ => existing == some callId
  | _ => false

def isFunctionCallFor (callId : Text) : ResponseItem → Bool
  | .functionCall _ existing _ _ => existing == callId
  | _ => false

def isLocalShellCallFor (callId : Text) : ResponseItem → Bool
  | .localShellCall _ existing _ _ => existing == some callId
  | _ => false

def isToolSearchOutputFor (callId : Text) : ResponseItem → Bool
  | .toolSearchOutput _ existing _ _ => existing == some callId
  | _ => false

def isToolSearchCallFor (callId : Text) : ResponseItem → Bool
  | .toolSearchCall _ existing _ _ => existing == some callId
  | _ => false

def isCustomToolCallOutputFor (callId : Text) : ResponseItem → Bool
  | .customToolCallOutput _ existing _ _ => existing == callId
  | _ => false

def isCustomToolCallFor (callId : Text) : ResponseItem → Bool
  | .customToolCall _ existing _ _ => existing == callId
  | _ => false

/-- Drops the counterpart of a removed call or output. -/
def removeCorrespondingFor : ResponseItem → List ResponseItemEnvelope
  | .functionCall _ callId _ _ => removeFirstMatching items (isFunctionCallOutputFor callId)
  | .functionCallOutput _ (some callId) _ _ =>
    -- A shell call is the counterpart only when no function call is.
    if items.any fun envelope => isFunctionCallFor callId envelope.item then
      removeFirstMatching items (isFunctionCallFor callId)
    else removeFirstMatching items (isLocalShellCallFor callId)
  | .toolSearchCall _ (some callId) _ _ =>
    removeFirstMatching items (isToolSearchOutputFor callId)
  | .toolSearchOutput _ (some callId) _ _ =>
    removeFirstMatching items (isToolSearchCallFor callId)
  | .customToolCall _ callId _ _ => removeFirstMatching items (isCustomToolCallOutputFor callId)
  | .customToolCallOutput _ callId _ _ => removeFirstMatching items (isCustomToolCallFor callId)
  | .localShellCall _ (some callId) _ _ =>
    removeFirstMatching items (isFunctionCallOutputFor callId)
  | _ => items

/-! ### Recording and replacing items -/

/-- A tool output is cut as its own limit says, else by the policy. -/
def truncateOutput (metadata : Option HarnessMetadata) (output : Text) : Text :=
  let policy :=
    match metadata.bind (·.historyTruncationTokenLimit) with
    | some limit => .tokens limit
    | none => reading.withSerializationAllowance policy
  reading.truncateFunctionOutputPayload output policy

def processItem (metadata : Option HarnessMetadata) : ResponseItem → ResponseItem
  | .functionCallOutput id callId output passthrough =>
    .functionCallOutput id callId (truncateOutput reading policy metadata output) passthrough
  | .customToolCallOutput id callId output passthrough =>
    .customToolCallOutput id callId (truncateOutput reading policy metadata output) passthrough
  | item => item

namespace ContextManager

def new : ContextManager := ⟨[], none⟩

variable (reading : Reading) (history : ContextManager) (policy : TruncationPolicy)

def recordItemsWithMetadata (history : ContextManager) (envelopes : List ResponseItemEnvelope) :
    ContextManager :=
  envelopes.foldl
    (fun history envelope =>
      if isApiMessage envelope.item envelope.metadata then
        { history with
          items := history.items ++
            [⟨processItem reading policy envelope.metadata envelope.item, envelope.metadata⟩] }
      else history)
    history

def recordAnnotatedItems (history : ContextManager) (envelopes : List ResponseItemEnvelope) :
    ContextManager :=
  recordItemsWithMetadata reading policy history envelopes

def recordItems (history : ContextManager) (items : List ResponseItem) : ContextManager :=
  recordItemsWithMetadata reading policy history (items.map fun item => ⟨item, none⟩)

def replaceAnnotated (_history : ContextManager) (items : List ResponseItemEnvelope) :
    ContextManager :=
  { items, worldStateBaseline := none }

def replaceCompacted (_history : ContextManager) (items : List ResponseItemEnvelope) :
    ContextManager :=
  { items, worldStateBaseline := none }

def removeFirstItem : ContextManager :=
  match history.items with
  | [] => history
  | removed :: items =>
    { items := removeCorrespondingFor items removed.item, worldStateBaseline := none }

/-! ### World state -/

def setWorldStateBaseline (snapshot : WorldStateSnapshot) : ContextManager :=
  { history with worldStateBaseline := some snapshot }

/-- Advances the baseline and says what the rollout is to keep of it. -/
def updateWorldState (state : WorldState) : ContextManager × Option WorldStateItem :=
  let snapshot := state.snapshot
  let rolloutItem :=
    match history.worldStateBaseline with
    | none => some ⟨true, snapshot.intoObject⟩
    | some previous => (snapshot.mergePatchFrom previous).map fun patch => ⟨false, patch⟩
  (history.setWorldStateBaseline snapshot, rolloutItem)

/-! ### Rollback -/

def userMessagePositions (items : List ResponseItemEnvelope) : List Nat :=
  (items.zipIdx.filter fun entry => reading.isUserTurnBoundary entry.1.item).map Prod.snd

/-- Context that was recorded for the turn that follows it. -/
def isPreTurnContextUpdate : ResponseItem → Bool
  | .message _ role content _ _ =>
    (role == "developer".toList && reading.isContextualDevMessageContent content) ||
      (role == "user".toList && reading.isContextualUserMessageContent content)
  | _ => false

/-- Moves the cut before the context updates above it, never before the first turn. -/
def trimPreTurnContextUpdates (reading : Reading) (items : List ResponseItemEnvelope)
    (firstInstructionTurnIdx : Nat) : Nat → Nat
  | 0 => 0
  | cut + 1 =>
    if firstInstructionTurnIdx < cut + 1 &&
        (items[cut]?).any fun envelope => isPreTurnContextUpdate reading envelope.item then
      trimPreTurnContextUpdates reading items firstInstructionTurnIdx cut
    else cut + 1

/-- A developer message of the removed first turn keeps what is not rebuilt for the next one. -/
def stripFirstTurn (firstTurnId : Text) (envelope : ResponseItemEnvelope) :
    Option ResponseItemEnvelope :=
  match envelope.item with
  | .message id role content phase metadata =>
    if envelope.item.turnId = some firstTurnId && role == "developer".toList then
      let kinds := (metadata.bind (·.contentItemKinds)).getD []
      let annotated := content.zip (kinds ++ List.replicate content.length "unknown".toList)
      let kept := annotated.filter fun entry =>
        match entry.1 with
        | .inputText text => !reading.isModelOrModeText text
        | _ => true
      if kept.isEmpty then none
      else
        some { envelope with
          item := .message id role (kept.map Prod.fst) phase
            (some ⟨metadata.bind (·.turnId), some (kept.map Prod.snd)⟩) }
    else some envelope
  | _ => some envelope

/-- Drops the last `numTurns` instruction turns. -/
def dropLastNUserTurns (numTurns : Nat) : ContextManager :=
  if numTurns = 0 then history
  else
    let items := history.items
    let positions := userMessagePositions reading items
    match positions with
    | [] => history.replaceAnnotated items
    | first :: _ =>
      let cut :=
        if numTurns ≥ positions.length then first
        else positions.getD (positions.length - numTurns) first
      let cut := trimPreTurnContextUpdates reading items first cut
      let retained := items.take cut
      let retained :=
        match (items[first]?).bind fun envelope => envelope.item.turnId with
        | some turnId =>
          if cut = first then retained.filterMap (stripFirstTurn reading turnId) else retained
        | none => retained
      history.replaceAnnotated retained

end ContextManager

/-! ### Rebuilding after a compaction without its history -/

structure CompactedUserMessage where
  id : Option Text
  message : Text
  metadata : Option MessageMetadata
  harnessMetadata : Option HarnessMetadata

inductive CompactedMessageIdentity where
  | preserve
  | regenerate

def isSummaryMessage (message : Text) : Bool :=
  (reading.summaryPrefix ++ ['\n']).isPrefixOf message

def compactedUserMessage (envelope : ResponseItemEnvelope) : Option CompactedUserMessage :=
  (reading.parseUserMessage envelope.item).bind fun message =>
    if isSummaryMessage reading message then none
    else
      match envelope.item with
      | .message id _ _ _ metadata => some ⟨id, message, metadata, envelope.metadata⟩
      | _ => some ⟨none, message, none, envelope.metadata⟩

def collectAnnotatedUserMessages (identity : CompactedMessageIdentity) :
    List CompactedUserMessage :=
  (items.filterMap (compactedUserMessage reading)).map fun message =>
    match identity with
    | .preserve => message
    | .regenerate => { message with id := none }

def compactUserMessageMaxTokens : Nat := 20000

/-- The newest messages that fit, newest first; the one that does not is cut and the last. -/
def selectMessages (reading : Reading) (remaining : Nat) :
    List CompactedUserMessage → List CompactedUserMessage
  | [] => []
  | message :: older =>
    if remaining = 0 then []
    else
      let tokens := reading.approxTokenCount message.message
      if tokens ≤ remaining then message :: selectMessages reading (remaining - tokens) older
      else [{ message with
        message := reading.truncateText message.message (.tokens remaining) }]

/-- A selected message as an item of the new history. -/
def CompactedUserMessage.toEnvelope (message : CompactedUserMessage) : ResponseItemEnvelope :=
  let metadata :=
    match message.metadata with
    | some ⟨turnId, some _⟩ => some ⟨turnId, some ["user.text".toList]⟩
    | metadata => metadata
  ⟨.message message.id "user".toList [.inputText message.message] none metadata,
    message.harnessMetadata⟩

def compactionSummary (summary : Text) : ResponseItem :=
  .message none "user".toList [.inputText summary] none
    (some ⟨none, some ["compaction.summary".toList]⟩)

def buildCompactedHistory (userMessages : List CompactedUserMessage) (summaryText : Text) :
    List ResponseItemEnvelope :=
  let selected :=
    (selectMessages reading compactUserMessageMaxTokens userMessages.reverse).reverse
  let summary :=
    if summaryText.isEmpty then "(no summary available)".toList else summaryText
  selected.map CompactedUserMessage.toEnvelope ++ [⟨compactionSummary summary, none⟩]

end SushiGpt.Core
