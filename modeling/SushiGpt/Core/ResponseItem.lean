/-
Response items, as the model history and the rollouts hold them.

What an item says is read by many parts of the program; what the history needs of them is here,
and the fields that it only carries along are one `payload`.  How texts are classified
(registered context fragments, inter-agent JSON, user messages) and how long texts are cut is
`Reading`, a parameter of everything built on it.
-/
import SushiGpt.Lib.Text

namespace SushiGpt.Core

inductive ImageReference where
  | inline (imageUrl : Text)
  | file (fileId : Text)

inductive ContentItem where
  | inputText (text : Text)
  | inputImage (image : ImageReference) (detail : Option Text)
  | inputAudio (audioUrl : Text)
  | outputText (text : Text)

inductive AgentMessageInputContent where
  | inputText (text : Text)
  | encryptedContent (encryptedContent : Text)

/-- `internal_chat_message_metadata_passthrough`. -/
structure MessageMetadata where
  turnId : Option Text
  contentItemKinds : Option (List Text)

/-- Items that the history keeps and never looks into. -/
inductive PlainKind where
  | additionalTools
  | reasoning
  | webSearchCall
  | imageGenerationCall
  | compaction
  | contextCompaction

inductive ResponseItem where
  | message (id : Option Text) (role : Text) (content : List ContentItem) (phase : Option Text)
      (metadata : Option MessageMetadata)
  | agentMessage (id : Option Text) (author recipient : Text)
      (content : List AgentMessageInputContent) (metadata : Option MessageMetadata)
  | localShellCall (id callId : Option Text) (payload : Text) (metadata : Option MessageMetadata)
  | functionCall (id : Option Text) (callId payload : Text) (metadata : Option MessageMetadata)
  | toolSearchCall (id callId : Option Text) (payload : Text) (metadata : Option MessageMetadata)
  | functionCallOutput (id callId : Option Text) (output : Text) (metadata : Option MessageMetadata)
  | customToolCall (id : Option Text) (callId payload : Text) (metadata : Option MessageMetadata)
  | customToolCallOutput (id : Option Text) (callId output : Text)
      (metadata : Option MessageMetadata)
  | toolSearchOutput (id callId : Option Text) (payload : Text) (metadata : Option MessageMetadata)
  | plain (kind : PlainKind) (id : Option Text) (payload : Text) (metadata : Option MessageMetadata)
  | configurationUpdate (payload : Text)
  | compactionTrigger
  | other

namespace ResponseItem

def metadata : ResponseItem → Option MessageMetadata
  | message _ _ _ _ metadata => metadata
  | agentMessage _ _ _ _ metadata => metadata
  | localShellCall _ _ _ metadata => metadata
  | functionCall _ _ _ metadata => metadata
  | toolSearchCall _ _ _ metadata => metadata
  | functionCallOutput _ _ _ metadata => metadata
  | customToolCall _ _ _ metadata => metadata
  | customToolCallOutput _ _ _ metadata => metadata
  | toolSearchOutput _ _ _ metadata => metadata
  | plain _ _ _ metadata => metadata
  | configurationUpdate _ => none
  | compactionTrigger => none
  | other => none

/-- The turn id stamped onto the item; an empty one is none. -/
def turnId (item : ResponseItem) : Option Text :=
  (item.metadata.bind (·.turnId)).filter fun turnId => !turnId.isEmpty

end ResponseItem

/-- What the harness persists with an item, as far as the history reads it. -/
structure HarnessMetadata where
  historyTruncationTokenLimit : Option Nat
  harnessAuthoredConfiguration : Bool
  payload : Text

structure ResponseItemEnvelope where
  item : ResponseItem
  metadata : Option HarnessMetadata

/-- How much of a tool output is kept. -/
inductive TruncationPolicy where
  | bytes (limit : Nat)
  | tokens (limit : Nat)

/-- How the program reads and cuts texts. -/
structure Reading where
  /-- A registered fragment of context in a user message. -/
  isContextualUserFragment : ContentItem → Bool
  /-- A fragment of context in a developer message that a rollback may trim. -/
  isContextualDevFragment : ContentItem → Bool
  /-- A text that is an inter-agent communication. -/
  isInterAgentCommunication : Text → Bool
  /-- The text of a user message, when the item is one that is shown as such. -/
  parseUserMessage : ResponseItem → Option Text
  /-- The start of a compaction summary. -/
  summaryPrefix : Text
  /-- Texts rebuilt from the next step's model and effort. -/
  isModelOrModeText : Text → Bool
  withSerializationAllowance : TruncationPolicy → TruncationPolicy
  truncateFunctionOutputPayload : Text → TruncationPolicy → Text
  approxTokenCount : Text → Nat
  truncateText : Text → TruncationPolicy → Text

namespace Reading

variable (reading : Reading)

def isContextualUserMessageContent (content : List ContentItem) : Bool :=
  content.any reading.isContextualUserFragment

def isContextualDevMessageContent (content : List ContentItem) : Bool :=
  content.any reading.isContextualDevFragment

/-- `InterAgentCommunication::is_message_content`. -/
def isMessageContent : List ContentItem → Bool
  | [.inputText text] => reading.isInterAgentCommunication text
  | [.outputText text] => reading.isInterAgentCommunication text
  | _ => false

/-- Items that begin an instruction turn. -/
def isUserTurnBoundary : ResponseItem → Bool
  | .agentMessage .. => true
  | .message _ role content _ _ =>
    (role == "user".toList && !reading.isContextualUserMessageContent content) ||
      (role == "assistant".toList && reading.isMessageContent content)
  | _ => false

end Reading

/-- Configuration updates require harness provenance; raw system messages are never retained. -/
def isApiMessage (item : ResponseItem) (metadata : Option HarnessMetadata) : Bool :=
  match item with
  | .message _ role _ _ _ => role != "system".toList
  | .configurationUpdate _ => metadata.any (·.harnessAuthoredConfiguration)
  | .compactionTrigger => false
  | .other => false
  | _ => true

/-- A message from another agent, as a rollout keeps it. -/
structure InterAgentCommunication where
  id : Option Text
  author : Text
  recipient : Text
  content : Text
  encryptedContent : Option Text
  metadata : Option MessageMetadata
  triggerTurn : Bool

def InterAgentCommunication.toModelInputItem (message : InterAgentCommunication) : ResponseItem :=
  let content :=
    match message.encryptedContent with
    | some encrypted =>
      let messageType := if message.triggerTurn then "NEW_TASK" else "MESSAGE"
      [.inputText (("Message Type: " ++ messageType ++ "\nTask name: ").toList ++
        message.recipient ++ "\nSender: ".toList ++ message.author ++ "\nPayload:\n".toList),
        .encryptedContent encrypted]
    | none => [.inputText message.content]
  .agentMessage message.id message.author message.recipient content message.metadata

end SushiGpt.Core
