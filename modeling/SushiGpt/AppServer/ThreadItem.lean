/-
Thread items and the events they are made from: `app-server-protocol/src/protocol/v2/item.rs`,
`protocol/item_builders.rs` and the payloads of `protocol/src/protocol.rs`.

The events of a rollout are materialised into items of a turn.  A payload has the fields that
are read for that.  What is only copied and has a type of its own (JSON values, phases and
citations of a message, reasoning efforts, origins of a command) is a `Text`; paths are texts
too.  Maps keyed by paths or threads are lists of pairs.

How commands are parsed, joined and freed of secrets, how paths are joined, how reviews are
rendered and hook prompts are read, and what ids are drawn is `ItemOps`, a parameter.
-/
import SushiGpt.Core.ResponseItem
import Mathlib.Algebra.GroupWithZero.Nat
import Mathlib.Data.Char
import Mathlib.Data.List.Lex
import Mathlib.Data.List.Sort

namespace SushiGpt.AppServer

open SushiGpt.Core (ImageReference ContentItem)

/-! ### Items -/

inductive UserInput where
  | text (text textElements : Text)
  | image (image : ImageReference) (detail : Option Text)
  | localImage (detail : Option Text) (path : Text)
  | audio (url : Text)
  | localAudio (path : Text)

structure HookPromptFragment where
  text : Text
  hookRunId : Text

inductive CommandAction where
  | read (command name path : Text)
  | listFiles (command : Text) (path : Option Text)
  | search (command : Text) (query path : Option Text)
  | unknown (command : Text)

inductive CommandExecutionStatus where
  | inProgress
  | completed
  | failed
  | declined

structure CommandExecution where
  modelContext : Option Text
  id : Text
  pluginId : Option Text
  scriptPath : Option Text
  command : Text
  cwd : Text
  processId : Option Text
  source : Text
  status : CommandExecutionStatus
  commandActions : List CommandAction
  aggregatedOutput : Option Text
  exitCode : Option Int
  durationMs : Option Nat

inductive PatchChangeKind where
  | add
  | delete
  | update (movePath : Option Text)

structure FileUpdateChange where
  path : Text
  kind : PatchChangeKind
  diff : Text

inductive PatchApplyStatus where
  | inProgress
  | completed
  | failed
  | declined

inductive ToolCallStatus where
  | inProgress
  | completed
  | failed

structure McpToolCallAppContext where
  connectorId : Text
  linkId : Option Text
  resourceUri : Option Text
  appName : Option Text
  actionName : Option Text

structure McpToolCallResult where
  content : Text
  structuredContent : Option Text
  meta? : Option Text

structure McpToolCall where
  id : Text
  server : Text
  tool : Text
  status : ToolCallStatus
  arguments : Text
  appContext : Option McpToolCallAppContext
  mcpAppResourceUri : Option Text
  mcpAppUi : Option Text
  pluginId : Option Text
  readOnlyHint : Option Bool
  result : Option McpToolCallResult
  /-- The message of `McpToolCallError`. -/
  error : Option Text
  durationMs : Option Nat

/-- The same in the core protocol and here, so that converting it changes nothing. -/
inductive DynamicToolCallOutputContentItem where
  | inputText (text : Text)
  | inputImage (imageUrl : Text)
  | inputAudio (audioUrl : Text)

structure DynamicToolCall where
  id : Text
  ns : Option Text
  tool : Text
  arguments : Text
  status : ToolCallStatus
  contentItems : Option (List DynamicToolCallOutputContentItem)
  success : Option Bool
  durationMs : Option Nat

inductive CollabAgentTool where
  | spawnAgent
  | sendInput
  | resumeAgent
  | wait
  | closeAgent
  | sendMessage
  | followupTask
  | interruptAgent
  | listAgents

inductive CollabAgentToolCallStatus where
  | inProgress
  | completed
  | failed
  | interrupted

inductive CollabAgentStatus where
  | pendingInit
  | running
  | interrupted
  | completed
  | errored
  | shutdown
  | notFound

structure CollabAgentState where
  status : CollabAgentStatus
  message : Option Text

structure CollabAgentToolCall where
  id : Text
  tool : CollabAgentTool
  status : CollabAgentToolCallStatus
  senderThreadId : Text
  receiverThreadIds : List Text
  prompt : Option Text
  model : Option Text
  reasoningEffort : Option Text
  agentsStates : List (Text × CollabAgentState)

structure WebSearchItem where
  id : Text
  query : Text
  action : Option Text
  results : Option Text

structure ImageGenerationItem where
  id : Text
  status : Text
  revisedPrompt : Option Text
  result : Text
  transparentBackground : Option Bool
  failure : Option Text
  savedPath : Option Text
  imagegenRequestId : Option Text
  generationId : Option Text

inductive ThreadItem where
  | userMessage (id : Text) (clientId : Option Text) (content : List UserInput)
  | hookPrompt (id : Text) (fragments : List HookPromptFragment)
  /-- `carried` is the phase, the citation, the delivery and the questions. -/
  | agentMessage (id text carried : Text)
  | functionCallOutput (id name : Text) (ns : Option Text) (output : Text)
  | plan (id text : Text)
  | reasoning (id : Text) (summary content : List Text)
  | commandExecution (item : CommandExecution)
  | fileChange (id : Text) (changes : List FileUpdateChange) (status : PatchApplyStatus)
  | mcpToolCall (item : McpToolCall)
  | dynamicToolCall (item : DynamicToolCall)
  | collabAgentToolCall (item : CollabAgentToolCall)
  | subAgentActivity (id kind agentThreadId agentPath : Text)
  | webSearch (item : WebSearchItem)
  | imageView (id path : Text)
  | sleep (id : Text) (durationMs : Nat)
  | imageGeneration (item : ImageGenerationItem)
  | enteredReviewMode (id review : Text)
  | exitedReviewMode (id review : Text)
  | contextCompaction (id : Text)

def ThreadItem.id : ThreadItem → Text
  | userMessage id _ _ => id
  | hookPrompt id _ => id
  | agentMessage id _ _ => id
  | functionCallOutput id _ _ _ => id
  | plan id _ => id
  | reasoning id _ _ => id
  | commandExecution item => item.id
  | fileChange id _ _ => id
  | mcpToolCall item => item.id
  | dynamicToolCall item => item.id
  | collabAgentToolCall item => item.id
  | subAgentActivity id _ _ _ => id
  | webSearch item => item.id
  | imageView id _ => id
  | sleep id _ => id
  | imageGeneration item => item.id
  | enteredReviewMode id _ => id
  | exitedReviewMode id _ => id
  | contextCompaction id => id

/-! ### Parameters -/

inductive ParsedCommand where
  | read (cmd name path : Text)
  | listFiles (cmd : Text) (path : Option Text)
  | search (cmd : Text) (query path : Option Text)
  | unknown (cmd : Text)

structure ItemOps where
  redactSecrets : Text → Text
  shlexJoin : List Text → Text
  parseCommand : List Text → List ParsedCommand
  /-- `PathUri::join`, which fails on some paths. -/
  joinUri : (cwd path : Text) → Option Text
  /-- `AbsolutePathBuf::join`. -/
  joinPath : (cwd path : Text) → Text
  renderReviewOutputText : Text → Text
  /-- `parse_hook_prompt_fragment`. -/
  parseHookPromptFragment : Text → Option HookPromptFragment
  /-- The id drawn while the rollout item with this index is handled. -/
  newUuid : Nat → Text

/-- `i64::try_from(duration.as_millis()).ok()`. -/
def millisToI64 (millis : Nat) : Option Nat := if millis < 2 ^ 63 then some millis else none

def reviewFallbackMessage : Text := "Reviewer failed to output a response.".toList

variable (ops : ItemOps)

def reviewOutputText (output : Option Text) : Text :=
  (output.map ops.renderReviewOutputText).getD reviewFallbackMessage

/-! ### Commands and patches -/

structure CommandExecutionPresentation where
  command : Text
  commandActions : List CommandAction

/-- An action for display; a read whose path cannot be resolved is left out. -/
def commandActionForPathUri (cwd : Text) : ParsedCommand → Option CommandAction
  | .read cmd name path => (ops.joinUri cwd path).map (.read (ops.redactSecrets cmd) name)
  | .listFiles cmd path => some (.listFiles (ops.redactSecrets cmd) path)
  | .search cmd query path =>
    some (.search (ops.redactSecrets cmd) (query.map ops.redactSecrets) path)
  | .unknown cmd => some (.unknown (ops.redactSecrets cmd))

def CommandExecutionPresentation.fromRaw (command : List Text) (parsedCmd : List ParsedCommand)
    (cwd : Text) : CommandExecutionPresentation where
  command := ops.redactSecrets (ops.shlexJoin command)
  commandActions := parsedCmd.filterMap (commandActionForPathUri ops cwd)

def CommandAction.fromCoreWithCwd (cwd : Text) : ParsedCommand → CommandAction
  | .read cmd name path => .read cmd name (ops.joinPath cwd path)
  | .listFiles cmd path => .listFiles cmd path
  | .search cmd query path => .search cmd query path
  | .unknown cmd => .unknown cmd

/-- What the begin and the end of a command have in common. -/
structure ExecCommand where
  callId : Text
  pluginId : Option Text
  scriptPath : Option Text
  processId : Option Text
  turnId : Text
  command : List Text
  cwd : Text
  parsedCmd : List ParsedCommand
  source : Text

abbrev ExecCommandBeginEvent := ExecCommand

inductive ExecCommandStatus where
  | completed
  | failed
  | declined

def CommandExecutionStatus.ofCore : ExecCommandStatus → CommandExecutionStatus
  | .completed => completed
  | .failed => failed
  | .declined => declined

structure ExecCommandEndEvent extends ExecCommand where
  aggregatedOutput : Text
  exitCode : Int
  durationMillis : Nat
  status : ExecCommandStatus

def buildCommandExecutionBeginItem (payload : ExecCommandBeginEvent) : ThreadItem :=
  let presentation :=
    CommandExecutionPresentation.fromRaw ops payload.command payload.parsedCmd payload.cwd
  .commandExecution
    { modelContext := none
      id := payload.callId
      pluginId := payload.pluginId
      scriptPath := payload.scriptPath
      command := presentation.command
      cwd := payload.cwd
      processId := payload.processId
      source := payload.source
      status := .inProgress
      commandActions := presentation.commandActions
      aggregatedOutput := none
      exitCode := none
      durationMs := none }

def buildCommandExecutionEndItem (payload : ExecCommandEndEvent) : ThreadItem :=
  let presentation :=
    CommandExecutionPresentation.fromRaw ops payload.command payload.parsedCmd payload.cwd
  .commandExecution
    { modelContext := none
      id := payload.callId
      pluginId := payload.pluginId
      scriptPath := payload.scriptPath
      command := presentation.command
      cwd := payload.cwd
      processId := payload.processId
      source := payload.source
      status := .ofCore payload.status
      commandActions := presentation.commandActions
      aggregatedOutput :=
        if payload.aggregatedOutput = [] then none else some payload.aggregatedOutput
      exitCode := some payload.exitCode
      durationMs := some ((millisToI64 payload.durationMillis).getD (2 ^ 63 - 1)) }

inductive GuardianAssessmentAction where
  | command (command cwd : Text)
  | execve (program : Text) (argv : List Text) (cwd : Text)
  /-- Input to a running command, patches, the network, tools and permissions. -/
  | other

inductive GuardianAssessmentStatus where
  | inProgress
  | approved
  | denied
  | timedOut
  | aborted

structure GuardianAssessmentEvent where
  modelContext : Option Text
  targetItemId : Option Text
  pluginId : Option Text
  scriptPath : Option Text
  turnId : Text
  status : GuardianAssessmentStatus
  action : GuardianAssessmentAction

/-- The command an assessment is about, with its actions and its directory. -/
def GuardianAssessmentAction.shown : GuardianAssessmentAction → Option
    (Text × List CommandAction × Text)
  | .command text cwd => some (text, [.unknown text], cwd)
  | .execve program argv cwd =>
    let argv := if argv = [] then [program] else program :: argv.drop 1
    let text := ops.shlexJoin argv
    let parsedCmd := ops.parseCommand argv
    let actions :=
      if parsedCmd = [] then [.unknown text]
      else parsedCmd.map (CommandAction.fromCoreWithCwd ops cwd)
    some (text, actions, cwd)
  | .other => none

def buildItemFromGuardianEvent (assessment : GuardianAssessmentEvent)
    (status : CommandExecutionStatus) : Option ThreadItem :=
  (assessment.action.shown ops).bind fun (command, actions, cwd) =>
    assessment.targetItemId.map fun id =>
      .commandExecution
        { modelContext := assessment.modelContext
          id := id
          pluginId := assessment.pluginId
          scriptPath := assessment.scriptPath
          command := command
          cwd := cwd
          processId := none
          source := "agent".toList
          status := status
          commandActions := actions
          aggregatedOutput := none
          exitCode := none
          durationMs := none }

inductive FileChange where
  | add (content : Text)
  | delete (content : Text)
  | update (unifiedDiff : Text) (movePath : Option Text)

def mapPatchChangeKind : FileChange → PatchChangeKind
  | .add _ => .add
  | .delete _ => .delete
  | .update _ movePath => .update movePath

def formatFileChangeDiff : FileChange → Text
  | .add content => content
  | .delete content => content
  | .update unifiedDiff (some path) => unifiedDiff ++ "\n\nMoved to: ".toList ++ path
  | .update unifiedDiff none => unifiedDiff

def convertPatchChanges (changes : List (Text × FileChange)) : List FileUpdateChange :=
  (changes.map fun (path, change) =>
    (⟨path, mapPatchChangeKind change, formatFileChangeDiff change⟩ : FileUpdateChange)
    ).insertionSort fun left right => left.path ≤ right.path

/-- A patch that awaits approval, begins or has ended. -/
structure PatchEvent where
  callId : Text
  turnId : Text
  changes : List (Text × FileChange)

inductive CorePatchApplyStatus where
  | completed
  | failed
  | declined

def PatchApplyStatus.ofCore : CorePatchApplyStatus → PatchApplyStatus
  | .completed => completed
  | .failed => failed
  | .declined => declined

structure PatchApplyEndEvent extends PatchEvent where
  status : CorePatchApplyStatus

/-- A file change of the given status: what the three builders of patches make. -/
def buildFileChangeItem (payload : PatchEvent) (status : PatchApplyStatus) : ThreadItem :=
  .fileChange payload.callId (convertPatchChanges payload.changes) status

def buildFileChangeApprovalRequestItem (payload : PatchEvent) : ThreadItem :=
  buildFileChangeItem payload .inProgress

def buildFileChangeBeginItem (payload : PatchEvent) : ThreadItem :=
  buildFileChangeItem payload .inProgress

def buildFileChangeEndItem (payload : PatchApplyEndEvent) : ThreadItem :=
  buildFileChangeItem payload.toPatchEvent (.ofCore payload.status)

/-! ### Tools -/

structure DynamicToolCallRequest where
  callId : Text
  turnId : Text
  ns : Option Text
  tool : Text
  arguments : Text

structure DynamicToolCallResponseEvent extends DynamicToolCallRequest where
  contentItems : List DynamicToolCallOutputContentItem
  success : Bool
  durationMillis : Nat

structure McpToolCallBeginEvent where
  callId : Text
  turnId : Text
  server : Text
  tool : Text
  arguments : Option Text
  connectorId : Option Text
  mcpAppResourceUri : Option Text
  mcpAppUi : Option Text
  linkId : Option Text
  appName : Option Text
  actionName : Option Text
  pluginId : Option Text
  readOnlyHint : Option Bool

structure CallToolResult extends McpToolCallResult where
  isError : Option Bool

structure McpToolCallEndEvent extends McpToolCallBeginEvent where
  durationMillis : Nat
  result : Text ⊕ CallToolResult

def McpToolCallEndEvent.isSuccess (payload : McpToolCallEndEvent) : Bool :=
  match payload.result with
  | .inr result => !result.isError.getD false
  | .inl _ => false

/-- An MCP call with the outcome given. -/
def McpToolCallBeginEvent.item (payload : McpToolCallBeginEvent) (status : ToolCallStatus)
    (result : Option McpToolCallResult) (error : Option Text) (durationMs : Option Nat) :
    ThreadItem :=
  .mcpToolCall
    { id := payload.callId
      server := payload.server
      tool := payload.tool
      status := status
      arguments := payload.arguments.getD "null".toList
      appContext := payload.connectorId.map fun connectorId =>
        ⟨connectorId, payload.linkId, payload.mcpAppResourceUri, payload.appName,
          payload.actionName⟩
      mcpAppResourceUri := payload.mcpAppResourceUri
      mcpAppUi := payload.mcpAppUi
      pluginId := payload.pluginId
      readOnlyHint := payload.readOnlyHint
      result := result
      error := error
      durationMs := durationMs }

structure WebSearchEndEvent where
  callId : Text
  query : Text
  action : Text
  results : Option Text

structure ImageGenerationEndEvent where
  callId : Text
  status : Text
  revisedPrompt : Option Text
  result : Text
  transparentBackground : Option Bool
  failure : Option Text
  savedPath : Option Text

/-! ### Agents -/

inductive AgentStatus where
  | pendingInit
  | running
  | interrupted
  | completed (message : Option Text)
  | errored (message : Text)
  | shutdown
  | notFound

/-- The agent failed or is gone. -/
def AgentStatus.hasFailed : AgentStatus → Bool
  | errored _ | notFound => true
  | _ => false

def CollabAgentState.ofStatus : AgentStatus → CollabAgentState
  | .pendingInit => ⟨.pendingInit, none⟩
  | .running => ⟨.running, none⟩
  | .interrupted => ⟨.interrupted, none⟩
  | .completed message => ⟨.completed, message⟩
  | .errored message => ⟨.errored, some message⟩
  | .shutdown => ⟨.shutdown, none⟩
  | .notFound => ⟨.notFound, none⟩

structure CollabAgentSpawnBeginEvent where
  callId : Text
  senderThreadId : Text
  prompt : Text
  model : Text
  reasoningEffort : Text

structure CollabAgentSpawnEndEvent extends CollabAgentSpawnBeginEvent where
  newThreadId : Option Text
  status : AgentStatus

/-- A call about one other agent: an interaction, a close or a resume. -/
structure CollabCallBeginEvent where
  callId : Text
  senderThreadId : Text
  receiverThreadId : Text

structure CollabCallEndEvent extends CollabCallBeginEvent where
  status : AgentStatus

structure CollabWaitingBeginEvent where
  callId : Text
  senderThreadId : Text
  receiverThreadIds : List Text

structure CollabWaitingEndEvent where
  callId : Text
  senderThreadId : Text
  statuses : List (Text × AgentStatus)

def collabAgentSpawnBeginItem (payload : CollabAgentSpawnBeginEvent) : ThreadItem :=
  .collabAgentToolCall
    { id := payload.callId
      tool := .spawnAgent
      status := .inProgress
      senderThreadId := payload.senderThreadId
      receiverThreadIds := []
      prompt := some payload.prompt
      model := some payload.model
      reasoningEffort := some payload.reasoningEffort
      agentsStates := [] }

def collabAgentSpawnEndItem (payload : CollabAgentSpawnEndEvent) : ThreadItem :=
  .collabAgentToolCall
    { id := payload.callId
      tool := .spawnAgent
      status :=
        if payload.status.hasFailed then .failed
        else if payload.newThreadId.isSome then .completed
        else .failed
      senderThreadId := payload.senderThreadId
      receiverThreadIds := payload.newThreadId.toList
      prompt := some payload.prompt
      model := some payload.model
      reasoningEffort := some payload.reasoningEffort
      agentsStates := payload.newThreadId.toList.map fun id => (id, .ofStatus payload.status) }

/-- A call to one agent that begins. -/
def CollabCallBeginEvent.item (payload : CollabCallBeginEvent) (tool : CollabAgentTool)
    (prompt : Option Text) : ThreadItem :=
  .collabAgentToolCall
    { id := payload.callId
      tool := tool
      status := .inProgress
      senderThreadId := payload.senderThreadId
      receiverThreadIds := [payload.receiverThreadId]
      prompt := prompt
      model := none
      reasoningEffort := none
      agentsStates := [] }

/-- A call to one agent that has ended. -/
def CollabCallEndEvent.item (payload : CollabCallEndEvent) (tool : CollabAgentTool)
    (prompt : Option Text) : ThreadItem :=
  .collabAgentToolCall
    { id := payload.callId
      tool := tool
      status := if payload.status.hasFailed then .failed else .completed
      senderThreadId := payload.senderThreadId
      receiverThreadIds := [payload.receiverThreadId]
      prompt := prompt
      model := none
      reasoningEffort := none
      agentsStates := [(payload.receiverThreadId, .ofStatus payload.status)] }

def collabWaitingBeginItem (payload : CollabWaitingBeginEvent) : ThreadItem :=
  .collabAgentToolCall
    { id := payload.callId
      tool := .wait
      status := .inProgress
      senderThreadId := payload.senderThreadId
      receiverThreadIds := payload.receiverThreadIds
      prompt := none
      model := none
      reasoningEffort := none
      agentsStates := [] }

def collabWaitingEndItem (payload : CollabWaitingEndEvent) : ThreadItem :=
  .collabAgentToolCall
    { id := payload.callId
      tool := .wait
      status :=
        if payload.statuses.any fun entry => entry.2.hasFailed then .failed else .completed
      senderThreadId := payload.senderThreadId
      receiverThreadIds := (payload.statuses.map Prod.fst).insertionSort (· ≤ ·)
      prompt := none
      model := none
      reasoningEffort := none
      agentsStates := payload.statuses.map fun entry => (entry.1, .ofStatus entry.2) }

/-! ### Items of the core protocol -/

structure CommandExecutionItem where
  modelContext : Option Text
  id : Text
  pluginId : Option Text
  scriptPath : Option Text
  processId : Option Text
  command : List Text
  cwd : Text
  parsedCmd : List ParsedCommand
  source : Text
  status : CommandExecutionStatus
  aggregatedOutput : Option Text
  exitCode : Option Int
  durationMillis : Option Nat

structure DynamicToolCallItem where
  id : Text
  ns : Option Text
  tool : Text
  arguments : Text
  status : ToolCallStatus
  contentItems : Option (List DynamicToolCallOutputContentItem)
  success : Option Bool
  durationMillis : Option Nat

structure CollabAgentToolCallItem where
  id : Text
  tool : CollabAgentTool
  status : CollabAgentToolCallStatus
  senderThreadId : Text
  receiverThreadIds : List Text
  prompt : Option Text
  model : Option Text
  reasoningEffort : Option Text
  agentsStates : List (Text × AgentStatus)

inductive ExtensionItem where
  | imageGeneration (item : ImageGenerationItem)
  | sleep (id : Text) (durationMs : Nat)
  | webSearch (item : WebSearchItem)

/-- `TurnItem`, with the content of those that the history takes over. -/
inductive TurnItem where
  | plan (id text : Text)
  | hookPrompt (id : Text) (fragments : List HookPromptFragment)
  | functionCallOutput (id name : Text) (ns : Option Text) (output : Text)
  | commandExecution (item : CommandExecutionItem)
  | dynamicToolCall (item : DynamicToolCallItem)
  | collabAgentToolCall (item : CollabAgentToolCallItem)
  | subAgentActivity (id kind agentThreadId agentPath : Text)
  | extension (item : ExtensionItem)
  | enteredReviewMode (id userFacingHint : Text)
  | exitedReviewMode (id : Text) (reviewOutput : Option Text)
  /-- Messages, reasoning, searches, images, patches, MCP calls and compactions, which have
  events of their own. -/
  | other

namespace TurnItem

def isReviewModeItem : TurnItem → Bool
  | enteredReviewMode _ _ | exitedReviewMode _ _ => true
  | _ => false

/-- The thread item that the history takes over; a plan has to have a text. -/
def toThreadItem (ops : ItemOps) : TurnItem → Option ThreadItem
  | plan id text => if text = [] then none else some (.plan id text)
  | hookPrompt id fragments => some (.hookPrompt id fragments)
  | functionCallOutput id name ns output => some (.functionCallOutput id name ns output)
  | commandExecution item =>
    let presentation :=
      CommandExecutionPresentation.fromRaw ops item.command item.parsedCmd item.cwd
    some (.commandExecution
      { modelContext := item.modelContext
        id := item.id
        pluginId := item.pluginId
        scriptPath := item.scriptPath
        command := presentation.command
        cwd := item.cwd
        processId := item.processId
        source := item.source
        status := item.status
        commandActions := presentation.commandActions
        aggregatedOutput := item.aggregatedOutput.filter (· ≠ [])
        exitCode := item.exitCode
        durationMs := item.durationMillis.bind millisToI64 })
  | dynamicToolCall item =>
    some (.dynamicToolCall
      { id := item.id
        ns := item.ns
        tool := item.tool
        arguments := item.arguments
        status := item.status
        contentItems := item.contentItems
        success := item.success
        durationMs := item.durationMillis.bind millisToI64 })
  | collabAgentToolCall item =>
    some (.collabAgentToolCall
      { id := item.id
        tool := item.tool
        status := item.status
        senderThreadId := item.senderThreadId
        receiverThreadIds := item.receiverThreadIds
        prompt := item.prompt
        model := item.model
        reasoningEffort := item.reasoningEffort
        agentsStates := item.agentsStates.map fun entry => (entry.1, .ofStatus entry.2) })
  | subAgentActivity id kind agentThreadId agentPath =>
    some (.subAgentActivity id kind agentThreadId agentPath)
  | extension (.imageGeneration item) => some (.imageGeneration item)
  | extension (.sleep id durationMs) => some (.sleep id durationMs)
  | extension (.webSearch item) => some (.webSearch item)
  | enteredReviewMode id userFacingHint => some (.enteredReviewMode id userFacingHint)
  | exitedReviewMode id reviewOutput =>
    some (.exitedReviewMode id (reviewOutputText ops reviewOutput))
  | other => none

end TurnItem

/-! ### Messages -/

inductive UserMessageImageKind where
  | inline
  | file
  deriving DecidableEq

structure UserMessageEvent where
  clientId : Option Text
  message : Text
  images : Option (List Text)
  imageDetails : List (Option Text)
  fileIds : Option (List Text)
  fileIdDetails : List (Option Text)
  imageOrder : List UserMessageImageKind
  localImages : List Text
  localImageDetails : List (Option Text)
  audio : Option (List Text)
  localAudio : List Text
  textElements : Text

namespace UserMessageEvent

variable (payload : UserMessageEvent)

/-- Whether `imageOrder` accounts for every image exactly once. -/
def hasCompleteImageOrder : Bool :=
  payload.imageOrder ≠ [] &&
    payload.imageOrder.count .inline == (payload.images.getD []).length &&
    payload.imageOrder.count .file == (payload.fileIds.getD []).length

def inlineImage (index : Nat) (url : Text) : UserInput :=
  .image (.inline url) (payload.imageDetails[index]?).join

def fileImage (index : Nat) (fileId : Text) : UserInput :=
  .image (.file fileId) (payload.fileIdDetails[index]?).join

/-- The images in their original order, with how many of each kind are taken. -/
def orderedImages (payload : UserMessageEvent) (inlineIndex fileIndex : Nat) :
    List UserMessageImageKind → List UserInput
  | [] => []
  | .inline :: rest =>
    match (payload.images.getD [])[inlineIndex]? with
    | none => orderedImages payload inlineIndex fileIndex rest
    | some image =>
      payload.inlineImage inlineIndex image ::
        orderedImages payload (inlineIndex + 1) fileIndex rest
  | .file :: rest =>
    match (payload.fileIds.getD [])[fileIndex]? with
    | none => orderedImages payload inlineIndex fileIndex rest
    | some fileId =>
      payload.fileImage fileIndex fileId :: orderedImages payload inlineIndex (fileIndex + 1) rest

def buildUserInputs : List UserInput :=
  let text :=
    if Text.trim payload.message = [] then [] else [.text payload.message payload.textElements]
  let images :=
    if payload.hasCompleteImageOrder then payload.orderedImages 0 0 payload.imageOrder
    else
      (payload.images.getD []).mapIdx payload.inlineImage ++
        (payload.fileIds.getD []).mapIdx payload.fileImage
  let localImages := payload.localImages.mapIdx fun index path =>
    .localImage (payload.localImageDetails[index]?).join path
  text ++ images ++ localImages ++ (payload.audio.getD []).map .audio ++
    payload.localAudio.map .localAudio

end UserMessageEvent

/-- `parse_hook_prompt_message`: every content item has to be a hook prompt. -/
def parseHookPromptMessage (index : Nat) (id : Option Text) (content : List ContentItem) :
    Option ThreadItem :=
  let fragments := content.mapM fun
    | .inputText text => ops.parseHookPromptFragment text
    | _ => none
  fragments.bind fun fragments =>
    if fragments = [] then none
    else some (.hookPrompt (id.getD (ops.newUuid index)) fragments)

end SushiGpt.AppServer
