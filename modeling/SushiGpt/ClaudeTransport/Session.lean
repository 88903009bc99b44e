/-
The session with the local model process: `claude-transport/src/process.rs`.

The process runs no tools.  It sends control requests for them, each of which the session
ties to a call of the model message and hands to the native side as an item; the session
keeps a mirror of native history to recognise at the next request what is new.
-/
import SushiGpt.ClaudeTransport.Protocol

namespace SushiGpt.ClaudeTransport

open Json CodexApi

def serverName : String := "native"

def toolPre : Text := "mcp__native__".toList

/-- A tool call of the model message.  The item is taken when the request for the call
arrives and the item is emitted. -/
structure ToolCall where
  name : Text
  arguments : Json
  item : Option ResponseItem
  request : Option Json
  finished : Bool

/-- The calls of a model message by their identifiers. -/
abbrev Calls := List (Text × ToolCall)

def Calls.set (calls : Calls) (id : Text) (call : ToolCall) : Calls :=
  calls.map fun entry => if entry.1 = id then (id, call) else entry

/-- The parts of a session that sampling reads and writes.  `written` is what has been
written to the process so far, oldest first.  The adapter is the one of the tools. -/
structure Session where
  adapter : Adapter
  rawTools : Json
  tools : List Json
  model : Text
  instructions : Text
  history : List Json
  heldReply : Option Json
  inTurn : Bool
  pendingToolCalls : List Json
  written : List Json
  adapted : (Adapter.ofTools rawTools).map Prod.fst = some adapter

namespace Session

def write (session : Session) (value : Json) : Session :=
  { session with written := session.written ++ [value] }

/-- Mirrors one already serialised native item into the history of the process's side. -/
def rememberValue (serde : Serde) (session : Session) (item : Json) : Except CodexErr Session := do
  let item ← orFail (session.adapter.prepareItem serde item) "cannot mirror native history"
  .ok { session with history := session.history ++ [item.erase "id"] }

def remember (serde : Serde) (session : Session) (item : ResponseItem) : Except CodexErr Session :=
  session.rememberValue serde item.toValue

end Session

/-- What a control request works on.  `events` is the channel to the native side. -/
structure Exchange where
  session : Session
  calls : Calls
  events : List ResponseEvent

namespace Exchange

def emit (serde : Serde) (exchange : Exchange) (item : ResponseItem) :
    Except CodexErr Exchange := do
  let session ← exchange.session.remember serde item
  .ok { exchange with session, events := exchange.events ++ [.outputItemDone item] }

/-! ### Control requests -/

def controlResponse (frame response : Json) : Json :=
  object [("type", str "control_response".toList),
    ("response", object [("subtype", str "success".toList),
      ("request_id", frame.get "request_id"), ("response", response)])]

/-- A permission is granted when it is for a call as the model made it. -/
def canUseTool (calls : Calls) (request : Json) : Except CodexErr Json := do
  let id ← orFail (request.get "tool_use_id").asStr "permission request without tool ID"
  let call ← orFail (calls.lookup id) "permission request for an unknown native tool"
  if request.get "tool_name" ≠ str (toolPre ++ call.name) ∨
      request.get "input" ≠ call.arguments then
    .error (failure "permission request changed native tool arguments")
  else
    .ok (object [("behavior", str "allow".toList), ("updatedInput", call.arguments)])

/-- The request is for the call: same name, same arguments. -/
def asksFor (params : Json) (call : ToolCall) : Bool :=
  params.get "name" == str call.name && params.get "arguments" == call.arguments

/-- The calls a `tools/call` request may be for.  The process may name the originating
block; a name that is no open call is ignored. -/
def correlate (calls : Calls) (params : Json) : Except CodexErr (List Text) :=
  let toolUseId := ((params.get "_meta").get "claudecode/toolUseId").asStr.filter fun id =>
    (calls.lookup id).any fun call => call.request.isNone
  match toolUseId with
  | some id => do
    let call ← orFail (calls.lookup id) "missing tool call"
    if asksFor params call then .ok [id]
    else .error (failure "MCP tool call changed native tool arguments")
  | none =>
    .ok ((calls.filter fun entry =>
      entry.2.request.isNone && asksFor params entry.2).map Prod.fst)

/-- A `tools/call` request: emit the call it is for, or keep the request for later. -/
def toolsCall (serde : Serde) (exchange : Exchange) (frame params : Json)
    (sender deferUncorrelated : Bool) : Except CodexErr Exchange := do
  let found ← correlate exchange.calls params
  match found with
  | [] =>
    if deferUncorrelated then
      .ok { exchange with session := { exchange.session with
        pendingToolCalls := exchange.session.pendingToolCalls ++ [frame] } }
    else .error (failure "uncorrelated or ambiguous MCP tool call")
  | [id] =>
    let call ← orFail (exchange.calls.lookup id) "missing tool call"
    let item ← orFail call.item "duplicate MCP request for a native tool call"
    let calls := exchange.calls.set id { call with item := none, request := some frame }
    if sender then emit serde { exchange with calls := calls } item
    else .error (failure "tool call during initialization")
  | _ => .error (failure "uncorrelated or ambiguous MCP tool call")

def mcpResponse (message result : Json) : Json :=
  object [("mcp_response", object [("jsonrpc", str "2.0".toList),
    ("id", (message.get? "id").getD (int 0)), ("result", result)])]

/-- The reply to an MCP message other than a call. -/
def mcpResult (session : Session) (message : Json) : Except CodexErr Json :=
  let method := message.get "method"
  if method.isStr "initialize" then
    .ok (object [("protocolVersion", str "2024-11-05".toList),
      ("capabilities", object [("tools", object [])]),
      ("serverInfo", object [("name", str "codex-native".toList), ("version", str "1".toList)])])
  else if method.isStr "notifications/initialized" then .ok (object [])
  else if method.isStr "tools/list" then .ok (object [("tools", arr session.tools)])
  else .error (failure "unsupported MCP method")

/-- The frame is a `tools/call` request to the native server. -/
def isToolsCall (frame : Json) : Bool :=
  let request := frame.get "request"
  (frame.get "type").isStr "control_request" && (request.get "subtype").isStr "mcp_message" &&
    (request.get "server_name").isStr serverName &&
    ((request.get "message").get "method").isStr "tools/call"

def callParams (frame : Json) : Json := ((frame.get "request").get "message").get "params"

/-- The reply to a control request other than a call. -/
def reply (exchange : Exchange) (request : Json) : Except CodexErr Json :=
  if (request.get "subtype").isStr "can_use_tool" then canUseTool exchange.calls request
  else if (request.get "subtype").isStr "mcp_message" &&
      (request.get "server_name").isStr serverName then do
    let result ← mcpResult exchange.session (request.get "message")
    .ok (mcpResponse (request.get "message") result)
  else .error (failure "unsupported CLI control request")

def control (serde : Serde) (exchange : Exchange) (frame : Json)
    (sender deferUncorrelated : Bool) : Except CodexErr Exchange :=
  if !(frame.get "type").isStr "control_request" then
    .error (failure "unexpected control frame")
  else if isToolsCall frame then
    exchange.toolsCall serde frame (callParams frame) sender deferUncorrelated
  else do
    let response ← exchange.reply (frame.get "request")
    .ok { exchange with session := exchange.session.write (controlResponse frame response) }

end Exchange

/-! ### Starting a session -/

namespace Session

def offeredTool (tool : Json) : Json :=
  object [("name", tool.get "name"), ("description", tool.get "description"),
    ("inputSchema", tool.get "parameters")]

/-- What an item of the initial history adds to the system prompt. -/
def systemLine (item : Json) : Except CodexErr Text :=
  if !(item.get "type").isStr "message" then .error (failure "fresh plaintext history required")
  else if (item.get "role").isStr "system" || (item.get "role").isStr "developer" then do
    let text ← textContent item
    .ok ('\n' :: text)
  else if (item.get "role").isStr "user" then .ok []
  else .error (failure "initial assistant history is unsupported")

def initializeRequest (system : Text) : Json :=
  object [("type", str "control_request".toList), ("request_id", str "native-initialize".toList),
    ("request", object [("subtype", str "initialize".toList),
      ("sdkMcpServers", arr [str serverName.toList]), ("systemPrompt", arr [str system]),
      ("agents", object []), ("skills", arr []), ("promptSuggestions", bool false),
      ("agentProgressSummaries", bool false)])]

/-- The frames up to and with the answer to the initialisation; `none` when it fails or
the answer is not the last of them. -/
def handshake (serde : Serde) : Session → List Json → Option Session
  | _, [] => none
  | session, frame :: rest =>
    if (frame.get "type").isStr "control_response" then
      if ((frame.get "response").get "request_id").isStr "native-initialize" &&
          ((frame.get "response").get "subtype").isStr "success" && rest.isEmpty then
        some session
      else none
    else
      match Exchange.control serde ⟨session, [], []⟩ frame false false with
      | .ok exchange => handshake serde exchange.session rest
      | .error _ => none

/-- A session for the prompt, with the frames the process sent during its start. -/
def start (serde : Serde) (prompt : Prompt) (model : Text) (frames : List Json) : Option Session :=
  match prepare serde prompt, h : Adapter.ofTools prompt.tools with
  | .ok (_, tools, input), some (adapter, _) =>
    match input.mapM systemLine with
    | .ok lines =>
      handshake serde {
        adapter
        rawTools := prompt.tools
        tools := tools.map offeredTool
        model
        instructions := prompt.baseInstructions
        history := []
        heldReply := none
        inTurn := false
        pendingToolCalls := []
        written := [initializeRequest (prompt.baseInstructions ++ lines.flatten)]
        adapted := by rw [h]; rfl } frames
    | .error _ => none
  | _, _ => none

end Session

end SushiGpt.ClaudeTransport
