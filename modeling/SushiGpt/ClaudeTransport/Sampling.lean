/-
One sampling request: `claude-transport/src/sampling.rs`.

`Session::sample` opens the request, then waits in turn for frames of the process and for
results of native tools until the message is complete or every call of it has a result.
Both kinds of input are one step of the loop here; the last result is held back and
written by the next request.
-/
import SushiGpt.ClaudeTransport.Session

namespace SushiGpt.ClaudeTransport

open Json CodexApi

structure Sampling extends Exchange where
  responseId : Option Text
  usage : Option TokenUsage
  finalMessage : Option ResponseItem
  messageStream : MessageStream

/-! ### Opening the request -/

/-- The text of the items that are new in native history. -/
def newText (historyIsEmpty : Bool) (items : List Json) : Except CodexErr Text := do
  let texts ← items.mapM fun item =>
    if historyIsEmpty &&
        ((item.get "role").isStr "system" || (item.get "role").isStr "developer") then .ok []
    else if !(item.get "type").isStr "message" || !(item.get "role").isStr "user" then
      .error (failure "unsupported native continuation")
    else textContent item
  .ok texts.flatten

def userMessage (text uuid : Text) : Json :=
  object [("type", str "user".toList),
    ("message", object [("role", str "user".toList), ("content", str text)]),
    ("parent_tool_use_id", null), ("uuid", str uuid)]

namespace Session

/-- The first frame of a request: the held reply, or else the new text. -/
def openingFrame (session : Session) (text uuid : Text) : Except CodexErr Json :=
  match session.heldReply with
  | some reply =>
    if !text.isEmpty then
      .error (failure "mailbox input during a pending tool continuation is unsupported")
    else .ok reply
  | none =>
    if text.isEmpty then .error (failure "missing native user input")
    else .ok (userMessage text uuid)

/-- `Session::sample` up to its loop. -/
def beginSample (serde : Serde) (session : Session) (prompt : Prompt) (model uuid : Text) :
    Except CodexErr Sampling := do
  let (_, _, input) ← prepare serde prompt
  if model ≠ session.model ∨ prompt.baseInstructions ≠ session.instructions ∨
      prompt.tools ≠ session.rawTools then
    .error (failure "changing models, tools or instructions requires a new child")
  else if !session.history.isPrefixOf input then
    .error (failure "native history changed; replay and compaction are unsupported")
  else
    let text ← newText session.history.isEmpty (input.drop session.history.length)
    let frame ← session.openingFrame text uuid
    .ok {
      session := { session with
        history := input
        inTurn := true
        heldReply := none
        pendingToolCalls := []
        written := session.written ++ [frame] }
      calls := []
      events := []
      responseId := none
      usage := none
      finalMessage := none
      messageStream := .empty }

end Session

namespace Sampling

/-! ### A native result -/

def toolReply (request : Json) (content : List Json) (isError : Bool) : Json :=
  object [("type", str "control_response".toList),
    ("response", object [("subtype", str "success".toList),
      ("request_id", request.get "request_id"),
      ("response", object [("mcp_response", object [("jsonrpc", str "2.0".toList),
        ("id", ((request.get "request").get "message").get "id"),
        ("result", object [("content", arr content), ("isError", bool isError)])])])])]

variable (serde : Serde) (state : Sampling)

/-- A result of a native tool.  The last one ends the request and its reply is held. -/
def onResult (item : ResponseItem) : Except CodexErr (Sampling × Bool) := do
  let raw := item.toValue
  let id ← orFail (raw.get "call_id").asStr "native result has no call ID"
  let call ← orFail (state.calls.lookup id) "result for unknown native call"
  if call.finished then .error (failure "duplicate native result")
  else
    let request ← orFail call.request "result before MCP request"
    let (content, isError) ← toolResultContent item (raw.get "output")
    let reply := toolReply request content isError
    let calls := state.calls.set id { call with finished := true }
    let session ← state.session.rememberValue serde raw
    if calls.all fun entry => entry.2.finished then
      -- Native limits and cancellation run before the final result is released.
      .ok ({ state with session := { session with heldReply := some reply }, calls }, true)
    else .ok ({ state with session := session.write reply, calls }, false)

/-! ### A frame of the process -/

/-- One content block of the message: text is collected, a call is declared. -/
def onBlock (adapter : Adapter) (state : Text × Calls) (block : Json) :
    Except CodexErr (Text × Calls) := do
  let (text, calls) := state
  if (block.get "type").isStr "text" then
    let more ← orFail (block.get "text").asStr "invalid assistant text"
    .ok (text ++ more, calls)
  else if (block.get "type").isStr "tool_use" then
    let callId ← orFail (block.get "id").asStr "tool call without ID"
    let name ← orFail ((block.get "name").asStr.bind fun name => name.dropPrefix? toolPre)
      "CLI attempted a non-native tool"
    let arguments := block.get "input"
    if (calls.lookup callId).isSome ||
        (calls.any fun entry => entry.2.name == name && entry.2.arguments == arguments) then
      .error (failure "duplicate or ambiguous assistant tool call")
    else
      let item := ResponseItem.functionCall none name none (serde.print arguments) (some []) callId
      let item ← orFail (adapter.restore serde item true) "unknown native tool"
      .ok (text, calls ++ [(callId, ⟨name, arguments, some item, none, false⟩)])
  else if (block.get "type").isStr "thinking" || (block.get "type").isStr "redacted_thinking" then
    .error (failure "reasoning blocks are not yet supported")
  else .error (failure "unsupported assistant content")

def assistantMessage (id text : Text) : ResponseItem :=
  .message (some ("msg_".toList ++ id)) "assistant".toList
    [object [("type", str "output_text".toList), ("text", str text)]]

/-- The text of the message: with calls it goes out before them, without it is the answer. -/
def placeText (id text : Text) : Except CodexErr Sampling :=
  if text.isEmpty then .ok state
  else if state.calls.isEmpty then
    .ok { state with finalMessage := some (assistantMessage id text) }
  else do
    let exchange ← state.toExchange.emit serde (assistantMessage id text)
    .ok { state with toExchange := exchange }

/-- The complete model message. -/
def onAssistant (parallelToolCalls : Bool) (state : Sampling) (message : Json) :
    Except CodexErr Sampling := do
  if state.responseId.isSome then
    .error (failure "unexpected CLI agent or model continuation")
  else
    let id ← orFail (message.get "id").asStr "assistant response without ID"
    let executed ← orFail (message.get "model").asStr "assistant response without model"
    let events := state.events ++ [.created (some id), .serverModel executed]
    let blocks ← orFail (message.get "content").asArray "invalid assistant content"
    let (text, calls) ← blocks.foldlM (onBlock serde state.session.adapter) ([], state.calls)
    if 1 < calls.length ∧ parallelToolCalls = false then
      .error (failure "model returned multiple tool calls while parallel calls are disabled")
    else
      let state := { state with
        events, calls, responseId := some id, usage := parseUsage (message.get "usage") }
      let state ← state.placeText serde id text
      -- Requests that came before their message was complete are tied to it now.
      let pending := state.session.pendingToolCalls
      let taken := { state.toExchange with
        session := { state.session with pendingToolCalls := [] } }
      let exchange ← pending.foldlM
        (fun exchange frame => exchange.control serde frame true false) taken
      .ok { state with toExchange := exchange }

def emitFinal : Except CodexErr Exchange :=
  match state.finalMessage with
  | some item => state.toExchange.emit serde item
  | none => .ok state.toExchange

/-- The process reports the end of the turn. -/
def onTurnResult (frame : Json) : Except CodexErr Sampling :=
  if !state.calls.isEmpty || state.responseId.isNone || !(frame.get "subtype").isStr "success" ||
      frame.get "is_error" != bool false ||
      ((frame.get "queued_turn_count").asU64.any fun count => count != 0) then
    .error (failure "CLI turn did not complete successfully")
  else do
    let exchange ← state.emitFinal serde
    .ok { state with
      toExchange := { exchange with session := { exchange.session with inTurn := false } }
      finalMessage := none }

/-- A frame that carries no model content. -/
def isInformational (frame : Json) : Bool :=
  let kind := frame.get "type"
  kind.isStr "user" || kind.isStr "keep_alive" || kind.isStr "rate_limit_event" ||
    kind.isStr "command_lifecycle" ||
    (kind.isStr "system" &&
      ((frame.get "subtype").isStr "init" || (frame.get "subtype").isStr "status"))

def onStreamEvent (parallelToolCalls : Bool) (state : Sampling) (frame : Json) :
    Except CodexErr Sampling :=
  if !(frame.get "parent_tool_use_id").isNull then .error (failure "unexpected CLI subagent")
  else do
    let (messageStream, message) ← state.messageStream.push serde (frame.get "event")
    match message with
    | none => .ok { state with messageStream }
    | some message =>
      onAssistant serde parallelToolCalls { state with messageStream := messageStream } message

/-- One frame of the process; the flag tells that the loop ends. -/
def onFrame (parallelToolCalls : Bool) (state : Sampling) (frame : Json) :
    Except CodexErr (Sampling × Bool) :=
  let kind := frame.get "type"
  -- Complete content is assembled from the stream.
  if kind.isStr "assistant" then .ok (state, false)
  else if kind.isStr "stream_event" then do
    let state ← state.onStreamEvent serde parallelToolCalls frame
    .ok (state, false)
  else if kind.isStr "control_request" then do
    let exchange ← state.toExchange.control serde frame true true
    .ok ({ state with toExchange := exchange }, false)
  else if kind.isStr "result" then do
    let state ← state.onTurnResult serde frame
    .ok (state, true)
  else if isInformational frame then .ok (state, false)
  else if kind.isStr "system" && (frame.get "subtype").isStr "permission_denied" then
    .error (failure "CLI denied a native tool itself instead of asking the host")
  else .error (failure "unsupported CLI event or unexpected background activity")

/-- What the request returns once its loop has ended. -/
def completed (state : Sampling) : Except CodexErr ResponseEvent := do
  let responseId ← orFail state.responseId "missing model response"
  .ok (.completed responseId state.usage (some (!state.session.inTurn)))

end Sampling

/-! ### The loop -/

inductive Input where
  | frame (frame : Json)
  | result (item : ResponseItem)

namespace Sampling

/-- One turn of the loop; results are taken only when there are calls. -/
def onInput (serde : Serde) (parallelToolCalls : Bool) (state : Sampling) (input : Input) :
    Option (Sampling × Bool) :=
  match input with
  | .frame frame => (state.onFrame serde parallelToolCalls frame).toOption
  | .result item =>
    if state.calls.isEmpty then none else (state.onResult serde item).toOption

/-- The loop over the given inputs, with whether it has ended; `none` when the request
fails or ends before the last of them. -/
def loop (serde : Serde) (parallelToolCalls : Bool) : Sampling → List Input →
    Option (Sampling × Bool)
  | state, [] => some (state, false)
  | state, input :: rest =>
    match state.onInput serde parallelToolCalls input with
    | none => none
    | some (next, false) => loop serde parallelToolCalls next rest
    | some (next, true) => if rest.isEmpty then some (next, true) else none

end Sampling

/-- One sampling request with everything it reads while it runs. -/
structure Request where
  prompt : Prompt
  model : Text
  uuid : Text
  inputs : List Input

/-- `Session::sample` when it returns `Ok`: the state its loop ends in. -/
def Session.sample (serde : Serde) (session : Session) (request : Request) : Option Sampling := do
  let opened ← (session.beginSample serde request.prompt request.model request.uuid).toOption
  let (state, returned) ←
    opened.loop serde request.prompt.parallelToolCalls request.inputs
  if returned && state.completed.toOption.isSome then some state else none

/-- Requests of one session one after the other, all of which return `Ok`. -/
def Session.samples (serde : Serde) : Session → List Request → Option Session
  | session, [] => some session
  | session, request :: rest => do
    let state ← session.sample serde request
    Session.samples serde state.session rest

end SushiGpt.ClaudeTransport
