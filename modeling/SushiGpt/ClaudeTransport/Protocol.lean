/-
The wire protocol of the local model process: `claude-transport/src/protocol.rs`.

Native history in the flattened vocabulary, the texts of messages and tool results, and
the assembly of a model message from the events it is streamed in.
-/
import SushiGpt.CodexApi.OpenResponses

namespace SushiGpt.ClaudeTransport

open Json CodexApi

/-- `panicked` is an assignment to an index of a JSON scalar. -/
inductive CodexErr where
  | fatal (message : Text)
  | turnAborted
  | panicked

def failure (message : String) : CodexErr :=
  .fatal ("Local Claude transport: ".toList ++ message.toList)

/-- `ok_or_else` with a failure. -/
def orFail {α : Type} (value : Option α) (message : String) : Except CodexErr α :=
  match value with
  | some a => .ok a
  | none => .error (failure message)

/-- What a sampling request asks for. -/
structure Prompt where
  input : List ResponseItem
  tools : Json
  baseInstructions : Text
  parallelToolCalls : Bool

/-- The adapter, the flattened tools, and the input without item identifiers. -/
def prepare (serde : Serde) (prompt : Prompt) :
    Except CodexErr (Adapter × List Json × List Json) := do
  let (adapter, tools, input) ←
    orFail (Adapter.prepare serde (prompt.input.map ResponseItem.toValue) prompt.tools)
      "unsupported history or tool schema"
  .ok (adapter, tools, input.map fun item => item.erase "id")

/-! ### Texts -/

def textBlock (block : Json) : Except CodexErr Text :=
  if (block.get "type").isStr "input_text" || (block.get "type").isStr "output_text" then do
    let text ← orFail (block.get "text").asStr "invalid text"
    .ok (text ++ ['\n'])
  else .error (failure "only plaintext messages are currently supported")

def textContent (item : Json) : Except CodexErr Text := do
  let blocks ← orFail (item.get "content").asArray "text content required"
  let texts ← blocks.mapM textBlock
  .ok texts.flatten

def toolResultBlock (block : Json) : Except CodexErr Json :=
  if (block.get "type").isStr "input_text" then do
    let text ← orFail (block.get "text").asStr "invalid text tool result"
    .ok (object [("type", str "text".toList), ("text", str text)])
  else .error (failure "non-text tool results are unsupported")

def toolResultSuccess (item : ResponseItem) : Except CodexErr (Option Bool) :=
  match item with
  | .functionCallOutput _ _ output | .customToolCallOutput _ _ output => .ok output.success
  | _ => .error (failure "unexpected native tool result type")

def toolResultBlocks (body : Json) : Except CodexErr (List Json) :=
  match body with
  | .str text => .ok [object [("type", str "text".toList), ("text", str text)]]
  | .arr blocks => blocks.mapM toolResultBlock
  | _ => .error (failure "unsupported tool result body")

/-- The content of a tool result for the model process, and whether it is an error. -/
def toolResultContent (item : ResponseItem) (body : Json) : Except CodexErr (List Json × Bool) := do
  let success ← toolResultSuccess item
  let content ← toolResultBlocks body
  .ok (content, success == some false)

/-! ### Streamed messages -/

/-- The message so far, and the JSON text of tool inputs that are still streaming. -/
structure MessageStream where
  message : Option Json
  arguments : List (Nat × Text)

namespace MessageStream

def empty : MessageStream := ⟨none, []⟩

/-- The argument buffer of a block with more text. -/
def addArguments (index : Nat) (text : Text) : List (Nat × Text) → List (Nat × Text)
  | [] => [(index, text)]
  | (i, old) :: rest =>
    if index = i then (i, old ++ text) :: rest
    else if index < i then (index, text) :: (i, old) :: rest
    else (i, old) :: addArguments index text rest

def withBlocks (message : Json) (blocks : List Json) : Json :=
  message.set "content" (arr blocks)

def addText (block : Json) (delta : Text) : Json :=
  match block.get? "text" with
  | some (.str text) => block.set "text" (str (text ++ delta))
  | _ => block.set "text" (str delta)

def blockStart (stream : MessageStream) (message : Json) (blocks : List Json) (index : Nat)
    (event : Json) : Except CodexErr MessageStream :=
  if index ≠ blocks.length then .error (failure "nonsequential block index")
  else
    let block := event.get "content_block"
    if (block.get "type").isStr "text" || (block.get "type").isStr "tool_use" then
      .ok { stream with message := some (withBlocks message (blocks ++ [block])) }
    else .error (failure "unsupported model content block")

def blockDelta (stream : MessageStream) (message : Json) (blocks : List Json) (index : Nat)
    (event : Json) : Except CodexErr MessageStream := do
  let block ← orFail blocks[index]? "delta for unknown block"
  let delta := event.get "delta"
  if (delta.get "type").isStr "text_delta" && (block.get "type").isStr "text" then
    let text ← orFail (delta.get "text").asStr "invalid text delta"
    .ok { stream with message := some (withBlocks message (blocks.set index (addText block text))) }
  else if (delta.get "type").isStr "input_json_delta" && (block.get "type").isStr "tool_use" then
    let fragment ← orFail (delta.get "partial_json").asStr "invalid tool delta"
    -- An empty fragment does not start an argument buffer.
    if fragment.isEmpty then .ok stream
    else .ok { stream with arguments := addArguments index fragment stream.arguments }
  else .error (failure "unsupported model delta")

def blockStop (serde : Serde) (stream : MessageStream) (message : Json) (blocks : List Json)
    (index : Nat) : Except CodexErr MessageStream :=
  match stream.arguments.lookup index with
  | none => .ok stream
  | some text => do
    let block ← orFail blocks[index]? "stop for unknown block"
    let input ← orFail (serde.parse text) "invalid tool arguments"
    .ok ⟨some (withBlocks message (blocks.set index (block.set "input" input))),
      stream.arguments.filter fun entry => entry.1 ≠ index⟩

def blockEvent (serde : Serde) (stream : MessageStream) (event : Json) :
    Except CodexErr MessageStream := do
  let index ← orFail (event.get "index").asU64 "invalid block index"
  let message ← orFail stream.message "block outside model message"
  let blocks ← orFail (message.get "content").asArray "block outside model message"
  if (event.get "type").isStr "content_block_start" then
    stream.blockStart message blocks index event
  else if (event.get "type").isStr "content_block_delta" then
    stream.blockDelta message blocks index event
  else stream.blockStop serde message blocks index

/-- The fields of a usage report written over the message's own. -/
def addUsage (message : Json) (fields : List (Text × Json)) : Except CodexErr Json :=
  fields.foldlM (fun message field =>
    match (message.get "usage").set? (String.ofList field.1) field.2 with
    | some usage => .ok (message.set "usage" usage)
    | none => .error .panicked) message

/-- One event of the stream; the message is returned when it is complete. -/
def push (serde : Serde) (stream : MessageStream) (event : Json) :
    Except CodexErr (MessageStream × Option Json) :=
  let kind := event.get "type"
  if kind.isStr "message_start" then
    if stream.message.isSome then .error (failure "overlapping model messages")
    else
      match (event.get "message").set? "content" (arr []) with
      | some message => .ok ({ stream with message := some message }, none)
      | none => .error .panicked
  else if kind.isStr "content_block_start" || kind.isStr "content_block_delta" ||
      kind.isStr "content_block_stop" then do
    let stream ← stream.blockEvent serde event
    .ok (stream, none)
  else if kind.isStr "message_delta" then do
    let message ← orFail stream.message "delta outside model message"
    let message ← addUsage (message.set "stop_reason" ((event.get "delta").get "stop_reason"))
      ((event.get "usage").asObject.getD [])
    .ok ({ stream with message := some message }, none)
  else if kind.isStr "message_stop" then
    if !stream.arguments.isEmpty then .error (failure "unfinished tool arguments")
    else do
      let message ← orFail stream.message "stop outside model message"
      .ok ({ stream with message := none }, some message)
  else .error (failure "unsupported model stream event")

end MessageStream

def parseUsage (value : Json) : Option TokenUsage := do
  let input ← (value.get "input_tokens").asI64
  let output ← (value.get "output_tokens").asI64
  let cached := (value.get "cache_read_input_tokens").asI64.getD 0
  let written := (value.get "cache_creation_input_tokens").asI64.getD 0
  some {
    inputTokens := input + cached + written
    cachedInputTokens := cached
    cacheWriteInputTokens := written
    outputTokens := output
    totalTokens := input + cached + written + output }

end SushiGpt.ClaudeTransport
