/-
Conversation items and response events: `protocol/src/models.rs`, `codex-api/src/common.rs`.

The items a model transport and the native turn exchange, with the JSON each is serialised
to.  The variants that no transport accepts are kept as their serialised value.
-/
import SushiGpt.Lib.Json

namespace SushiGpt.CodexApi

open Json

/-! ### Items -/

/-- A plain string, or structured content items as they are serialised. -/
inductive FunctionCallOutputBody where
  | text (text : Text)
  | contentItems (items : List Json)
  deriving DecidableEq

/-- `success` is for the native side only and is not serialised. -/
structure FunctionCallOutputPayload where
  body : FunctionCallOutputBody
  success : Option Bool
  deriving DecidableEq

inductive ResponseItem where
  | message (id : Option Text) (role : Text) (content : List Json)
  | functionCall (id : Option Text) (name : Text) (namespaceName : Option Text)
      (arguments : Text) (encryptedFunctionArgs : Option (List Text)) (callId : Text)
  | functionCallOutput (id : Option Text) (callId : Option Text)
      (output : FunctionCallOutputPayload)
  | customToolCall (id : Option Text) (callId : Text) (name : Text)
      (namespaceName : Option Text) (input : Text)
  | customToolCallOutput (id : Option Text) (callId : Text) (output : FunctionCallOutputPayload)
  | other (value : Json)
  deriving DecidableEq

/-- A field that is skipped when there is no value. -/
def optionalField (key : String) (value : Option Text) : List (String × Json) :=
  match value with
  | some text => [(key, str text)]
  | none => []

def FunctionCallOutputPayload.toValue (payload : FunctionCallOutputPayload) : Json :=
  match payload.body with
  | .text text => str text
  | .contentItems items => arr items

def encryptedArgsField (arguments : Option (List Text)) : List (String × Json) :=
  match arguments with
  | some texts => [("encrypted_function_args", arr (texts.map str))]
  | none => []

namespace ResponseItem

/-- The serialised fields of an item other than its identifier. -/
def body : ResponseItem → List (String × Json)
  | message _ role content =>
    [("type", str "message".toList), ("role", str role), ("content", arr content)]
  | functionCall _ name namespaceName arguments encryptedFunctionArgs callId =>
    [("type", str "function_call".toList), ("name", str name)] ++
      optionalField "namespace" namespaceName ++ [("arguments", str arguments)] ++
      encryptedArgsField encryptedFunctionArgs ++ [("call_id", str callId)]
  | functionCallOutput _ callId output =>
    [("type", str "function_call_output".toList)] ++ optionalField "call_id" callId ++
      [("output", output.toValue)]
  | customToolCall _ callId name namespaceName input =>
    [("type", str "custom_tool_call".toList), ("call_id", str callId), ("name", str name)] ++
      optionalField "namespace" namespaceName ++ [("input", str input)]
  | customToolCallOutput _ callId output =>
    [("type", str "custom_tool_call_output".toList), ("call_id", str callId),
      ("output", output.toValue)]
  | other _ => []

def id : ResponseItem → Option Text
  | message id _ _ | functionCall id _ _ _ _ _ | functionCallOutput id _ _
  | customToolCall id _ _ _ _ | customToolCallOutput id _ _ => id
  | other value => (value.get "id").asStr

/-- What `serde_json::to_value` makes of an item. -/
def toValue (item : ResponseItem) : Json :=
  match item with
  | other value => value
  | _ => object (item.body ++ optionalField "id" item.id)

/-- A function call without encrypted arguments, as `serde_json::from_value` reads it. -/
def ofFunctionCall (value : Json) : Option ResponseItem := do
  if (value.get "type").isStr "function_call" then
    let name ← (value.get "name").asStr
    let arguments ← (value.get "arguments").asStr
    let callId ← (value.get "call_id").asStr
    some (functionCall (value.get "id").asStr name (value.get "namespace").asStr arguments none
      callId)
  else none

def setId (item : ResponseItem) (id : Option Text) : ResponseItem :=
  match item with
  | message _ role content => message id role content
  | functionCall _ name namespaceName arguments encryptedFunctionArgs callId =>
    functionCall id name namespaceName arguments encryptedFunctionArgs callId
  | functionCallOutput _ callId output => functionCallOutput id callId output
  | customToolCall _ callId name namespaceName input =>
    customToolCall id callId name namespaceName input
  | customToolCallOutput _ callId output => customToolCallOutput id callId output
  | other value =>
    other (match id with
      | some text => value.set "id" (str text)
      | none => value.erase "id")

/-- An item without an identifier gets a fresh one when native history records it. -/
def assignMissingResponseItemId (item : ResponseItem) (fresh : Text) : ResponseItem :=
  if item.id.any (· ≠ []) then item else item.setId (some fresh)

end ResponseItem

/-! ### Events -/

structure TokenUsage where
  inputTokens : Int
  cachedInputTokens : Int
  cacheWriteInputTokens : Int
  outputTokens : Int
  totalTokens : Int

inductive ResponseEvent where
  | created (responseId : Option Text)
  | serverModel (model : Text)
  | outputItemDone (item : ResponseItem)
  | completed (responseId : Text) (tokenUsage : Option TokenUsage) (endTurn : Option Bool)

def ResponseEvent.item? : ResponseEvent → Option ResponseItem
  | outputItemDone item => some item
  | _ => none

end SushiGpt.CodexApi
