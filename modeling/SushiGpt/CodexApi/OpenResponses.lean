/-
The stateless adapter: `codex-api/src/openresponses.rs`.

Native tools live in namespaces and may take free-form input; the adapter gives each of
them a flat alias `codex_tool_N` and a JSON schema, rewrites native history into that
vocabulary, and takes calls back out of it.  Printing and parsing of JSON text belong to
`serde_json` and are parameters.
-/
import SushiGpt.CodexApi.Items

namespace SushiGpt.CodexApi

open Json

/-- JSON text: `Value::to_string` and `serde_json::from_str`. -/
structure Serde where
  print : Json → Text
  parse : Text → Option Json

/-! ### Encrypted content -/

/-- The field itself says that its object is encrypted. -/
def encryptedField (key : Text) (value : Json) : Bool :=
  (key == "encrypted_content".toList && !value.isNull) ||
    (key == "encrypted".toList && value == bool true) ||
    (key == "encrypted_function_args".toList && value.asArray.any fun items => !items.isEmpty)

mutual

def containsEncryption : Json → Bool
  | .obj fields => anyEncryptedField fields
  | .arr items => anyEncryptedItem items
  | _ => false
termination_by structural value => value

def anyEncryptedItem : List Json → Bool
  | [] => false
  | item :: rest => containsEncryption item || anyEncryptedItem rest
termination_by structural items => items

def anyEncryptedField : List (Text × Json) → Bool
  | [] => false
  | field :: rest => encryptsField field || anyEncryptedField rest
termination_by structural fields => fields

def encryptsField : Text × Json → Bool
  | (key, value) => encryptedField key value || containsEncryption value
termination_by structural field => field

end

/-! ### The adapter -/

structure Tool where
  name : Text
  namespaceName : Option Text
  custom : Bool
  deriving DecidableEq

/-- Aliases are numbered in the order of the tools, so the newest tool is the last entry. -/
structure Adapter where
  tools : List (Text × Tool)
  aliases : List ((Option Text × Text) × Text)
  deriving DecidableEq

namespace Adapter

def empty : Adapter := ⟨[], []⟩

/-- The schema of a tool that takes free-form input. -/
def customParameters : Json :=
  object [("type", str "object".toList),
    ("properties", object [("input", object [("type", str "string".toList)])]),
    ("required", arr [str "input".toList]), ("additionalProperties", bool false)]

/-- One definition of a namespace, registered and flattened. -/
def addDefinition (namespaceName : Option Text) (state : Adapter × List Json)
    (definition : Json) : Option (Adapter × List Json) := do
  let (adapter, flattened) := state
  let custom ←
    if (definition.get "type").isStr "function" then some false
    else if (definition.get "type").isStr "custom" then some true
    else none
  let name ← (definition.get "name").asStr
  if (adapter.aliases.lookup (namespaceName, name)).isSome then none
  else
    let aliasName := "codex_tool_".toList ++ (Nat.repr adapter.tools.length).toList
    let definition :=
      if custom then definition.set "parameters" customParameters else definition
    let definition :=
      ((definition.set "type" (str "function".toList)).set "name" (str aliasName)).retain
        ["type", "name", "description", "parameters", "strict"]
    some (⟨adapter.tools ++ [(aliasName, ⟨name, namespaceName, custom⟩)],
      adapter.aliases ++ [((namespaceName, name), aliasName)]⟩, flattened ++ [definition])

/-- One tool of the request: a namespace with its definitions, or a single definition. -/
def addTool (state : Adapter × List Json) (tool : Json) : Option (Adapter × List Json) :=
  if (tool.get "type").isStr "namespace" then do
    let name ← (tool.get "name").asStr
    let definitions ← (tool.get "tools").asArray
    definitions.foldlM (addDefinition (some name)) state
  else addDefinition none state tool

/-- The adapter of a list of tools, with the flattened definitions. -/
def ofTools (tools : Json) : Option (Adapter × List Json) :=
  (tools.asArray.getD []).foldlM addTool (empty, [])

/-- A call under the alias of its tool; free-form input becomes a JSON argument. -/
def flattenCall (serde : Serde) (item : Json) (aliasName : Text) (tool : Tool) : Json :=
  let item :=
    if tool.custom then
      item.set "arguments" (str (serde.print (object [("input", item.get "input")])))
    else item
  ((((item.set "type" (str "function_call".toList)).set "name" (str aliasName)).erase
    "namespace").erase "input").erase "encrypted_function_args"

/-- An item in the flattened vocabulary, with fields that are yet to be dropped. -/
def rewriteItem (serde : Serde) (adapter : Adapter) (item : Json) : Option Json :=
  let kind := item.get "type"
  if kind.isStr "agent_message" then do
    let content ← (item.get "content").asArray
    if content.any fun block => !(block.get "type").isStr "input_text" then none
    else
      some (object [("type", str "message".toList), ("role", str "user".toList),
        ("content", arr content)])
  else if kind.isStr "function_call" || kind.isStr "custom_tool_call" then do
    let name ← (item.get "name").asStr
    let aliasName ← adapter.aliases.lookup ((item.get "namespace").asStr, name)
    let tool ← adapter.tools.lookup aliasName
    some (flattenCall serde item aliasName tool)
  else if kind.isStr "custom_tool_call_output" then
    some (item.set "type" (str "function_call_output".toList))
  else if kind.isStr "message" || kind.isStr "function_call_output" then some item
  else none

/-- The fields each kind of item keeps. -/
def keptFields (kind : Json) : List String :=
  if kind.isStr "message" then ["type", "role", "content", "id"]
  else if kind.isStr "function_call" then ["type", "name", "arguments", "call_id", "id"]
  else if kind.isStr "function_call_output" then ["type", "call_id", "output"]
  else []

/-- One native item in the flattened vocabulary. -/
def prepareItem (serde : Serde) (adapter : Adapter) (item : Json) : Option Json := do
  if containsEncryption item then none
  else
    let item ← rewriteItem serde adapter item
    some (item.retain (keptFields (item.get "type")))

/-- The tools and the input of a request in the flattened vocabulary. -/
def prepare (serde : Serde) (input : List Json) (tools : Json) :
    Option (Adapter × List Json × List Json) := do
  if containsEncryption (object [("input", arr input), ("tools", tools)]) then none
  else
    let (adapter, flattened) ← ofTools tools
    let input ← input.mapM (adapter.prepareItem serde)
    some (adapter, flattened, input)

/-- The free-form input of a call, once its arguments are complete. -/
def restoreInput (serde : Serde) (arguments : Text) (done : Bool) : Option Text :=
  if done then do
    let parsed ← serde.parse arguments
    (parsed.get "input").asStr
  else some []

/-- A call, or a message, taken back to the native vocabulary. -/
def restore (serde : Serde) (adapter : Adapter) (item : ResponseItem) (done : Bool) :
    Option ResponseItem :=
  if containsEncryption item.toValue then none
  else
    match item with
    | .functionCall id name _ arguments _ callId => do
      let tool ← adapter.tools.lookup name
      if tool.custom then
        let input ← restoreInput serde arguments done
        some (.customToolCall id callId tool.name tool.namespaceName input)
      else some (.functionCall id tool.name tool.namespaceName arguments (some []) callId)
    | .message id role content => some (.message id role content)
    | _ => none

end Adapter

end SushiGpt.CodexApi
