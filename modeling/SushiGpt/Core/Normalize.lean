/-
Making a history fit for a prompt: `core/src/context_manager/normalize.rs`.

Every call gets an output, outputs without a call are removed, and media that the model cannot
read are replaced by a text.  The items are as far as this pass reads them; what it only carries
along is one `payload`.  Where the program keeps one set of call ids for each kind of tool, the
ids here come with their kind.  The hash of an id is a parameter.

What should not be missing or orphaned is reported as well; a debug build stops there.
-/
import SushiGpt.Core.ResponseItem

namespace SushiGpt.Core.Normalize

inductive InputModality where
  | text
  | image
  | audio
  deriving DecidableEq

inductive FunctionCallOutputContentItem where
  | inputText (text : Text)
  | inputImage (image : ImageReference) (detail : Option Text)
  | inputAudio (audioUrl : Text)
  | encryptedContent (encryptedContent : Text)

inductive FunctionCallOutputBody where
  | text (text : Text)
  | contentItems (items : List FunctionCallOutputContentItem)

structure FunctionCallOutputPayload where
  body : FunctionCallOutputBody
  success : Option Bool

def FunctionCallOutputPayload.fromText (text : Text) : FunctionCallOutputPayload :=
  ⟨.text text, none⟩

inductive Item where
  | message (content : List ContentItem) (metadata : Option MessageMetadata) (payload : Text)
  | localShellCall (id callId : Option Text) (payload : Text)
  | functionCall (id : Option Text) (callId payload : Text)
  | toolSearchCall (id callId : Option Text) (payload : Text)
  | customToolCall (id : Option Text) (callId payload : Text)
  | functionCallOutput (id callId name toolNamespace : Option Text)
      (output : FunctionCallOutputPayload) (metadata : Option MessageMetadata)
  | customToolCallOutput (id : Option Text) (callId : Text) (name : Option Text)
      (output : FunctionCallOutputPayload) (metadata : Option MessageMetadata)
  | toolSearchOutput (id callId : Option Text) (status execution : Text) (tools : List Text)
      (metadata : Option MessageMetadata)
  | imageGenerationCall (result payload : Text)
  | other (payload : Text)

structure Envelope where
  item : Item
  metadata : Option HarnessMetadata

/-! ### Calls and outputs -/

/-- A local shell call is answered by a function call output. -/
inductive ToolKind where
  | function
  | toolSearch
  | customTool
  deriving DecidableEq

def Item.call? : Item → Option (ToolKind × Text)
  | .functionCall _ callId _ => some (.function, callId)
  | .localShellCall _ callId _ => callId.map (.function, ·)
  | .toolSearchCall _ callId _ => callId.map (.toolSearch, ·)
  | .customToolCall _ callId _ => some (.customTool, callId)
  | _ => none

def Item.output? : Item → Option (ToolKind × Text)
  | .functionCallOutput _ callId _ _ _ _ => callId.map (.function, ·)
  | .toolSearchOutput _ callId _ _ _ _ => callId.map (.toolSearch, ·)
  | .customToolCallOutput _ callId _ _ _ => some (.customTool, callId)
  | _ => none

/-- The server runs some tool searches itself. -/
def Item.isServerToolSearchOutput : Item → Bool
  | .toolSearchOutput _ _ _ execution _ _ => execution == "server".toList
  | _ => false

def callIds (items : List Envelope) : List (ToolKind × Text) :=
  items.filterMap (·.item.call?)

def outputIds (items : List Envelope) : List (ToolKind × Text) :=
  items.filterMap (·.item.output?)

section Outputs

variable (uuidV5 : Text → Text)

def syntheticOutputId (kind : String) (itemId : Option Text) : Option Text :=
  (itemId.filter fun id => !id.isEmpty).map fun sourceId =>
    kind.toList ++ '_' :: uuidV5 (kind.toList ++ ':' :: sourceId)

def abortedFunctionCall (id : Option Text) (callId : Text) : Item :=
  .functionCallOutput (syntheticOutputId uuidV5 "fco" id) (some callId) none none
    (.fromText "aborted".toList) none

/-- The output that stands in for that of a call. -/
def syntheticOutput : Item → Option Item
  | .functionCall id callId _ => some (abortedFunctionCall uuidV5 id callId)
  | .toolSearchCall id (some callId) _ =>
    some (.toolSearchOutput (syntheticOutputId uuidV5 "tso" id) (some callId) "completed".toList
      "client".toList [] none)
  | .customToolCall id callId _ =>
    some (.customToolCallOutput (syntheticOutputId uuidV5 "ctco" id) callId none
      (.fromText "aborted".toList) none)
  | .localShellCall id (some callId) _ => some (abortedFunctionCall uuidV5 id callId)
  | _ => none

def missingOutput (outputIds : List (ToolKind × Text)) (envelope : Envelope) : Option Envelope :=
  if envelope.item.call?.any (· ∉ outputIds) then
    (syntheticOutput uuidV5 envelope.item).map (⟨·, none⟩)
  else none

/-- The outputs are inserted behind their calls from the last one on, so that no index shifts. -/
def ensureCallOutputsPresent (items : List Envelope) : List Envelope :=
  let missingOutputsToInsert := items.zipIdx.filterMap fun (envelope, idx) =>
    (missingOutput uuidV5 (outputIds items) envelope).map (idx, ·)
  missingOutputsToInsert.reverse.foldl
    (fun items (idx, outputItem) => items.insertIdx (idx + 1) outputItem) items

end Outputs

def isOrphan (callIds : List (ToolKind × Text)) (envelope : Envelope) : Bool :=
  envelope.item.output?.any (· ∉ callIds) && !envelope.item.isServerToolSearchOutput

/-- Keeps what does not stand at one of the positions, which ascend. -/
def retainExcept {α : Type} : List Nat → Nat → List α → List α
  | _, _, [] => []
  | positions, position, item :: items =>
    if positions.head? = some position then retainExcept positions.tail (position + 1) items
    else item :: retainExcept positions (position + 1) items

def removeOrphanOutputs (items : List Envelope) : List Envelope :=
  let orphanPositions := items.zipIdx.filterMap fun (envelope, position) =>
    if isOrphan (callIds items) envelope then some position else none
  if orphanPositions.isEmpty then items else retainExcept orphanPositions 0 items

/-! ### Media -/

/-- Content whose kind is not known is classified as such. -/
def toAnnotatedContent (content : List ContentItem) (metadata : Option MessageMetadata) :
    List (ContentItem × Text) :=
  content.zip (((metadata.bind (·.contentItemKinds)).getD []) ++
    List.replicate content.length "unknown".toList)

/-- Changes the annotated content of messages, the content items of outputs and the results of
image generation. -/
def mapContent (content : ContentItem × Text → ContentItem × Text)
    (output : FunctionCallOutputContentItem → FunctionCallOutputContentItem)
    (generated : Text → Text) : Item → Item
  | .message items metadata payload =>
    let annotated := (toAnnotatedContent items metadata).map content
    .message (annotated.map (·.1))
      (some { metadata.getD ⟨none, none⟩ with contentItemKinds := some (annotated.map (·.2)) })
      payload
  | .functionCallOutput id callId name toolNamespace ⟨.contentItems items, success⟩ metadata =>
    .functionCallOutput id callId name toolNamespace ⟨.contentItems (items.map output), success⟩
      metadata
  | .customToolCallOutput id callId name ⟨.contentItems items, success⟩ metadata =>
    .customToolCallOutput id callId name ⟨.contentItems (items.map output), success⟩ metadata
  | .imageGenerationCall result payload => .imageGenerationCall (generated result) payload
  | item => item

/-- A kind of media, and what stands in its place. -/
structure UnsupportedMedia where
  text : Text
  contentKind : Text
  isContent : ContentItem → Bool
  isOutput : FunctionCallOutputContentItem → Bool
  generated : Text → Text

namespace UnsupportedMedia

def image : UnsupportedMedia where
  text := "image content omitted because you do not support image input".toList
  contentKind := "images.unsupported".toList
  isContent := fun | .inputImage .. => true | _ => false
  isOutput := fun | .inputImage .. => true | _ => false
  generated := fun _ => []

def audio : UnsupportedMedia where
  text := "audio content omitted because you do not support audio input".toList
  contentKind := "audio.unsupported".toList
  isContent := fun | .inputAudio _ => true | _ => false
  isOutput := fun | .inputAudio _ => true | _ => false
  generated := id

def replaceContent (media : UnsupportedMedia) (annotated : ContentItem × Text) :
    ContentItem × Text :=
  if media.isContent annotated.1 then (.inputText media.text, media.contentKind) else annotated

def replaceOutput (media : UnsupportedMedia) (item : FunctionCallOutputContentItem) :
    FunctionCallOutputContentItem :=
  if media.isOutput item then .inputText media.text else item

def strip (media : UnsupportedMedia) : Item → Item :=
  mapContent media.replaceContent media.replaceOutput media.generated

end UnsupportedMedia

def mapItems (change : Item → Item) (items : List Envelope) : List Envelope :=
  items.map fun envelope => { envelope with item := change envelope.item }

def stripImagesWhenUnsupported (inputModalities : List InputModality) (items : List Envelope) :
    List Envelope :=
  if .image ∈ inputModalities then items else mapItems UnsupportedMedia.image.strip items

def stripAudioWhenUnsupported (inputModalities : List InputModality) (items : List Envelope) :
    List Envelope :=
  if .audio ∈ inputModalities then items else mapItems UnsupportedMedia.audio.strip items

def normalizeHistory (uuidV5 : Text → Text) (inputModalities : List InputModality)
    (items : List Envelope) : List Envelope :=
  let items := ensureCallOutputsPresent uuidV5 items
  let items := removeOrphanOutputs items
  let items := stripImagesWhenUnsupported inputModalities items
  stripAudioWhenUnsupported inputModalities items

end SushiGpt.Core.Normalize
