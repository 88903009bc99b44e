/-
A sampling request and the native turn that consumes it: `core/src/session/turn.rs`,
`core/src/stream_events_utils.rs`, with the two channels of `claude-transport/src/lib.rs`.

The transport and the native turn are two tasks.  Events go one way, tool results the
other, each in order.  The native turn records an item when it takes its event out of the
channel and runs the tool if the item is a call; it records a tool's output when the tool
has finished, in the order the tools were started, and then sends it to the transport.
The channels are unbounded here: a sender that waits for room has already recorded what it
sends, so it only takes part in fewer interleavings.
-/
import SushiGpt.ClaudeTransport.Sampling

namespace SushiGpt.ClaudeTransport

open CodexApi

/-! ### The native turn -/

/-- What a running tool will answer: the call, and whether it took free-form input. -/
structure RunningTool where
  callId : Text
  custom : Bool

def buildToolCall : ResponseItem → Option RunningTool
  | .functionCall _ _ _ _ _ callId => some ⟨callId, false⟩
  | .customToolCall _ callId _ _ _ => some ⟨callId, true⟩
  | _ => none

def RunningTool.output (tool : RunningTool) (payload : FunctionCallOutputPayload) : ResponseItem :=
  if tool.custom then .customToolCallOutput none tool.callId payload
  else .functionCallOutput none (some tool.callId) payload

/-- The history of the turn, and its running tools in the order they were started. -/
structure NativeTurn where
  history : List ResponseItem
  inFlight : List RunningTool

namespace NativeTurn

/-- `fresh` is the identifier an item gets that has none. -/
def record (turn : NativeTurn) (item : ResponseItem) (fresh : Text) : NativeTurn :=
  { turn with history := turn.history ++ [item.assignMissingResponseItemId fresh] }

def onEvent (turn : NativeTurn) (event : ResponseEvent) (fresh : Text) : NativeTurn :=
  match event with
  | .outputItemDone item =>
    let turn := turn.record item fresh
    { turn with inFlight := turn.inFlight ++ (buildToolCall item).toList }
  | _ => turn

end NativeTurn

/-! ### Both sides -/

/-- The two tasks and the channels between them. `results` goes to the transport; the
channel to the native turn is part of the transport's state. -/
structure Duplex where
  sampling : Sampling
  results : List ResponseItem
  native : NativeTurn
  returned : Bool

inductive Action where
  /-- The transport reads a frame of the process. -/
  | frame (frame : Json)
  /-- The transport takes a tool result out of its channel. -/
  | result
  /-- The native turn takes an event out of its channel. -/
  | event (fresh : Text)
  /-- The oldest running tool has finished. -/
  | toolDone (payload : FunctionCallOutputPayload) (fresh : Text)

namespace Duplex

/-- The transport's part of a step. -/
def withSampling (duplex : Duplex) (results : List ResponseItem)
    (outcome : Except CodexErr (Sampling × Bool)) : Option Duplex :=
  match outcome with
  | .ok (sampling, returned) => some { duplex with sampling, results, returned }
  | .error _ => none

/-- One step; there is none when the request fails or has returned. -/
def step (serde : Serde) (parallelToolCalls : Bool) (duplex : Duplex) (action : Action) :
    Option Duplex :=
  if duplex.returned then none
  else
    match action with
    | .frame frame =>
      duplex.withSampling duplex.results (duplex.sampling.onFrame serde parallelToolCalls frame)
    | .result =>
      match duplex.results with
      | [] => none
      | item :: rest =>
        if duplex.sampling.calls.isEmpty then none
        else duplex.withSampling rest (duplex.sampling.onResult serde item)
    | .event fresh =>
      match duplex.sampling.events with
      | [] => none
      | event :: rest =>
        some { duplex with
          sampling := { duplex.sampling with events := rest }
          native := duplex.native.onEvent event fresh }
    | .toolDone payload fresh =>
      match duplex.native.inFlight with
      | [] => none
      | tool :: rest =>
        let output := tool.output payload
        some { duplex with
          native := { duplex.native.record output fresh with inFlight := rest }
          results := duplex.results ++ [output] }

def run (serde : Serde) (parallelToolCalls : Bool) (duplex : Duplex) (actions : List Action) :
    Option Duplex :=
  actions.foldlM (step serde parallelToolCalls) duplex

/-- A request that has just been opened by a turn with the given history. -/
def opened (sampling : Sampling) (history : List ResponseItem) : Duplex :=
  ⟨sampling, [], ⟨history, []⟩, false⟩

/-- What the next request of the turn would take native history for. -/
def adaptedHistory (serde : Serde) (duplex : Duplex) (prompt : Prompt) :
    Except CodexErr (List Json) := do
  let (_, _, input) ← prepare serde { prompt with input := duplex.native.history }
  .ok input

end Duplex

end SushiGpt.ClaudeTransport
