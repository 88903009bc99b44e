/-
Rollout records.

A rollout is the list of records that a thread persists, oldest first.  The events are those
that the replay of a rollout tells apart.
-/
import SushiGpt.Core.ResponseItem
import SushiGpt.Core.WorldState

namespace SushiGpt.Core

inductive TurnItem where
  | userMessage (payload : Text)
  | other (payload : Text)

def TurnItem.isUserMessage : TurnItem → Bool
  | .userMessage _ => true
  | .other _ => false

inductive EventMsg where
  | userMessage (payload : Text)
  | turnStarted (turnId : Text)
  | turnComplete (turnId : Text)
  | turnAborted (turnId : Option Text)
  | threadRolledBack (numTurns : Nat)
  | itemCompleted (turnId : Text) (item : TurnItem)
  | other (payload : Text)

structure CompactedItem where
  message : Text
  replacementHistory : Option (List ResponseItemEnvelope)
  windowNumber : Option Nat
  firstWindowId : Option Text
  previousWindowId : Option Text
  windowId : Option Text

structure TurnContextItem where
  turnId : Option Text
  model : Text
  compHash : Option Text
  realtimeActive : Option Bool
  payload : Text
  deriving DecidableEq

/-- The head of a rollout; `contextWindow` is the id of its first context window. -/
structure SessionMeta where
  contextWindow : Option Text
  payload : Text

inductive RolloutItem where
  | sessionMeta (line : SessionMeta)
  | responseItem (envelope : ResponseItemEnvelope)
  | interAgentCommunication (communication : InterAgentCommunication)
  | interAgentCommunicationMetadata (triggerTurn : Bool)
  | compacted (item : CompactedItem)
  | turnContext (item : TurnContextItem)
  | tokenUsageRecord (payload : Text)
  | worldState (item : WorldStateItem)
  | securityRiskScore (payload : Text)
  | retainedContext (payload : Text)
  | eventMsg (event : EventMsg)
  | realtimeItem (payload : Text)

def RolloutItem.isThreadRolledBack : RolloutItem → Bool
  | .eventMsg (.threadRolledBack _) => true
  | _ => false

/-- A marker that drops turns. -/
def RolloutItem.rollsBack : RolloutItem → Bool
  | .eventMsg (.threadRolledBack numTurns) => 0 < numTurns
  | _ => false

end SushiGpt.Core
