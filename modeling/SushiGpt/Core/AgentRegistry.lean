/-
The registry of agents and the spawn reservations: `core/src/agent/registry.rs`.

A spawn first reserves a slot of the counter, then perhaps a path, and at last commits the agent;
a reservation that is dropped gives back what it has.  The registry is a tree of agents by path
and the paths of the threads; the reservations that are outstanding are kept beside it.
-/
import Mathlib.Data.Char
import SushiGpt.Lib.OrderedMap
import SushiGpt.Lib.Text

namespace SushiGpt.Core

/-- The functions that make a path validate it, which nothing here depends on. -/
@[ext]
structure AgentPath where
  value : Text
  deriving DecidableEq

def AgentPath.root : AgentPath := ⟨"/root".toList⟩

structure AgentMetadata (ThreadId : Type) where
  agentId : Option ThreadId
  agentPath : Option AgentPath
  agentNickname : Option Text
  agentRole : Option Text
  deriving DecidableEq

inductive CodexErr where
  | agentLimitReached (maxThreads : Nat)
  | unsupportedOperation (message : Text)

/-- A reservation as long as it is active. -/
@[ext]
structure SpawnReservation where
  reservedAgentPath : Option AgentPath

/-- `thread_paths` is read as a function.  The environments of evicted threads are left out. -/
structure AgentRegistry (ThreadId : Type) where
  agentTree : OrderedMap Text (AgentMetadata ThreadId)
  threadPaths : ThreadId → Option Text
  usedAgentNicknames : List Text
  totalCount : Nat

variable {ThreadId : Type} [DecidableEq ThreadId]

namespace AgentMetadata

variable (metadata : AgentMetadata ThreadId)

/-- The agent is counted: it is not the root. -/
def isCounted : Bool := metadata.agentPath ≠ some .root

def key (display : ThreadId → Text) (threadId : ThreadId) : Text :=
  match metadata.agentPath with
  | some path => path.value
  | none => "thread:".toList ++ display threadId

end AgentMetadata

namespace AgentRegistry

def new : AgentRegistry ThreadId := ⟨.empty, fun _ => none, [], 0⟩

variable (registry : AgentRegistry ThreadId)

def liveAgents : List (AgentMetadata ThreadId) :=
  (registry.agentTree.entries.map Prod.snd).filter fun metadata =>
    metadata.agentId.isSome && metadata.isCounted

def tryIncrementSpawned (maxThreads : Nat) : Option (AgentRegistry ThreadId) :=
  if registry.totalCount ≥ maxThreads then none
  else some { registry with totalCount := registry.totalCount + 1 }

def reserveSpawnSlot (maxThreads : Option Nat) :
    Except CodexErr (AgentRegistry ThreadId × SpawnReservation) :=
  match maxThreads with
  | some maxThreads =>
    match registry.tryIncrementSpawned maxThreads with
    | none => .error (.agentLimitReached maxThreads)
    | some registry => .ok (registry, ⟨none⟩)
  | none => .ok ({ registry with totalCount := registry.totalCount + 1 }, ⟨none⟩)

def releaseSpawnedThread (threadId : ThreadId) : AgentRegistry ThreadId :=
  match registry.threadPaths threadId with
  | none => registry
  | some path =>
    { registry with
      threadPaths := Function.update registry.threadPaths threadId none
      agentTree := registry.agentTree.erase path
      totalCount := if (registry.agentTree.get? path).any AgentMetadata.isCounted then
        registry.totalCount - 1 else registry.totalCount }

def registerRootThread (threadId : ThreadId) : AgentRegistry ThreadId :=
  match registry.agentTree.get? AgentPath.root.value with
  | some metadata =>
    match metadata.agentId with
    | some rootThreadId =>
      { registry with threadPaths :=
        Function.update registry.threadPaths rootThreadId (some AgentPath.root.value) }
    | none => registry
  | none =>
    { registry with
      agentTree := registry.agentTree.insert AgentPath.root.value
        ⟨some threadId, some .root, none, none⟩
      threadPaths := Function.update registry.threadPaths threadId (some AgentPath.root.value) }

def registerSpawnedThread (display : ThreadId → Text) (metadata : AgentMetadata ThreadId) :
    AgentRegistry ThreadId :=
  match metadata.agentId with
  | none => registry
  | some threadId =>
    let key := metadata.key display threadId
    let threadPaths := Function.update registry.threadPaths threadId (some key)
    let agentTree :=
      match registry.threadPaths threadId with
      | some previous =>
        if previous ≠ key then registry.agentTree.erase previous else registry.agentTree
      | none => registry.agentTree
    { registry with
      usedAgentNicknames := metadata.agentNickname.toList ++ registry.usedAgentNicknames
      agentTree := agentTree.insert key metadata
      threadPaths :=
        match (agentTree.get? key).bind AgentMetadata.agentId with
        | some previous =>
          if previous ≠ threadId then Function.update threadPaths previous none else threadPaths
        | none => threadPaths }

def reserveAgentPath (agentPath : AgentPath) : Except CodexErr (AgentRegistry ThreadId) :=
  match registry.agentTree.get? agentPath.value with
  | some _ => .error (.unsupportedOperation
      ("agent path `".toList ++ agentPath.value ++ "` already exists".toList))
  | none => .ok { registry with
      agentTree := registry.agentTree.insert agentPath.value ⟨none, some agentPath, none, none⟩ }

def releaseReservedAgentPath (agentPath : AgentPath) : AgentRegistry ThreadId :=
  if (registry.agentTree.get? agentPath.value).any fun metadata => metadata.agentId.isNone then
    { registry with agentTree := registry.agentTree.erase agentPath.value }
  else registry

end AgentRegistry

/-! ### Sequences of operations -/

structure Spawning (ThreadId : Type) where
  registry : AgentRegistry ThreadId
  reservations : List SpawnReservation

/-- A reservation is named by its position among those that are outstanding. -/
inductive Spawning.Action (ThreadId : Type) where
  | reserveSpawnSlot (maxThreads : Option Nat)
  | reserveAgentPath (index : Nat) (agentPath : AgentPath)
  | commit (index : Nat) (metadata : AgentMetadata ThreadId)
  | drop (index : Nat)
  | registerRootThread (threadId : ThreadId)
  | releaseSpawnedThread (threadId : ThreadId)

namespace Spawning

def new : Spawning ThreadId := ⟨.new, []⟩

/-- One operation; there is none when the reservation it names is not outstanding. -/
def step (display : ThreadId → Text) (s : Spawning ThreadId) :
    Action ThreadId → Option (Spawning ThreadId)
  | .reserveSpawnSlot maxThreads =>
    match s.registry.reserveSpawnSlot maxThreads with
    | .error _ => some s
    | .ok (registry, reservation) => some ⟨registry, s.reservations ++ [reservation]⟩
  | .reserveAgentPath index agentPath =>
    if index < s.reservations.length then
      match s.registry.reserveAgentPath agentPath with
      | .error _ => some s
      | .ok registry => some ⟨registry, s.reservations.set index ⟨some agentPath⟩⟩
    else none
  | .commit index metadata =>
    if index < s.reservations.length then
      some ⟨s.registry.registerSpawnedThread display metadata, s.reservations.eraseIdx index⟩
    else none
  | .drop index =>
    match s.reservations[index]? with
    | none => none
    | some reservation =>
      let registry := match reservation.reservedAgentPath with
        | some agentPath => s.registry.releaseReservedAgentPath agentPath
        | none => s.registry
      some ⟨{ registry with totalCount := registry.totalCount - 1 }, s.reservations.eraseIdx index⟩
  | .registerRootThread threadId =>
    some { s with registry := s.registry.registerRootThread threadId }
  | .releaseSpawnedThread threadId =>
    some { s with registry := s.registry.releaseSpawnedThread threadId }

end Spawning

end SushiGpt.Core
