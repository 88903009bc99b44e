/-
The agents that stay loaded: `core/src/agent/control/residency.rs`.

A reservation of a slot that finds no room takes the least recently used thread out of the list
of residents, looks it up, shuts it down and removes it from the thread manager, or puts it back.
Each lock of the list is one step here, and so is what becomes of a candidate; between two steps
of one reservation come those of others.
-/
import Mathlib.Data.Finset.Card

namespace SushiGpt.Core.Residency

variable {ThreadId : Type} [DecidableEq ThreadId]

structure V2ResidencyState (ThreadId : Type) where
  residents : List ThreadId
  pendingSlots : Nat

namespace V2ResidencyState

variable (s : V2ResidencyState ThreadId)

def touchResident (residents : List ThreadId) (threadId : ThreadId) : List ThreadId :=
  residents.filter (· ≠ threadId) ++ [threadId]

/-- The sum saturates in the source, which no capacity tells. -/
def tryReservePendingSlot (capacity : Nat) : Bool × V2ResidencyState ThreadId :=
  if s.residents.length + s.pendingSlots ≥ capacity then (false, s)
  else (true, { s with pendingSlots := s.pendingSlots + 1 })

/-- The loop of `pop_lru_candidate`: a protected thread goes to the back. -/
def popLru (protectedThreadId : Option ThreadId) :
    (candidatesToScan : Nat) → List ThreadId → Option ThreadId × List ThreadId
  | 0, residents => (none, residents)
  | _ + 1, [] => (none, [])
  | n + 1, candidate :: rest =>
    if some candidate = protectedThreadId then popLru protectedThreadId n (rest ++ [candidate])
    else (some candidate, rest)

def popLruCandidate (protectedThreadId : Option ThreadId) :
    Option ThreadId × V2ResidencyState ThreadId :=
  let (candidate, residents) := popLru protectedThreadId s.residents.length s.residents
  (candidate, { s with residents })

def touch (threadId : ThreadId) : V2ResidencyState ThreadId :=
  { s with residents := touchResident s.residents threadId }

def remove (threadId : ThreadId) : V2ResidencyState ThreadId :=
  { s with residents := s.residents.filter (· ≠ threadId) }

def commitSlot (threadId : ThreadId) : V2ResidencyState ThreadId where
  pendingSlots := s.pendingSlots - 1
  residents := touchResident s.residents threadId

def releasePendingSlot : V2ResidencyState ThreadId :=
  { s with pendingSlots := s.pendingSlots - 1 }

end V2ResidencyState

/-- Where a call of `reserve_slot` stands, and then the slot it returned. -/
inductive Reservation (ThreadId : Type) where
  /-- At the head of the loop. -/
  | trying (protectedThreadId : Option ThreadId)
  /-- There was no slot. -/
  | counting (protectedThreadId : Option ThreadId)
  | scanning (protectedThreadId : Option ThreadId) (left : Nat)
  /-- A candidate has been taken out of the list. -/
  | unloading (protectedThreadId : Option ThreadId) (left : Nat) (candidate : ThreadId)
  | agentLimitReached
  | slot
  /-- The slot was committed or dropped. -/
  | spent

namespace Reservation

def candidate? : Reservation ThreadId → Option ThreadId
  | unloading _ _ candidate => some candidate
  | _ => none

def isSlot : Reservation ThreadId → Bool
  | slot => true
  | _ => false

/-- The next lock of a call, which does not wait for a candidate. -/
def advance (capacity : Nat) (s : V2ResidencyState ThreadId) :
    Reservation ThreadId → Option (Reservation ThreadId × V2ResidencyState ThreadId)
  | trying protectedThreadId =>
    match s.tryReservePendingSlot capacity with
    | (true, s) => some (slot, s)
    | (false, s) => some (counting protectedThreadId, s)
  | counting protectedThreadId => some (scanning protectedThreadId s.residents.length, s)
  | scanning _ 0 => some (agentLimitReached, s)
  | scanning protectedThreadId (left + 1) =>
    match s.popLruCandidate protectedThreadId with
    | (none, s) => some (agentLimitReached, s)
    | (some candidate, s) => some (unloading protectedThreadId left candidate, s)
  | _ => none

end Reservation

inductive UnloadOutcome where
  /-- The manager has no such thread, or it is not one to be resident. -/
  | missing
  /-- It is busy, or its shutdown failed. -/
  | failed
  | unloaded

/-- `loaded` are the threads of the thread manager. -/
structure V2Residency (ThreadId : Type) where
  state : V2ResidencyState ThreadId
  reservations : List (Reservation ThreadId)
  loaded : Finset ThreadId

inductive Action (ThreadId : Type) where
  | reserveSlot (protectedThreadId : Option ThreadId)
  | advance (i : Nat)
  | unload (i : Nat) (outcome : UnloadOutcome)
  | commit (i : Nat) (threadId : ThreadId)
  | dropSlot (i : Nat)
  | touch (threadId : ThreadId)
  | remove (threadId : ThreadId)
  /-- The manager starts or resumes a thread. -/
  | load (threadId : ThreadId)
  /-- A thread leaves the manager by itself. -/
  | discard (threadId : ThreadId)

namespace V2Residency

def empty : V2Residency ThreadId := ⟨⟨[], 0⟩, [], ∅⟩

variable (r : V2Residency ThreadId)

/-- The threads taken out of the list to be unloaded. -/
def candidates : List ThreadId := r.reservations.filterMap Reservation.candidate?

/-- The residents that are loaded; one that is being unloaded is loaded as well. -/
def loadedResidents : Finset ThreadId :=
  r.loaded.filter fun threadId => threadId ∈ r.state.residents ∨ threadId ∈ r.candidates

def setReservation (i : Nat) (reservation : Reservation ThreadId)
    (state : V2ResidencyState ThreadId) : V2Residency ThreadId :=
  { r with state, reservations := r.reservations.set i reservation }

def advance (capacity i : Nat) : Option (V2Residency ThreadId) := do
  let reservation ← r.reservations[i]?
  let (reservation, state) ← reservation.advance capacity r.state
  some (r.setReservation i reservation state)

/-- The rest of the loop of `try_unload_one_resident` once a candidate is out. -/
def unload (i : Nat) (outcome : UnloadOutcome) : Option (V2Residency ThreadId) :=
  match r.reservations[i]? with
  | some (.unloading protectedThreadId left candidate) =>
    match outcome with
    | .missing => some (r.setReservation i (.scanning protectedThreadId left) r.state)
    | .failed =>
      some (r.setReservation i (.scanning protectedThreadId left) (r.state.touch candidate))
    | .unloaded =>
      some { r.setReservation i (.trying protectedThreadId) r.state with
        loaded := r.loaded.erase candidate }
  | _ => none

def spend (i : Nat) (state : V2ResidencyState ThreadId) : Option (V2Residency ThreadId) :=
  match r.reservations[i]? with
  | some .slot => some (r.setReservation i .spent state)
  | _ => none

def step (capacity : Nat) (r : V2Residency ThreadId) :
    Action ThreadId → Option (V2Residency ThreadId)
  | .reserveSlot protectedThreadId =>
    some { r with reservations := r.reservations ++ [.trying protectedThreadId] }
  | .advance i => r.advance capacity i
  | .unload i outcome => r.unload i outcome
  | .commit i threadId => r.spend i (r.state.commitSlot threadId)
  | .dropSlot i => r.spend i r.state.releasePendingSlot
  | .touch threadId => some { r with state := r.state.touch threadId }
  | .remove threadId => some { r with state := r.state.remove threadId }
  | .load threadId => some { r with loaded := insert threadId r.loaded }
  | .discard threadId => some { r with loaded := r.loaded.erase threadId }

end V2Residency

end SushiGpt.Core.Residency
