/-
The session of a transport has one owner.

`Inv` counts: a transport is active exactly when one task holds its lease, and every session
that has been created is in one place, parked or with one task, until it is stopped.  What a
step of one stream does to the counts is said once, in `Effect`; the rest of the streams do
not matter for it.
-/
import SushiGpt.ClaudeTransport.Transport
import SushiGpt.Lib.Machine
import SushiGpt.Proofs.ClaudeTransport.Deferral

namespace SushiGpt.ClaudeTransport

open CodexApi Transport List Stopper Machine

variable {d : Serde} {t : Transport} {stopped : List Nat} {stream : Stream}
  {state : State}

/-! ### Where the sessions are -/

def ownedKeys (session : Option Owned) : List Nat := session.toList.map Owned.key

def State.isActive : State → Bool
  | active => true
  | _ => false

def State.keys : State → List Nat
  | idle session => ownedKeys session
  | _ => []

def Task.keys : Task → List Nat
  | running session | ended session _ | publishing session _ => ownedKeys session
  | stopping owned _ => [owned.key]
  | _ => []

/-- The child process of a session that is being started. -/
def Task.startingKeys : Task → List Nat
  | starting key => [key]
  | _ => []

/-- The task has leased the session and has not published it. -/
def Task.holdsLease : Task → Bool
  | running _ | starting _ | ended _ _ | publishing _ _ => true
  | _ => false

def Stopper.keys : Stopper → List Nat
  | stopping owned => [owned.key]
  | _ => []

def Stream.keys (stream : Stream) : List Nat := stream.task.keys ++ stream.watcher.keys

namespace Transport

def dropKeys (t : Transport) : List Nat :=
  t.dropTask.toList.flatMap Stopper.keys

/-- The sessions that are parked or that a task has. -/
def owned (t : Transport) : List Nat :=
  t.shared.state.keys ++ t.dropKeys ++ t.streams.flatMap Stream.keys

def starting (t : Transport) : List Nat :=
  t.streams.flatMap fun stream => stream.task.startingKeys

def leases (t : Transport) : Nat :=
  t.streams.countP fun stream => stream.task.holdsLease

end Transport

/-- The task of the drop has not taken the parked session. -/
def Untaken (dt : Option Stopper) : Prop := dt = none ∨ dt = some .waiting

/-- What the task of a stream knows about the session it is about to park. -/
structure Careful (dt : Option Stopper) (stream : Stream) : Prop where
  ended : ∀ owned event, stream.task = .ended (some owned) (.ok event) →
    owned.turnId = stream.turnId
  publishing : ∀ owned event, stream.task = .publishing (some owned) (.ok event) →
    owned.turnId = stream.turnId ∧
      (owned.session.inTurn = true → stream.watcher = .waiting) ∧ Untaken dt

structure Inv (t : Transport) : Prop where
  lease : t.leases = t.shared.state.isActive.toNat
  sessions : ∀ key, t.owned.count key + t.shared.stopped.count key = t.shared.created.count key
  children : ∀ key, t.starting.count key + t.shared.killed.count key +
    t.shared.created.count key = if key < t.shared.children then 1 else 0
  /-- A watcher moves only after its turn is cancelled. -/
  watched : ∀ stream ∈ t.streams, stream.watcher ≠ .waiting →
    stream.turnId ∈ t.shared.cancelledTurns
  careful : ∀ stream ∈ t.streams, Careful t.dropTask stream
  /-- A session parked in a turn has a watcher of that turn that still waits. -/
  guarded : ∀ owned, t.shared.state = .idle (some owned) →
    owned.session.inTurn = true → ∃ stream ∈ t.streams,
      stream.turnId = owned.turnId ∧ stream.watcher = .waiting
  untaken : ∀ owned, t.shared.state = .idle (some owned) → Untaken t.dropTask
  shutdown : t.shared.shutdown = t.dropTask.isSome

theorem inv_new : Inv .new where
  lease := rfl
  sessions _ := rfl
  children key := by simp [new, starting]
  watched _ hst := absurd hst not_mem_nil
  careful _ hst := absurd hst not_mem_nil
  guarded _ hpk := nomatch hpk
  untaken _ hpk := nomatch hpk
  shutdown := rfl

/-! ### One stream -/

structure Effect (dt : Option Stopper) (shared shared' : Shared)
    (stream stream' : Stream) : Prop where
  turn : stream'.turnId = stream.turnId
  cancelled : shared'.cancelledTurns = shared.cancelledTurns
  shutdown : shared'.shutdown = shared.shutdown
  lease : stream'.task.holdsLease.toNat + shared.state.isActive.toNat =
    stream.task.holdsLease.toNat + shared'.state.isActive.toNat
  sessions : ∀ key, shared'.state.keys.count key + stream'.keys.count key +
      shared'.stopped.count key + shared.created.count key =
    shared.state.keys.count key + stream.keys.count key + shared.stopped.count key +
      shared'.created.count key
  children : ∀ key, stream'.task.startingKeys.count key + shared'.killed.count key +
      shared'.created.count key + (if key < shared.children then 1 else 0) =
    stream.task.startingKeys.count key + shared.killed.count key + shared.created.count key +
      (if key < shared'.children then 1 else 0)
  watched : stream'.watcher ≠ .waiting → stream.watcher ≠ .waiting ∨
    stream.turnId ∈ shared.cancelledTurns
  careful : Careful dt stream'
  /-- A parked session stays with its watcher, or is parked now with this one. -/
  parked : ∀ owned, shared'.state = .idle (some owned) →
    (shared.state = .idle (some owned) ∧ (stream.watcher = .waiting →
        owned.session.inTurn = true → stream.turnId = owned.turnId →
        stream'.watcher = .waiting)) ∨
      ((owned.session.inTurn = true →
        stream'.turnId = owned.turnId ∧ stream'.watcher = .waiting) ∧ Untaken dt)
  failed : shared.state = .failed → shared'.state = .failed

/-- The task ends well, so that it may park a session. -/
def Task.endsWell : Task → Bool
  | ended _ (.ok _) | publishing _ (.ok _) => true
  | _ => false

theorem Careful.of_not_endsWell {dt : Option Stopper} (h : stream.task.endsWell = false) :
    Careful dt stream := by
  refine ⟨fun o e ht => ?_, fun o e ht => ?_⟩ <;> rw [ht] at h <;> cases h

section Steps

variable {dt : Option Stopper} {shared shared' : Shared} {stream stream' : Stream}
  {l alive : Bool}

/-- A step that leaves the state and the watcher alone. -/
theorem Effect.of_task {old task : Task} {children : Nat} {created killed : List Nat}
    (ht : stream.task = old) (hlease : task.holdsLease = old.holdsLease)
    (hsess : ∀ key, task.keys.count key + stopped.count key + shared.created.count key =
      old.keys.count key + shared.stopped.count key + created.count key)
    (hchil : ∀ key, task.startingKeys.count key + killed.count key + created.count key +
        (if key < shared.children then 1 else 0) =
      old.startingKeys.count key + shared.killed.count key + shared.created.count key +
        (if key < children then 1 else 0))
    (hcare : Careful dt { stream with task := task }) :
    Effect dt shared { shared with children, created, stopped, killed } stream
      { stream with task := task } where
  turn := rfl
  cancelled := rfl
  shutdown := rfl
  lease := by rw [hlease, ht]
  sessions key := by
    have := hsess key
    simp only [Stream.keys, count_append, ht]
    omega
  children := ht ▸ hchil
  watched := Or.inl
  careful := hcare
  parked owned hpk := Or.inl ⟨hpk, fun h _ _ => h⟩
  failed h := h

/-- A step that only moves the task, with what it has. -/
theorem Effect.moves {old t : Task} (ht : stream.task = old)
    (hlease : t.holdsLease = old.holdsLease) (hkeys : t.keys = old.keys)
    (hstar : t.startingKeys = old.startingKeys) (hcare : Careful dt { stream with task := t }) :
    Effect dt shared shared stream { stream with task := t } :=
  .of_task ht hlease (fun _ => by rw [hkeys]) (fun _ => by rw [hstar]) hcare

/-- The start of a session is given up and its child process killed. -/
theorem Effect.kills {key : Nat} {error : CodexErr} (ht : stream.task = .starting key) :
    Effect dt shared { shared with killed := key :: shared.killed } stream
      { stream with task := .ended none (.error error) } := by
  refine .of_task ht rfl (fun _ => rfl) (fun key => ?_) (.of_not_endsWell rfl)
  simp only [Task.startingKeys, count_cons, count_nil]
  omega

/-- A step that only moves the watcher, with what it has. -/
theorem Effect.watches {watcher : Stopper} (hact : state.isActive = shared.state.isActive)
    (hsess : ∀ key, state.keys.count key + watcher.keys.count key + stopped.count key =
      shared.state.keys.count key + stream.watcher.keys.count key + shared.stopped.count key)
    (hwat : stream.watcher ≠ .waiting ∨ stream.turnId ∈ shared.cancelledTurns)
    (hcare : Careful dt { stream with watcher := watcher })
    (hpk : ∀ owned, state = .idle (some owned) →
      shared.state = .idle (some owned) ∧ (stream.watcher = .waiting →
        owned.session.inTurn = true → stream.turnId = owned.turnId → watcher = .waiting))
    (hfl : shared.state = .failed → state = .failed) :
    Effect dt shared { shared with state, stopped } stream
      { stream with watcher := watcher } where
  turn := rfl
  cancelled := rfl
  shutdown := rfl
  lease := by rw [hact]
  sessions key := by
    have := hsess key
    simp only [Stream.keys, count_append]
    omega
  children _ := rfl
  watched _ := hwat
  careful := hcare
  parked owned h := Or.inl (hpk owned h)
  failed := hfl

theorem lease_effect (h : stream.step d l alive shared .lease = some (shared', stream')) :
    Effect dt shared shared' stream stream' := by
  unfold Stream.step at h
  dsimp only at h
  split at h
  · next ht =>
    split_ifs at h
    cases hstate : shared.state with
    | idle s =>
      rw [hstate] at h
      cases h
      refine ⟨rfl, rfl, rfl, ?_, fun key => ?_, fun key => ?_, Or.inl, ?_, nofun, ?_⟩
      · rw [ht, hstate]
        rfl
      · simp only [Stream.keys, Task.keys, State.keys, ht, hstate, count_append, count_nil]
        omega
      · simp only [Task.startingKeys, ht]
      · exact .of_not_endsWell rfl
      · rw [hstate]
        exact nofun
    | _ =>
      rw [hstate] at h
      cases h
      rw [← hstate]
      exact .moves ht rfl rfl rfl (.of_not_endsWell rfl)
  · cases h

/-- What is read under the lock: a session that will be parked in its turn has a turn that
is not cancelled, and the transport is not dropped. -/
theorem check_effect (hcare : Careful dt stream)
    (hwat : stream.watcher ≠ .waiting → stream.turnId ∈ shared.cancelledTurns)
    (hshut : shared.shutdown = dt.isSome)
    (h : stream.step d l alive shared .check = some (shared', stream')) :
    Effect dt shared shared' stream stream' := by
  unfold Stream.step at h
  dsimp only at h
  split at h
  · next s out ht =>
    split_ifs at h
    cases h
    refine .moves ht rfl rfl rfl ⟨nofun, fun o e hpub => ?_⟩
    injection hpub with hsess hout
    unfold Stream.checked at hout
    split_ifs at hout with hrd
    subst hsess hout
    simp only [Bool.or_eq_true, Bool.and_eq_true, not_or, Option.any_some,
      contains_eq_mem, decide_eq_true_eq] at hrd
    obtain ⟨⟨-, hrun⟩, htu⟩ := hrd
    refine ⟨hcare.ended o e ht, fun hinTurn => ?_, Or.inl ?_⟩
    · by_contra hmov
      exact htu ⟨hwat hmov, hinTurn⟩
    · rw [hshut] at hrun
      exact Option.not_isSome_iff_eq_none.mp hrun
  · cases h

/-- What publishing leaves: the session is parked or left to stop. -/
structure Published (session : Option Owned) (state : State) (task : Task) : Prop where
  inactive : state.isActive = false
  holdsLease : task.holdsLease = false
  startingKeys : task.startingKeys = []
  endsWell : task.endsWell = false
  keys : ∀ key, state.keys.count key + task.keys.count key = (ownedKeys session).count key

theorem afterPublish_published (session : Option Owned) (outcome : Except CodexErr ResponseEvent) :
    Published session (Stream.afterPublish session outcome).1
      (Stream.afterPublish session outcome).2 := by
  cases outcome with
  | ok event => exact ⟨rfl, rfl, rfl, rfl, fun _ => rfl⟩
  | error error =>
    cases session with
    | none => exact ⟨rfl, rfl, rfl, rfl, fun _ => rfl⟩
    | some owned => exact ⟨rfl, rfl, rfl, rfl, fun _ => Nat.zero_add _⟩

theorem publish_effect (hcare : Careful dt stream)
    (hact : stream.isPublishing = true → shared.state = .active)
    (h : stream.step d l alive shared .publish = some (shared', stream')) :
    Effect dt shared shared' stream stream' := by
  unfold Stream.step at h
  dsimp only at h
  split at h
  · next session outcome ht =>
    cases h
    have hact := hact (by rw [Stream.isPublishing, ht])
    have hpub := afterPublish_published session outcome
    refine ⟨rfl, rfl, rfl, ?_, fun key => ?_, fun _ => ?_, Or.inl,
      .of_not_endsWell hpub.endsWell, fun owned hpk => ?_, ?_⟩
    · rw [hpub.holdsLease, hpub.inactive, hact, ht]
      rfl
    · have hkeys := hpub.keys key
      simp only [Stream.keys, State.keys, Task.keys, ht, hact, count_append, count_nil] at hkeys ⊢
      omega
    · rw [hpub.startingKeys, ht]
      rfl
    · cases outcome with
      | error error =>
        cases session with
        | none | some owned => cases hpk
      | ok event =>
        cases hpk
        obtain ⟨htu, hguar, hunt⟩ := hcare.publishing owned event ht
        exact Or.inr ⟨fun hinTurn => ⟨htu.symm, hguar hinTurn⟩, hunt⟩
    · rw [hact]
      exact nofun
  · cases h

/-- What a cancelled turn finds: a session in that turn, which it fails, or no such one. -/
inductive FailParked (turnId : Option Text) (state state' : State) : Option Owned → Prop where
  | fails (owned : Owned) (hparked : state = .idle (some owned)) (hfailed : state' = .failed) :
      FailParked turnId state state' (some owned)
  | leaves (hsame : state' = state) (hnot : ∀ owned, state = .idle (some owned) →
      owned.session.inTurn = true → turnId ≠ owned.turnId) :
      FailParked turnId state state' none

theorem failParked_spec (t : Option Text) (state : State) :
    FailParked t state (state.failParked t).2 (state.failParked t).1 := by
  unfold State.failParked
  split
  · next o =>
    split_ifs with hmat
    · exact .fails o rfl rfl
    · refine .leaves rfl fun other ho hinTurn ht => hmat ?_
      cases ho
      rw [Bool.and_eq_true, beq_iff_eq]
      exact ⟨hinTurn, ht.symm⟩
  · next hnot => exact .leaves rfl fun o hpk => absurd hpk (hnot o)

theorem watch_effect (hcare : Careful dt stream)
    (hlock : stream.isPublishing = true → l = true)
    (hgone : alive = false → stream.isPublishing = false ∧
      ∀ owned, shared.state ≠ .idle (some owned))
    (h : stream.step d l alive shared .watch = some (shared', stream')) :
    Effect dt shared shared' stream stream' := by
  unfold Stream.step at h
  dsimp only at h
  split at h
  · next hwait =>
    by_cases hcanc : stream.turnId ∈ shared.cancelledTurns
    swap
    · rw [if_pos (by simpa using hcanc)] at h
      cases h
    rw [if_neg (by simpa using hcanc)] at h
    -- The task is not about to park while its watcher moves.
    have hmov : stream.isPublishing = false → ∀ watcher : Stopper,
        Careful dt { stream with watcher := watcher } := by
      intro hnot watcher
      refine ⟨hcare.ended, fun owned event ht => ?_⟩
      rw [Stream.isPublishing, ht] at hnot
      cases hnot
    have hn : stream.watcher.keys = [] := by
      rw [hwait]
      rfl
    cases hal : alive with
    | false =>
      obtain ⟨hnot, hunp⟩ := hgone hal
      rw [hal] at h
      cases h
      refine .watches rfl (fun _ => ?_) (Or.inr hcanc) (hmov hnot _)
        (fun owned hpk => absurd hpk (hunp owned)) fun h => h
      rw [hn]
      rfl
    | true =>
      rw [hal, if_neg (by decide)] at h
      split_ifs at h with hloc
      have hnot : stream.isPublishing = false := Bool.eq_false_iff.mpr fun hpub => hloc (hlock hpub)
      have hspec := failParked_spec stream.turnId shared.state
      split at h <;> rename_i hfail <;> rw [hfail] at hspec <;> cases h
      · obtain ⟨_, hpk, rfl⟩ := hspec
        refine .watches ?_ (fun _ => ?_) (Or.inr hcanc) (hmov hnot _) nofun fun _ => rfl
        · rw [hpk]
          rfl
        · rw [hn, hpk]
          simp only [State.keys, Stopper.keys, ownedKeys, Option.toList_some, map_cons, map_nil,
            count_nil]
          omega
      · obtain - | ⟨rfl, ho⟩ := hspec
        refine .watches rfl (fun _ => ?_) (Or.inr hcanc) (hmov hnot _)
          (fun owned hpk => ⟨hpk, fun _ hinTurn htu => ?_⟩) fun h => h
        · rw [hn]
          rfl
        · exact absurd htu (ho owned hpk hinTurn)
  · cases h

theorem watcherStops_effect (hcare : Careful dt stream)
    (h : stream.step d l alive shared .watcherStops = some (shared', stream')) :
    Effect dt shared shared' stream stream' := by
  unfold Stream.step at h
  dsimp only at h
  split at h
  · next owned hwat =>
    cases h
    have hmov : stream.watcher ≠ .waiting := by
      rw [hwat]
      exact nofun
    refine .watches rfl (fun _ => ?_) (Or.inl hmov) ?_
      (fun _ hpk => ⟨hpk, fun hwait => absurd hwait hmov⟩) fun h => h
    · simp only [hwat, Stopper.keys, count_cons, count_nil]
      omega
    · refine ⟨hcare.ended, fun owned event ht => ?_⟩
      obtain ⟨htu, hguar, hunt⟩ := hcare.publishing owned event ht
      exact ⟨htu, fun hinTurn => absurd (hguar hinTurn) hmov, hunt⟩
  · cases h

theorem spawn_effect (h : stream.step d l alive shared .spawn = some (shared', stream')) :
    Effect dt shared shared' stream stream' := by
  dsimp only [Stream.step] at h
  split at h
  · next ht =>
    cases h
    refine .of_task ht rfl (fun _ => rfl) (fun key => ?_) (.of_not_endsWell rfl)
    simp only [Task.startingKeys, count_cons, count_nil, beq_iff_eq]
    split_ifs <;> omega
  · cases h

theorem startFails_effect {error : CodexErr}
    (h : stream.step d l alive shared (.startFails error) = some (shared', stream')) :
    Effect dt shared shared' stream stream' := by
  dsimp only [Stream.step] at h
  split at h
  · next ht =>
    cases h
    exact .moves ht rfl rfl rfl (.of_not_endsWell rfl)
  · next key ht =>
    cases h
    exact .kills ht
  · cases h

theorem starts_effect {frames : List Json}
    (h : stream.step d l alive shared (.starts frames) = some (shared', stream')) :
    Effect dt shared shared' stream stream' := by
  dsimp only [Stream.step] at h
  split at h
  · next key ht =>
    split at h
    · next session hst =>
      cases h
      refine .of_task ht rfl (fun _ => ?_) (fun key => ?_) (.of_not_endsWell rfl)
      · simp only [Task.keys, ownedKeys, Option.toList_some, map_cons, map_nil, count_cons,
          count_nil]
        omega
      · simp only [Task.startingKeys, count_cons, count_nil]
        omega
    · cases h
  · cases h

/-- A sampling that ends well leaves the session in the turn of its stream. -/
theorem samples_effect {uuid : Text} {inputs : List Input}
    (h : stream.step d l alive shared (.samples uuid inputs) = some (shared', stream')) :
    Effect dt shared shared' stream stream' := by
  dsimp only [Stream.step] at h
  split at h
  · next owned ht =>
    split at h
    · split at h
      · cases h
        refine .moves ht rfl rfl rfl ⟨fun owned' event' hend => ?_, fun _ _ hpub => ?_⟩
        · cases hend
          rfl
        · cases hpub
      · cases h
    · cases h
  · cases h

theorem sampleFails_effect {error : CodexErr} {left : Session}
    (h : stream.step d l alive shared (.sampleFails error left) = some (shared', stream')) :
    Effect dt shared shared' stream stream' := by
  dsimp only [Stream.step] at h
  split at h
  · next owned ht =>
    cases h
    exact .moves ht rfl rfl rfl (.of_not_endsWell rfl)
  · cases h

theorem aborts_effect {left : Session}
    (h : stream.step d l alive shared (.aborts left) = some (shared', stream')) :
    Effect dt shared shared' stream stream' := by
  dsimp only [Stream.step] at h
  split_ifs at h
  split at h
  · next ht =>
    cases h
    exact .moves ht rfl rfl rfl (.of_not_endsWell rfl)
  · next key ht =>
    cases h
    exact .kills ht
  · next owned ht =>
    cases h
    exact .moves ht rfl rfl rfl (.of_not_endsWell rfl)
  · cases h

theorem stop_effect (h : stream.step d l alive shared .stop = some (shared', stream')) :
    Effect dt shared shared' stream stream' := by
  dsimp only [Stream.step] at h
  split at h
  · next owned outcome ht =>
    cases h
    refine .of_task ht rfl (fun key => ?_) (fun _ => rfl) (.of_not_endsWell rfl)
    simp only [Task.keys, count_cons, count_nil]
    omega
  · cases h

theorem dropConsumer_effect (hcare : Careful dt stream)
    (h : stream.step d l alive shared .dropConsumer = some (shared', stream')) :
    Effect dt shared shared' stream stream' := by
  cases h
  exact ⟨rfl, rfl, rfl, rfl, fun _ => rfl, fun _ => rfl, Or.inl,
    ⟨hcare.ended, hcare.publishing⟩, fun _ hpk => Or.inl ⟨hpk, fun h _ _ => h⟩, fun h => h⟩

/-- **Every step of a stream has an effect.** -/
theorem step_effect {action : StreamAction} (hcare : Careful dt stream)
    (hwat : stream.watcher ≠ .waiting → stream.turnId ∈ shared.cancelledTurns)
    (hshut : shared.shutdown = dt.isSome)
    (hact : stream.isPublishing = true → shared.state = .active)
    (hlock : stream.isPublishing = true → l = true)
    (hgone : alive = false → stream.isPublishing = false ∧
      ∀ owned, shared.state ≠ .idle (some owned))
    (h : stream.step d l alive shared action = some (shared', stream')) :
    Effect dt shared shared' stream stream' := by
  cases action with
  | lease => exact lease_effect h
  | spawn => exact spawn_effect h
  | startFails error => exact startFails_effect h
  | starts frames => exact starts_effect h
  | samples uuid inputs => exact samples_effect h
  | sampleFails error left => exact sampleFails_effect h
  | aborts left => exact aborts_effect h
  | check => exact check_effect hcare hwat hshut h
  | publish => exact publish_effect hcare hact h
  | stop => exact stop_effect h
  | dropConsumer => exact dropConsumer_effect hcare h
  | watch => exact watch_effect hcare hlock hgone h
  | watcherStops => exact watcherStops_effect hcare h

end Steps

/-! ### The transport -/

namespace Inv

/-- A step of one stream keeps the invariant of the transport. -/
theorem effect {shared shared' : Shared} {b a : List Stream} {stream' : Stream}
    {dt : Option Stopper} (h : Inv ⟨shared, b ++ stream :: a, dt⟩)
    (heff : Effect dt shared shared' stream stream') : Inv ⟨shared', b ++ stream' :: a, dt⟩ := by
  have hmem : ∀ {old new o : Stream}, o ∈ b ++ new :: a → o = new ∨ o ∈ b ++ old :: a := by
    intro old new o ho
    simp only [mem_append, mem_cons] at ho ⊢
    tauto
  have hself : stream ∈ b ++ stream :: a := mem_append_right _ mem_cons_self
  have hself' : stream' ∈ b ++ stream' :: a := mem_append_right _ mem_cons_self
  refine ⟨?_, fun key => ?_, fun key => ?_, fun o ho hmov => ?_,
    fun o ho => ?_, fun owned hpk hinTurn => ?_, fun owned hpk => ?_, ?_⟩
  · have hlease := h.lease
    have hs := heff.lease
    simp only [leases, countP_append, countP_cons, Bool.toNat, cond_eq_ite] at hlease hs ⊢
    omega
  · have hsess := h.sessions key
    have hs := heff.sessions key
    simp only [owned, dropKeys, flatMap_append, flatMap_cons, count_append] at hsess ⊢
    omega
  · have hchil := h.children key
    have hs := heff.children key
    simp only [starting, flatMap_append, flatMap_cons, count_append] at hchil ⊢
    omega
  · rw [heff.cancelled]
    rcases hmem ho with rfl | ho
    · rw [heff.turn]
      rcases heff.watched hmov with hmov | hcanc
      · exact h.watched stream hself hmov
      · exact hcanc
    · exact h.watched o ho hmov
  · rcases hmem ho with rfl | ho
    · exact heff.careful
    · exact h.careful o ho
  · rcases heff.parked owned hpk with ⟨hpk, hstays⟩ | ⟨hguar, -⟩
    · obtain ⟨o, ho, ht, hwait⟩ := h.guarded owned hpk hinTurn
      rcases hmem ho with rfl | ho
      · exact ⟨stream', hself', heff.turn.trans ht, hstays hwait hinTurn ht⟩
      · exact ⟨o, ho, ht, hwait⟩
    · obtain ⟨ht, hwait⟩ := hguar hinTurn
      exact ⟨stream', hself', ht, hwait⟩
  · rcases heff.parked owned hpk with ⟨hpk, -⟩ | ⟨-, hunt⟩
    · exact h.untaken owned hpk
    · exact hunt
  · exact heff.shutdown.trans h.shutdown

theorem active_of_isPublishing (h : Inv t) (hmem : stream ∈ t.streams)
    (hpub : stream.isPublishing = true) : t.shared.state = .active := by
  have hhol : stream.task.holdsLease = true := by
    unfold Stream.isPublishing at hpub
    split at hpub
    · next s o ht =>
      rw [ht]
      rfl
    · cases hpub
  have hpos : 0 < t.leases := countP_pos_iff.mpr ⟨stream, hmem, hhol⟩
  rw [h.lease] at hpos
  cases hstate : t.shared.state with
  | active => rfl
  | _ =>
    rw [hstate] at hpos
    cases hpos

theorem task {t' : Transport} {index : Nat} {action : StreamAction} (h : Inv t)
    (hs : t.step d (.task index action) = some t') :
    Inv t' ∧ (t.shared.state = .failed → t'.shared.state = .failed) := by
  obtain ⟨shared, streams, dt⟩ := t
  dsimp only [step] at hs
  split at hs
  · cases hs
  · next stream hst =>
    split at hs
    · cases hs
    · next shared' next hnext =>
      cases hs
      have hmem : stream ∈ streams := mem_of_getElem? hst
      obtain ⟨before, after, hsp, hset⟩ := Lists.exists_split_of_getElem? hst
      have hgone : alive ⟨shared, streams, dt⟩ = false →
          stream.isPublishing = false ∧ ∀ owned, shared.state ≠ .idle (some owned) := by
        intro hal
        unfold alive at hal
        split at hal
        · next hdone =>
          rw [Bool.not_eq_false'] at hal
          have hisDone := all_eq_true.mp hal stream hmem
          refine ⟨?_, fun owned hpk => ?_⟩
          · unfold Stream.isDone at hisDone
            split at hisDone
            · next outcome ht =>
              unfold Stream.isPublishing
              rw [ht]
            · cases hisDone
          · have hunt := h.untaken owned hpk
            rw [hdone] at hunt
            exact hunt.elim nofun nofun
        · cases hal
      have heff : Effect dt shared shared' stream next :=
        step_effect (h.careful stream hmem) (h.watched stream hmem) h.shutdown
          (h.active_of_isPublishing hmem)
          (fun hpub => any_eq_true.mpr ⟨stream, hmem, hpub⟩) hgone hnext
      rw [hset next]
      rw [hsp] at h
      exact ⟨h.effect heff, heff.failed⟩

theorem spawns {prompt : Prompt} {model : Text} {turnId : Option Text} (h : Inv t) :
    Inv { t with
      streams := t.streams ++ [⟨prompt, model, turnId, false, .queued, .waiting⟩] } := by
  refine ⟨?_, fun key => ?_, fun key => ?_, ?_, ?_, fun owned hpk hinTurn => ?_, h.untaken,
    h.shutdown⟩
  · have hlease := h.lease
    simp only [leases, countP_append] at hlease ⊢
    exact hlease
  · have hsess := h.sessions key
    simp only [owned, dropKeys, flatMap_append, count_append] at hsess ⊢
    exact hsess
  · have hchil := h.children key
    simp only [starting, flatMap_append, count_append] at hchil ⊢
    exact hchil
  · exact forall_mem_append.mpr
      ⟨h.watched, forall_mem_singleton.mpr fun hmov => absurd rfl hmov⟩
  · exact forall_mem_append.mpr ⟨h.careful, forall_mem_singleton.mpr (.of_not_endsWell rfl)⟩
  · obtain ⟨stream, hst, hguar⟩ := h.guarded owned hpk hinTurn
    exact ⟨stream, mem_append_left _ hst, hguar⟩

/-- The task of the drop, or dropping, with the streams as they are. -/
theorem drops {shared : Shared} {streams : List Stream} {dt dt' : Option Stopper}
    {shutdown : Bool} (h : Inv ⟨shared, streams, dt⟩)
    (hact : state.isActive = shared.state.isActive) (hsess : ∀ key, state.keys.count key +
        (dt'.toList.flatMap Stopper.keys).count key + stopped.count key =
      shared.state.keys.count key + (dt.toList.flatMap Stopper.keys).count key +
        shared.stopped.count key) (hpk : ∀ owned, state = .idle (some owned) →
      shared.state = .idle (some owned) ∧ (Untaken dt → Untaken dt'))
    (hpub : ∀ stream ∈ streams, stream.isPublishing = true → Untaken dt →
      Untaken dt') (hshut : shutdown = dt'.isSome) :
    Inv ⟨{ shared with state, stopped, shutdown }, streams, dt'⟩ := by
  refine ⟨?_, fun key => ?_, h.children, h.watched, fun stream hst => ?_,
    fun owned hidle => h.guarded owned (hpk owned hidle).1,
    fun owned hidle => (hpk owned hidle).2 (h.untaken owned (hpk owned hidle).1),
    hshut⟩
  · show leases ⟨shared, streams, dt⟩ = _
    rw [h.lease, hact]
  · have hold := h.sessions key
    have hnew := hsess key
    simp only [owned, dropKeys, count_append] at hold ⊢
    omega
  · have hcare := h.careful stream hst
    refine ⟨hcare.ended, fun owned event ht => ?_⟩
    obtain ⟨htu, hguar, hunt⟩ := hcare.publishing owned event ht
    refine ⟨htu, hguar, hpub stream hst ?_ hunt⟩
    unfold Stream.isPublishing
    rw [ht]

/-- The task of the drop takes a parked session and changes nothing else. -/
theorem takes {session : Option Owned} {stopper : Stopper} (h : Inv t)
    (hwait : t.dropTask = some .waiting) (hloc : ¬ t.locked = true)
    (htake : t.shared.state.takeIdle = (session, state))
    (hkeys : stopper.keys = ownedKeys session) :
    Inv { t with
      shared := { t.shared with state }, dropTask := some stopper } ∧
    (t.shared.state = .failed → state = .failed) := by
  have hspec : state.isActive = t.shared.state.isActive ∧
      (∀ owned, state ≠ .idle (some owned)) ∧
      (∀ key, state.keys.count key + (ownedKeys session).count key =
        t.shared.state.keys.count key) ∧
      (t.shared.state = .failed → state = .failed) := by
    cases hstate : t.shared.state <;> rw [hstate] at htake <;> cases htake
    · exact ⟨rfl, nofun, fun _ => Nat.zero_add _, nofun⟩
    · exact ⟨rfl, nofun, fun _ => rfl, nofun⟩
    · exact ⟨rfl, nofun, fun _ => rfl, fun h => h⟩
  obtain ⟨hact, hunp, hc, hfl⟩ := hspec
  have hshut := h.shutdown
  rw [hwait] at hshut
  refine ⟨h.drops hact (fun key => ?_) (fun owned hidle => absurd hidle (hunp owned))
    (fun stream hst hpub => ?_) hshut, hfl⟩
  · rw [hwait, ← hc key, ← hkeys]
    simp [Stopper.keys]
  · exact absurd (any_eq_true.mpr ⟨stream, hst, hpub⟩) hloc

/-- **Every step keeps the invariant, and a failed transport failed.** -/
theorem step {t' : Transport} {action : TransportAction} (h : Inv t)
    (hs : t.step d action = some t') :
    Inv t' ∧ (t.shared.state = .failed → t'.shared.state = .failed) := by
  cases action with
  | task index action => exact h.task hs
  | stream request =>
    dsimp only [Transport.step] at hs
    split_ifs at hs
    split at hs
    · cases hs
      exact ⟨h, fun hfl => hfl⟩
    · cases hs
      exact ⟨h.spawns, fun hfl => hfl⟩
  | cancelTurn turnId =>
    cases hs
    refine ⟨{ h with watched := fun stream hst hmov => ?_ }, fun hfl => hfl⟩
    exact mem_cons_of_mem _ (h.watched stream hst hmov)
  | drop =>
    dsimp only [Transport.step] at hs
    split_ifs at hs with hdrop
    cases hs
    have hn : t.dropTask = none := Option.not_isSome_iff_eq_none.mp hdrop
    refine ⟨h.drops rfl (fun _ => ?_) (fun owned hpk => ⟨hpk, fun _ => Or.inr rfl⟩)
      (fun _ _ _ _ => Or.inr rfl) rfl, fun hfl => hfl⟩
    rw [hn]
    rfl
  | dropTakes =>
    dsimp only [Transport.step] at hs
    split at hs
    · next hwait =>
      split_ifs at hs with hloc
      split at hs <;> cases hs <;> exact h.takes hwait hloc ‹_› rfl
    · cases hs
  | dropStops =>
    dsimp only [Transport.step] at hs
    split at hs
    · next owned hstop =>
      cases hs
      have htak : ¬ Untaken t.dropTask := by
        rw [hstop]
        exact fun h => h.elim nofun nofun
      have hshut := h.shutdown
      rw [hstop] at hshut
      refine ⟨h.drops rfl (fun _ => ?_) (fun owned hpk => ⟨hpk, fun h => absurd h htak⟩)
        (fun _ _ _ h => absurd h htak) hshut, fun hfl => hfl⟩
      rw [hstop]
      simp [Stopper.keys, count_cons]
      omega
    · cases hs

end Inv

/-! ### Runs -/

/-- Every task that can still do something has run to its end. -/
def Transport.quiet (t : Transport) : Bool :=
  (t.streams.all fun stream => stream.isDone &&
    match stream.watcher with
    | .waiting => !t.shared.cancelledTurns.contains stream.turnId
    | .stopping _ => false
    | .done => true) &&
    match t.dropTask with
    | none | some .done => true
    | _ => false

/-- What holds when all tasks have run to their ends. -/
structure Settles (t : Transport) : Prop where
  /-- Every session that was created is parked or has been stopped. -/
  sessions : ∀ key ∈ t.shared.created, key ∈ t.shared.state.keys ∨ key ∈ t.shared.stopped
  /-- Every other child process was killed when its start was given up. -/
  children : ∀ key < t.shared.children, key ∈ t.shared.created ∨ key ∈ t.shared.killed
  turn : ∀ owned, t.shared.state = .idle (some owned) →
    owned.session.inTurn = true → owned.turnId ∉ t.shared.cancelledTurns
  dropped : t.shared.shutdown = true → ∀ owned, t.shared.state ≠ .idle (some owned)

structure Sound (d : Serde) (t : Transport) : Prop where
  /-- At most one operation owns the session, and a session is in one place. -/
  oneOwner : t.leases ≤ 1
  onePlace : t.owned.Nodup
  failed : t.shared.state = .failed → ∀ actions t',
    run (Transport.step d) t actions = some t' → t'.shared.state = .failed
  /-- An overlapping request fails, and nothing else changes. -/
  overlap : ∀ index stream, t.streams[index]? = some stream → stream.task = .queued →
    t.shared.state = .active → t.locked = false →
      t.step d (.task index .lease) = some { t with
        streams := t.streams.set index { stream with
          task := .done (.error (failure "overlapping native sampling requests")) } }
  settles : t.quiet = true → Settles t

theorem Inv.settles (h : Inv t) (hquiet : t.quiet = true) : Settles t := by
  unfold quiet at hquiet
  rw [Bool.and_eq_true, all_eq_true] at hquiet
  obtain ⟨hstr, hdrop⟩ := hquiet
  simp only [Bool.and_eq_true] at hstr
  have hidle : ∀ stream ∈ t.streams, stream.keys = [] ∧ stream.task.startingKeys = [] := by
    intro stream hst
    obtain ⟨hdone, hwat⟩ := hstr stream hst
    unfold Stream.isDone at hdone
    split at hdone
    · next o ht =>
      unfold Stream.keys
      rw [ht]
      split at hwat
      · next hwait =>
        rw [hwait]
        exact ⟨rfl, rfl⟩
      · cases hwat
      · next hend =>
        rw [hend]
        exact ⟨rfl, rfl⟩
    · cases hdone
  have hdropKeys : t.dropKeys = [] := by
    unfold dropKeys
    split at hdrop
    · next hn =>
      rw [hn]
      rfl
    · next hdone =>
      rw [hdone]
      rfl
    · cases hdrop
  have hown : t.owned = t.shared.state.keys := by
    have hkeys : t.streams.flatMap Stream.keys = [] :=
      flatMap_eq_nil_iff.mpr fun stream hst => (hidle stream hst).1
    rw [owned, hdropKeys, hkeys, append_nil, append_nil]
  have hstar : t.starting = [] := flatMap_eq_nil_iff.mpr fun stream hst => (hidle stream hst).2
  refine ⟨fun key hkey => ?_, fun key hkey => ?_, fun owned hpk hinTurn hcanc => ?_,
    fun hshut owned hpk => ?_⟩
  · have hc := h.sessions key
    have hpos := count_pos_iff.mpr hkey
    rw [hown] at hc
    by_cases hpk : key ∈ t.shared.state.keys
    · exact Or.inl hpk
    · rw [count_eq_zero.mpr hpk] at hc
      exact Or.inr (count_pos_iff.mp (by omega))
  · have hc := h.children key
    rw [hstar, count_nil, if_pos hkey] at hc
    by_cases hcreat : key ∈ t.shared.created
    · exact Or.inl hcreat
    · rw [count_eq_zero.mpr hcreat] at hc
      exact Or.inr (count_pos_iff.mp (by omega))
  · -- The watcher that guards the session would have run.
    obtain ⟨stream, hst, ht, hwait⟩ := h.guarded owned hpk hinTurn
    have hnot := (hstr stream hst).2
    rw [hwait, ht] at hnot
    simp [hcanc] at hnot
  · rw [h.shutdown] at hshut
    rcases h.untaken owned hpk with hn | hwait
    · rw [hn] at hshut
      cases hshut
    · rw [hwait] at hdrop
      cases hdrop

variable {serde : Serde} in
/-- **Every interleaving of streams, cancellations and the drop is sound.** -/
theorem transport_sound {actions : List TransportAction} {transport : Transport}
    (h : run (Transport.step serde) .new actions = some transport) : Sound serde transport := by
  have hinv : Inv transport :=
    run_keeps Inv (fun _ _ _ hinv hs => (hinv.step hs).1) actions inv_new h
  refine ⟨?_, ?_, fun hfl m transport' hmore => ?_, ?_, hinv.settles⟩
  · rw [hinv.lease]
    exact Bool.toNat_le _
  · rw [nodup_iff_count_le_one]
    intro key
    have hc := hinv.sessions key
    have hchil := hinv.children key
    split_ifs at hchil <;> omega
  · have hkept : Inv transport' ∧ transport'.shared.state = .failed :=
      run_keeps (fun transport => Inv transport ∧ transport.shared.state = .failed)
        (fun _ _ _ ⟨hinv, hfl⟩ hs => ⟨(hinv.step hs).1, (hinv.step hs).2 hfl⟩) m ⟨hinv, hfl⟩ hmore
    exact hkept.2
  · intro i stream hst hqueued hact hfree
    simp only [step, hst, Stream.step, hqueued, hfree, hact, State.takeSession,
      Bool.false_eq_true, if_false]
    rw [← hact]

/-! A turn that is cancelled while its session is parked in the middle of it. -/

def toolTurn : StreamRequest where
  provider := ⟨some "claude".toList, false, false, false, false, false, false, false, false⟩
  prompt := askOnce
  outputSchema := false
  cyberAccessProgram := false
  model := []
  turnId := some "t".toList

def cancelledWhileParked : List TransportAction :=
  [.stream toolTurn, .task 0 .lease, .task 0 .spawn, .task 0 (.starts initialized),
    .task 0 (.samples [] callOnce.inputs), .task 0 .check, .task 0 .publish,
    .cancelTurn (some "t".toList), .task 0 .watch, .task 0 .watcherStops]

theorem cancelled_session_stopped :
    ∃ transport, run (Transport.step wireSerde) .new cancelledWhileParked = some transport ∧
      transport.shared.created = [0] ∧ transport.shared.stopped = [0] ∧
      transport.quiet = true ∧ Sound wireSerde transport := by
  have hrun : (run (step wireSerde) .new cancelledWhileParked).map
      (fun transport => (transport.shared.created, transport.shared.stopped, transport.quiet)) =
      some ([0], [0], true) := by
    decide +kernel
  obtain ⟨transport, hrun, hend⟩ := Option.map_eq_some_iff.mp hrun
  simp only [Prod.mk.injEq] at hend
  obtain ⟨hcreat, hstop, hquiet⟩ := hend
  exact ⟨transport, hrun, hcreat, hstop, hquiet, transport_sound hrun⟩

variable {serde : Serde} in
/-- **At every moment each child process that was spawned is starting, has been killed, is the
session in one place or has been stopped, once and not twice; a session parked in a turn is
watched.** -/
theorem children_accounted {actions : List TransportAction} {transport : Transport}
    (h : run (Transport.step serde) .new actions = some transport) :
    (∀ key, transport.starting.count key + transport.shared.killed.count key +
      transport.owned.count key + transport.shared.stopped.count key =
        if key < transport.shared.children then 1 else 0) ∧
    ∀ owned, transport.shared.state = .idle (some owned) → owned.session.inTurn = true →
      ∃ stream ∈ transport.streams, stream.turnId = owned.turnId ∧ stream.watcher = .waiting := by
  have hinv : Inv transport :=
    run_keeps Inv (fun _ _ _ hinv hs => (hinv.step hs).1) actions inv_new h
  refine ⟨fun key => ?_, hinv.guarded⟩
  have hsess := hinv.sessions key
  have hchil := hinv.children key
  omega

theorem cancelledWhileParked_accounted :
    ∃ transport, run (Transport.step wireSerde) .new cancelledWhileParked = some transport ∧
      transport.starting.count 0 + transport.shared.killed.count 0 +
        transport.owned.count 0 + transport.shared.stopped.count 0 =
          if 0 < transport.shared.children then 1 else 0 := by
  have hrun : (run (step wireSerde) .new cancelledWhileParked).isSome := by decide +kernel
  obtain ⟨transport, hrun⟩ := Option.isSome_iff_exists.mp hrun
  exact ⟨transport, hrun, (children_accounted hrun).1 0⟩

end SushiGpt.ClaudeTransport
