/-
A resume finds the world state that the live session had.

The invariant is one-sided: while there is a baseline in memory, it has no null fields and the
replay of the rollout gives it.  A cleared baseline says nothing, since clearing it may leave no
record; the next update writes a full snapshot and the two agree again.
-/
import SushiGpt.Core.LiveHistory
import SushiGpt.Proofs.Core.WorldState

namespace SushiGpt.Core

open WorldStateSnapshot Json List Json.Object ContextManager Option

open Json (Canonical)

/-! ### Snapshots have no null fields -/

theorem removeNullObjectFields_ne_null {v : Json} (h : v ≠ .null) :
    removeNullObjectFields v ≠ .null := by
  cases v with
  | null => exact absurd rfl h
  | obj fs => nofun
  | _ => exact h

theorem nullFree_removeNullObjectFields {v : Json} (h : Canonical v) :
    Json.NullFree (removeNullObjectFields v) := by
  induction h with
  | obj _ _ ih =>
    rw [removeNullObjectFields, removeNullFields_eq]
    refine .obj ?_ ?_
    · intro f hf
      obtain ⟨s, hsrc, rfl⟩ := mem_map.mp hf
      rw [removeNullField_eq]
      refine removeNullObjectFields_ne_null fun hnull => ?_
      simpa [hnull, isNull] using (mem_filter.mp hsrc).2
    · intro f hf
      obtain ⟨s, hsrc, rfl⟩ := mem_map.mp hf
      rw [removeNullField_eq]
      exact ih s (mem_of_mem_filter hsrc)
  | arr h _ => exact .arr _
  | _ => constructor

theorem WorldStateSection.nullFree_snapshot {s : WorldStateSection}
    {v : { v : Json // Canonical v }} (h : s.snapshot = some v) :
    v.1 ≠ .null ∧ Json.NullFree v.1 := by
  obtain ⟨ser, -, hv⟩ := bind_eq_some_iff.mp h
  dsimp only at hv
  split_ifs at hv with hnull
  obtain rfl := some.inj hv
  refine ⟨fun heq => hnull ?_, nullFree_removeNullObjectFields ser.2⟩
  dsimp only at heq
  rw [heq]
  rfl

theorem WorldState.nullFree_snapshot (s : WorldState) : s.snapshot.NullFree := by
  obtain ⟨ss⟩ := s
  unfold WorldState.snapshot WorldStateSnapshot.NullFree
  induction ss using reverseRecOn with
  | nil => exact nullFree_empty
  | append_singleton r last ih =>
    rw [foldl_append]
    simp only [foldl_cons, foldl_nil]
    split
    case h_1 v hv =>
        obtain ⟨hne, hfree⟩ := WorldStateSection.nullFree_snapshot hv
        exact ih.insertField hfree hne
    case h_2 => exact ih

/-! ### The replay of a rollout -/

/-- The world state that a resume finds in a rollout. -/
def replayedWorldState (rollout : List RolloutItem) : Option WorldStateSnapshot :=
  rollout.foldl replayWorldState none

theorem replayedWorldState_append (r l : List RolloutItem) :
    replayedWorldState (r ++ l) = l.foldl replayWorldState (replayedWorldState r) :=
  foldl_append

theorem replayWorldState_twice (b : Option WorldStateSnapshot) (i : RolloutItem) :
    replayWorldState (replayWorldState b i) i = replayWorldState b i := by
  cases i with
  | worldState s =>
    dsimp only [replayWorldState]
    split_ifs
    · rfl
    · rw [Option.map_map]
      exact congrArg (b.map ·) (funext (applyMergePatch_idempotent · _))
  | _ => rfl

theorem replayWorldState_replicate (i : RolloutItem) (n : Nat) (b : Option WorldStateSnapshot) :
    (replicate (n + 1) i).foldl replayWorldState b = replayWorldState b i := by
  induction n generalizing b with
  | zero => rfl
  | succ n ih => rw [replicate_succ, foldl_cons, ih, replayWorldState_twice]

/-- **Records that were written several times in a row, as by a retry, replay as if each had been
written once.** -/
theorem replayedWorldState_repeated (records : List (RolloutItem × Nat)) :
    replayedWorldState (records.flatMap fun record => replicate (record.2 + 1) record.1) =
      replayedWorldState (records.map Prod.fst) := by
  unfold replayedWorldState
  generalize none = baseline
  induction records generalizing baseline with
  | nil => rfl
  | cons record rest ih =>
    rw [flatMap_cons, foldl_append, replayWorldState_replicate, ih]
    rfl

namespace LiveHistory

/-- While there is a baseline, the rollout replays to it. -/
def Replays (live : LiveHistory) : Prop :=
  ∀ snapshot, live.history.worldStateBaseline = some snapshot →
    snapshot.NullFree ∧ replayedWorldState live.rollout = some snapshot

theorem replays_of_cleared {l : LiveHistory} (h : l.history.worldStateBaseline = none) :
    l.Replays := by
  intro s hsnap
  rw [h] at hsnap
  cases hsnap

theorem updateWorldState_replays {c : ReplayContext} {l : LiveHistory}
    (h : l.Replays) (s : WorldState) :
    replayedWorldState (l.step c (.updateWorldState s)).rollout = some s.snapshot := by
  unfold step updateWorldState persist
  rw [replayedWorldState_append]
  cases hbas : l.history.worldStateBaseline with
  | none => rfl
  | some ps =>
    obtain ⟨-, hrep⟩ := h ps hbas
    rw [hrep]
    dsimp only
    cases hpat : s.snapshot.mergePatchFrom ps with
    | none =>
      exact congrArg some (mergePatchFrom_eq_none.mp hpat)
    | some p =>
      exact congrArg some (applyMergePatch_mergePatchFrom s.nullFree_snapshot hpat)

theorem baseline_recordItemsWithMetadata (r : Reading) (p : TruncationPolicy)
    (es : List ResponseItemEnvelope) :
    ∀ history : ContextManager,
      (history.recordItemsWithMetadata r p es).worldStateBaseline = history.worldStateBaseline := by
  induction es with
  | nil => exact fun _ => rfl
  | cons e rest ih =>
    intro history
    unfold recordItemsWithMetadata at ih ⊢
    rw [foldl_cons, ih]
    split_ifs <;> rfl

theorem replayWorldState_responseItems (b : Option WorldStateSnapshot)
    (l : List ResponseItemEnvelope) :
    (l.map RolloutItem.responseItem).foldl replayWorldState b = b := by
  induction l with
  | nil => rfl
  | cons i r ih => exact ih

theorem baseline_removeFirstItem (history : ContextManager) :
    history.removeFirstItem = history ∨ history.removeFirstItem.worldStateBaseline = none := by
  unfold removeFirstItem
  split
  · exact .inl rfl
  · exact .inr rfl

theorem step_replays {c : ReplayContext} {l : LiveHistory} (h : l.Replays)
    (op : HistoryOp) : (l.step c op).Replays := by
  cases op with
  | updateWorldState st =>
    intro s hsnap
    obtain rfl : st.snapshot = s := some.inj hsnap
    exact ⟨st.nullFree_snapshot, updateWorldState_replays h st⟩
  | recordConversationItems its =>
    intro s hsnap
    have hkept := baseline_recordItemsWithMetadata c.reading c.truncationPolicy its l.history
    obtain ⟨hfree, hrep⟩ := h s (hkept.symm.trans hsnap)
    refine ⟨hfree, ?_⟩
    show replayedWorldState (l.rollout ++ its.map RolloutItem.responseItem) = _
    rw [replayedWorldState_append, replayWorldState_responseItems, hrep]
  | replaceCompactedHistory its b m =>
    cases b with
    | none => exact replays_of_cleared rfl
    | some st =>
      intro s hsnap
      obtain rfl := some.inj hsnap
      exact ⟨st.nullFree_snapshot, replayedWorldState_append ..⟩
  | replaceAnnotated its => exact replays_of_cleared rfl
  | removeFirstItem =>
    rcases baseline_removeFirstItem l.history with hsame | hclear
    · intro s hsnap
      exact h s ((congrArg (·.worldStateBaseline) hsame).symm.trans hsnap)
    · exact replays_of_cleared hclear

theorem run_replays {c : ReplayContext} (ops : List HistoryOp) :
    ∀ {l : LiveHistory}, l.Replays → (l.run c ops).Replays := by
  induction ops with
  | nil => exact fun h => h
  | cons op r ih => exact fun h => ih (step_replays h op)

/-- **After every update the live baseline and the replay of the rollout are the snapshot of the
given state**, whatever was done to the history before; and a patch, when there is one, leads
exactly to the new snapshot. -/
theorem replayedWorldState_eq_baseline :
    (∀ (context : ReplayContext) (ops : List HistoryOp) (state : WorldState),
      let live := (new.run context ops).step context (.updateWorldState state)
      live.history.worldStateBaseline = some state.snapshot ∧
        replayedWorldState live.rollout = some state.snapshot) ∧
    ∀ previous current : WorldStateSnapshot, previous.NullFree → current.NullFree →
      (∀ patch, current.mergePatchFrom previous = some patch →
        previous.applyMergePatch patch = current) ∧
      (current.mergePatchFrom previous = none → previous = current) := by
  constructor
  · intro context ops state
    have hrun : (new.run context ops).Replays := run_replays ops (replays_of_cleared rfl)
    exact ⟨rfl, updateWorldState_replays hrun state⟩
  · intro previous current _ hcurrent
    constructor
    · intro patch hpatch
      exact applyMergePatch_mergePatchFrom hcurrent hpatch
    · exact mergePatchFrom_eq_none.mp

/-- A section with one object, and the next snapshot with a field less and a section more. -/
def beforeStep : WorldStateSnapshot :=
  let inner := (empty.insert "cwd".toList (.str "/w".toList) (.str _)).insert
    "step".toList (.int 1) (.int 1)
  ⟨empty.insert "env".toList (.obj inner.fields) inner.canonical⟩

def afterStep : WorldStateSnapshot :=
  let inner := empty.insert "step".toList (.int 2) (.int 2)
  ⟨(empty.insert "env".toList (.obj inner.fields) inner.canonical).insert
    "skills".toList (.arr [.null]) (.arr fun _ h => mem_singleton.mp h ▸ .null)⟩

theorem nullFree_beforeStep : beforeStep.NullFree := by
  have hinn : Json.NullFree (.obj (insertField "step".toList (.int 1)
      (insertField "cwd".toList (.str "/w".toList) []))) :=
    (nullFree_empty.insertField (.str _) nofun).insertField (.int 1) nofun
  exact nullFree_empty.insertField hinn nofun

theorem nullFree_afterStep : afterStep.NullFree := by
  have hinn : Json.NullFree (.obj (insertField "step".toList (.int 2) [])) :=
    nullFree_empty.insertField (.int 2) nofun
  show Json.NullFree (.obj (insertField "skills".toList (.arr [.null])
    (insertField "env".toList (.obj (insertField "step".toList (.int 2) [])) [])))
  exact (nullFree_empty.insertField hinn nofun).insertField (.arr _) nofun

theorem patch_of_step_replays :
    ∃ patch, afterStep.mergePatchFrom beforeStep = some patch ∧
      beforeStep.applyMergePatch patch = afterStep :=
  ⟨_, rfl, (replayedWorldState_eq_baseline.2 _ _ nullFree_beforeStep nullFree_afterStep).1 _ rfl⟩

end LiveHistory

end SushiGpt.Core
