/-
The reverse scan against the forward reading of a rollout.

Without rollback markers no segment is skipped, so at every point of the scan the world-state
records of the global state and of the open segment, together, are those of the records seen,
and the checkpoint found, in either, is the newest one among them.  Where the turns begin and
end does not matter for either.  The scan only stops early once it has a checkpoint, and what is
older than a checkpoint is forgotten by the forward reading as well.
-/
import SushiGpt.Proofs.Core.LiveHistory

namespace SushiGpt.Core

open ReverseScan List ActiveReplaySegment
open Option hiding or_assoc

variable {c : ReplayCheckpoint} {i : RolloutItem} {l : List RolloutItem}
  {ctx : ReplayContext}

/-! ### The forward reading -/

def forwardStep (ctx : ReplayContext) (history : ContextManager) : RolloutItem → ContextManager
  | .responseItem envelope =>
    history.recordAnnotatedItems ctx.reading ctx.truncationPolicy [envelope]
  | .interAgentCommunication communication =>
    history.recordItems ctx.reading ctx.truncationPolicy [communication.toModelInputItem]
  | .compacted compacted =>
    match compacted.replacementHistory with
    | some l => history.replaceAnnotated l
    | none =>
      history.replaceAnnotated (buildCompactedHistory ctx.reading
        (collectAnnotatedUserMessages ctx.reading history.items ctx.identity) compacted.message)
  | _ => history

/-- The history that a plain reading of all records leaves. -/
def forwardHistory (ctx : ReplayContext) (l : List RolloutItem) : ContextManager :=
  l.foldl (forwardStep ctx) .new

/-- Every compaction forgets the world state, a full record sets it and any other one patches it. -/
def forwardWorldStep (baseline : Option WorldStateSnapshot) :
    RolloutItem → Option WorldStateSnapshot
  | .compacted _ => none
  | .worldState ⟨true, state⟩ => some (.ofState state)
  | .worldState ⟨false, patch⟩ => baseline.map (·.applyMergePatch patch)
  | _ => baseline

def forwardWorldState (l : List RolloutItem) : Option WorldStateSnapshot :=
  l.foldl forwardWorldStep none

theorem forwardWorldState_eq (l : List RolloutItem) :
    forwardWorldState l = replayedWorldState l := by
  have hstep : forwardWorldStep = replayWorldState := by
    funext baseline item
    cases item with
    | worldState item => obtain ⟨_ | _, _⟩ := item <;> rfl
    | _ => rfl
  rw [forwardWorldState, hstep]
  rfl

/-! ### Checkpoints -/

/-- The checkpoint that a record is, given the records after it. -/
def checkpointAt (i : RolloutItem) (x : List RolloutItem) : Option ReplayCheckpoint :=
  match i with
  | .compacted compacted =>
    if compacted.replacementHistory.isSome then some ⟨compacted, x⟩ else none
  | _ => none

/-- The newest compaction with a replacement history. -/
def newestCheckpoint : List RolloutItem → Option ReplayCheckpoint
  | [] => none
  | i :: rest => (newestCheckpoint rest).or (checkpointAt i rest)

theorem newestCheckpoint_append (o : List RolloutItem) {n : List RolloutItem}
    (h : newestCheckpoint n = some c) : newestCheckpoint (o ++ n) = some c := by
  induction o with
  | nil => exact h
  | cons i r ih => rw [cons_append, newestCheckpoint, ih, some_or]

/-- A checkpoint splits the rollout, and there is none after it. -/
theorem newestCheckpoint_split (h : newestCheckpoint l = some c) :
    ∃ o, l = o ++ .compacted c.compacted :: c.suffix ∧
      newestCheckpoint c.suffix = none ∧
      c.compacted.replacementHistory.isSome = true := by
  induction l with
  | nil => cases h
  | cons i r ih =>
    rw [newestCheckpoint] at h
    cases hrest : newestCheckpoint r with
    | some f =>
      rw [hrest, some_or] at h
      obtain ⟨o, hsp, hn, hsome⟩ := ih (hrest.trans h)
      exact ⟨i :: o, congrArg (i :: ·) hsp, hn, hsome⟩
    | none =>
      rw [hrest, none_or] at h
      unfold checkpointAt at h
      split at h
      · split_ifs at h with hsome
        obtain rfl := Option.some.inj h
        exact ⟨[], rfl, hrest, hsome⟩
      · cases h

theorem mem_of_newestCheckpoint (h : newestCheckpoint l = some c) : .compacted c.compacted ∈ l := by
  obtain ⟨o, hsp, -, -⟩ := newestCheckpoint_split h
  rw [hsp]
  exact mem_append_right _ (.head _)

/-! ### World-state records -/

def RolloutItem.isWorldStateRecord : RolloutItem → Bool
  | .compacted _ => true
  | .worldState _ => true
  | _ => false

theorem foldl_replayWorldState_filter (l : List RolloutItem) :
    ∀ b : Option WorldStateSnapshot,
      (l.filter RolloutItem.isWorldStateRecord).foldl replayWorldState b =
        l.foldl replayWorldState b := by
  induction l with
  | nil => exact fun _ => rfl
  | cons i r ih =>
    intro b
    rw [filter_cons, foldl_cons]
    split_ifs with hrec
    · exact ih _
    · rw [ih]
      cases i <;> first | rfl | exact absurd rfl hrec

theorem foldl_replayWorldState_of_compacted {c : CompactedItem} (h : .compacted c ∈ l)
    (b : Option WorldStateSnapshot) : l.foldl replayWorldState b = replayedWorldState l := by
  obtain ⟨o, n, rfl⟩ := append_of_mem h
  rw [replayedWorldState_append, foldl_append]
  rfl

theorem rollsBack_of_not_isThreadRolledBack (h : i.isThreadRolledBack = false) :
    i.rollsBack = false := by
  cases i with
  | eventMsg e =>
    cases e with
    | threadRolledBack nt => cases h
    | _ => rfl
  | _ => rfl

/-! ### What a record can do -/

def RolloutItem.isTurnStarted : RolloutItem → Bool
  | .eventMsg (.turnStarted _) => true
  | _ => false

/-- A record that makes its turn a user turn. -/
def RolloutItem.isUserBoundary (reading : Reading) : RolloutItem → Bool
  | .responseItem envelope => reading.isUserTurnBoundary envelope.item
  | .interAgentCommunication _ => true
  | .eventMsg (.userMessage _) => true
  | _ => false

/-- The segment that is open; an empty one when none is. -/
def ReverseScan.segment (scan : ReverseScan) : ActiveReplaySegment := scan.activeSegment.getD {}

/-- What a record does to the open segment, when it does not close it. -/
def segmentStep (ctx : ReplayContext) (x : List RolloutItem) (i : RolloutItem)
    (segment : ActiveReplaySegment) : ActiveReplaySegment :=
  match i with
  | .compacted compacted => segment.observeCompacted ctx.parseUuidV7 compacted x
  | .eventMsg (.turnComplete turnId) =>
    { segment with turnId := segment.turnId.or (some turnId) }
  | .eventMsg (.turnAborted turnId) => { segment with turnId := segment.turnId.or turnId }
  | .turnContext turnContext => segment.observeTurnContext turnContext
  | .worldState state =>
    { segment with worldStateReplay := segment.worldStateReplay ++ [.worldState state] }
  | i =>
    { segment with
      countsAsUserTurn := segment.countsAsUserTurn || i.isUserBoundary ctx.reading }

variable {scan : ReverseScan} {x o : List RolloutItem} {ctx : ReplayContext} {i : RolloutItem}

namespace ReverseScan

theorem segment_observe (hst : i.isTurnStarted = false) :
    (scan.observe ctx i x).segment = segmentStep ctx x i scan.segment := by
  cases i with
  | eventMsg event =>
    cases event with
    | turnStarted turnId => cases hst
    | turnAborted turnId =>
      unfold observe segment segmentStep
      cases hact : scan.activeSegment with
      | some segment => rfl
      | none =>
        cases turnId with
        | some turnId => rfl
        | none => exact congrArg (·.getD {}) hact
    | userMessage payload =>
      unfold observe segment segmentStep withSegment
      simp [RolloutItem.isUserBoundary]
    | turnComplete turnId => rfl
    | _ =>
      unfold observe segment segmentStep
      simp [RolloutItem.isUserBoundary]
  | compacted compacted | turnContext turnContext | worldState state | responseItem envelope => rfl
  | interAgentCommunication communication =>
    unfold observe segment segmentStep withSegment
    simp [RolloutItem.isUserBoundary]
  | _ =>
    unfold observe segment segmentStep
    simp [RolloutItem.isUserBoundary]

/-- The turns still to be skipped after a record. -/
def pendingAfter (pending : Nat) : RolloutItem → Nat
  | .eventMsg (.threadRolledBack numTurns) => saturatingAdd pending numTurns
  | _ => pending

theorem pendingAfter_zero (hroll : i.rollsBack = false) : pendingAfter 0 i = 0 := by
  unfold pendingAfter
  split
  · simp_all [RolloutItem.rollsBack, saturatingAdd]
  · rfl

/-- A record that does not start a turn leaves the global state alone. -/
theorem observe_frame (hst : i.isTurnStarted = false) :
    scan.observe ctx i x =
      { scan with
        activeSegment := (scan.observe ctx i x).activeSegment
        pendingRollbackTurns := pendingAfter scan.pendingRollbackTurns i } := by
  cases i with
  | eventMsg e =>
    cases e with
    | turnStarted t => cases hst
    | turnAborted t =>
      unfold observe
      dsimp only
      split
      · rfl
      · split <;> rfl
    | _ => rfl
  | _ => rfl

theorem observe_turnStarted (turnId : Text) :
    scan.observe ctx (.eventMsg (.turnStarted turnId)) x =
      if turnIdsAreCompatible scan.segment.turnId (some turnId) then scan.close else scan := by
  unfold observe close segment
  cases hact : scan.activeSegment with
  | some segment => rfl
  | none => exact (ite_self _).symm

/-- A record changes the open segment, or closes it, or is passed over. -/
theorem observe_cases (ctx : ReplayContext) (scan : ReverseScan) (i : RolloutItem)
    (x : List RolloutItem) :
    (∃ a,
      scan.observe ctx i x =
        { scan with
          activeSegment := a
          pendingRollbackTurns := pendingAfter scan.pendingRollbackTurns i } ∧
      a.getD {} = segmentStep ctx x i scan.segment) ∨
    ((∃ t, i = .eventMsg (.turnStarted t)) ∧
      (scan.observe ctx i x = scan.close ∨ scan.observe ctx i x = scan)) := by
  cases hst : i.isTurnStarted with
  | false => exact .inl ⟨_, observe_frame hst, segment_observe hst⟩
  | true =>
    unfold RolloutItem.isTurnStarted at hst
    split at hst
    · refine .inr ⟨⟨_, rfl⟩, ?_⟩
      rw [observe_turnStarted]
      exact ite_eq_or_eq ..
    · cases hst

/-- Closing when no segment is open adds an empty one. -/
theorem close_eq (scan : ReverseScan) :
    scan.close = finalizeActiveSegment { scan with activeSegment := none } scan.segment := by
  unfold close segment
  split
  · rename_i hact
    rw [hact]
    rfl
  · rename_i hact
    simp [hact, finalizeActiveSegment, hasContextBaseline]
    rw [← hact]

theorem close_activeSegment (scan : ReverseScan) : scan.close.activeSegment = none := by
  rw [close_eq, finalizeActiveSegment]
  split <;> rfl

end ReverseScan

/-! ### What the scan has gathered -/

namespace ReverseScan

/-- The world-state records gathered, newest first, those of the open segment last. -/
def gathered (scan : ReverseScan) : List RolloutItem :=
  scan.worldStateReplay ++ (scan.activeSegment.map (·.worldStateReplay)).getD []

/-- The checkpoint found, be it in the open segment. -/
def found (scan : ReverseScan) : Option ReplayCheckpoint :=
  scan.baseCompaction.or (scan.activeSegment.bind (·.baseCompaction))

variable {segment : ActiveReplaySegment}

theorem gathered_eq (scan : ReverseScan) :
    scan.gathered = scan.worldStateReplay ++ scan.segment.worldStateReplay := by
  unfold gathered ReverseScan.segment
  cases scan.activeSegment <;> rfl

theorem found_eq (scan : ReverseScan) :
    scan.found = scan.baseCompaction.or scan.segment.baseCompaction := by
  unfold found ReverseScan.segment
  cases scan.activeSegment <;> rfl

/-- A segment gathers the world-state records and the newest checkpoint. -/
theorem segmentStep_gathers :
    (segmentStep ctx x i segment).worldStateReplay =
        segment.worldStateReplay ++ [i].filter RolloutItem.isWorldStateRecord ∧
      (segmentStep ctx x i segment).baseCompaction =
        segment.baseCompaction.or (checkpointAt i x) := by
  cases i with
  | compacted compacted => exact ⟨rfl, rfl⟩
  | worldState state => exact ⟨rfl, or_none.symm⟩
  | turnContext turnContext =>
    unfold segmentStep observeTurnContext
    dsimp only
    split_ifs <;> exact ⟨(append_nil _).symm, or_none.symm⟩
  | eventMsg event => cases event <;> exact ⟨(append_nil _).symm, or_none.symm⟩
  | _ => exact ⟨(append_nil _).symm, or_none.symm⟩

/-- Closing a segment moves what it has gathered to the global state. -/
theorem close_of_pending (hpend : scan.pendingRollbackTurns = 0) :
    scan.close.pendingRollbackTurns = 0 ∧ scan.close.worldStateReplay = scan.gathered ∧
      scan.close.baseCompaction = scan.found := by
  rw [close_eq, finalizeActiveSegment, if_neg (by simp [hpend]), gathered_eq, found_eq]
  exact ⟨hpend, rfl, rfl⟩

/-- The scan has seen the records of `suffix` and skipped none of them. -/
structure Follows (scan : ReverseScan) (x : List RolloutItem) : Prop where
  pending : scan.pendingRollbackTurns = 0
  gathered : scan.gathered = (x.filter RolloutItem.isWorldStateRecord).reverse
  found : scan.found = newestCheckpoint x

theorem follows_start : Follows {} [] := ⟨rfl, rfl, rfl⟩

theorem Follows.observe (h : Follows scan x) (hroll : i.rollsBack = false) :
    Follows (scan.observe ctx i x) (i :: x) := by
  have hgat := h.gathered
  have hfd := h.found
  rw [gathered_eq] at hgat
  rw [found_eq] at hfd
  obtain ⟨a, hframe, hact⟩ | ⟨⟨t, rfl⟩, hcl | hsame⟩ := observe_cases ctx scan i x
  · rw [hframe]
    refine ⟨?_, ?_, ?_⟩
    · exact (congrArg (pendingAfter · i) h.pending).trans (pendingAfter_zero hroll)
    · rw [gathered_eq, ReverseScan.segment, hact, segmentStep_gathers.1, ← append_assoc]
      rw [hgat, filter_cons, filter_cons]
      split <;> simp
    · rw [found_eq, ReverseScan.segment, hact, segmentStep_gathers.2, ← Option.or_assoc]
      rw [hfd]
      rfl
  · obtain ⟨hpend, hrep, hbase⟩ := close_of_pending h.pending
    rw [hcl]
    refine ⟨hpend, ?_, ?_⟩
    · rw [ReverseScan.gathered, close_activeSegment, hrep, h.gathered]
      exact append_nil _
    · rw [ReverseScan.found, close_activeSegment, hbase, h.found]
      rfl
  · rw [hsame]
    exact ⟨h.pending, h.gathered, h.found.trans or_none.symm⟩

/-- The scan stops at the start of the rollout, or when it has a checkpoint. -/
theorem Follows.run (h : Follows scan x) (hroll : ∀ i ∈ o, i.rollsBack = false) :
    ∃ s r, o = s ++ r ∧
      Follows (scan.run ctx x o) (s.reverse ++ x) ∧
      (r = [] ∨ (scan.run ctx x o).baseCompaction.isSome = true) := by
  induction o generalizing scan x with
  | nil => exact ⟨[], [], rfl, h, .inl rfl⟩
  | cons i o ih =>
    have hnext : Follows (scan.observe ctx i x) (i :: x) := h.observe (hroll i (.head _))
    rw [run]
    split_ifs with hcomp
    · unfold isComplete at hcomp
      rw [Bool.and_eq_true, Bool.and_eq_true] at hcomp
      exact ⟨[i], o, rfl, hnext, .inr hcomp.1.1⟩
    · obtain ⟨s, r, rfl, hfol, hstop⟩ := ih hnext fun i hi => hroll i (.tail _ hi)
      refine ⟨i :: s, r, rfl, ?_, hstop⟩
      rwa [reverse_cons, append_assoc]

theorem Follows.close (h : Follows scan x) :
    scan.close.worldStateReplay = (x.filter RolloutItem.isWorldStateRecord).reverse ∧
      scan.close.baseCompaction = newestCheckpoint x := by
  obtain ⟨-, hrep, hbase⟩ := close_of_pending h.pending
  exact ⟨hrep.trans h.gathered, hbase.trans h.found⟩

end ReverseScan

/-! ### The replay of the suffix -/

/-- After the newest checkpoint the replay reads as the forward reading does. -/
theorem foldl_historyReplay (hroll : ∀ i ∈ l, i.isThreadRolledBack = false)
    (hn : newestCheckpoint l = none) (replay : HistoryReplay) :
    (l.foldl (HistoryReplay.observe ctx) replay).history =
      l.foldl (forwardStep ctx) replay.history := by
  induction l generalizing replay with
  | nil => rfl
  | cons i rest ih =>
    rw [newestCheckpoint, or_eq_none_iff] at hn
    rw [foldl_cons, foldl_cons, ih (fun i hi => hroll i (.tail _ hi)) hn.1]
    have hi := hroll i (.head _)
    congr 1
    cases i with
    | compacted compacted =>
      have hrep : compacted.replacementHistory = none := by
        have hat := hn.2
        unfold checkpointAt at hat
        dsimp only at hat
        split_ifs at hat with hsome
        exact not_isSome_iff_eq_none.mp hsome
      unfold HistoryReplay.observe forwardStep
      dsimp only
      rw [hrep]
      rfl
    | eventMsg event =>
      cases event with
      | threadRolledBack numTurns => cases hi
      | _ => rfl
    | _ => rfl

/-- **The scan and the replay of its suffix read a rollout without rollback markers as a plain
forward reading does.** -/
theorem reconstructHistoryFromRollout_eq_forward (context : ReplayContext)
    (items : List RolloutItem) (hrollback : ∀ item ∈ items, item.isThreadRolledBack = false) :
    (reconstructHistoryFromRollout context items).history = (forwardHistory context items).items ∧
      (reconstructHistoryFromRollout context items).worldStateBaseline =
        forwardWorldState items := by
  rw [forwardWorldState_eq]
  obtain ⟨s, rest, hsp, hfol, hstop⟩ :
      ∃ s rest, items.reverse = s ++ rest ∧
        (run context {} [] items.reverse).Follows (s.reverse ++ []) ∧ _ :=
    follows_start.run fun item hi =>
      rollsBack_of_not_isThreadRolledBack (hrollback item (mem_reverse.mp hi))
  rw [append_nil] at hfol
  have hit : items = rest.reverse ++ s.reverse := by
    rw [← reverse_append, ← hsp, reverse_reverse]
  obtain ⟨hrep, hbase⟩ := hfol.close
  have hstop : rest = [] ∨ ∃ c, newestCheckpoint s.reverse = some c := by
    refine hstop.imp_right fun hsome => ?_
    obtain ⟨c, hchk⟩ := isSome_iff_exists.mp hsome
    exact ⟨c, by rw [← hfol.found, found, hchk, some_or]⟩
  -- The checkpoint among the records seen is the newest of all.
  have hnew : newestCheckpoint s.reverse = newestCheckpoint items := by
    rcases hstop with hrest | ⟨c, hfd⟩
    · rw [hit, hrest]
      rfl
    · rw [hfd, hit, newestCheckpoint_append _ hfd]
  rw [hnew] at hbase
  constructor
  · unfold reconstructHistoryFromRollout
    dsimp only
    rw [hbase]
    cases hchk : newestCheckpoint items with
    | none =>
      exact congrArg ContextManager.items (foldl_historyReplay hrollback hchk _)
    | some c =>
      obtain ⟨o, hsp, hn, hrepl⟩ := newestCheckpoint_split hchk
      obtain ⟨r, hrepl⟩ := isSome_iff_exists.mp hrepl
      have hsuf : ∀ item ∈ c.suffix, item.isThreadRolledBack = false := by
        intro item hi
        refine hrollback item ?_
        rw [hsp]
        exact mem_append_right _ (.tail _ hi)
      have hfor : forwardHistory context items =
          c.suffix.foldl (forwardStep context) (ContextManager.new.replaceAnnotated r) := by
        rw [forwardHistory, hsp, foldl_append, foldl_cons]
        congr 1
        unfold forwardStep
        dsimp only
        rw [hrepl]
        rfl
      rw [hfor]
      dsimp only [bind_some, map_some, getD_some]
      rw [hrepl]
      exact congrArg ContextManager.items (foldl_historyReplay hsuf hn _)
  · unfold reconstructHistoryFromRollout
    dsimp only
    rw [hrep, reverse_reverse, foldl_replayWorldState_filter]
    rcases hstop with hrest | ⟨c, hfd⟩
    · rw [hit, hrest]
      rfl
    · rw [hit, replayedWorldState_append]
      exact (foldl_replayWorldState_of_compacted (mem_of_newestCheckpoint hfd) _).symm

/-- Texts read as the program does when no context fragment, no inter-agent message and no long
text is among them. -/
def plainReading : Reading where
  isContextualUserFragment := fun
    | .inputText text => "<environment_context>".toList.isPrefixOf text
    | _ => false
  isContextualDevFragment := fun _ => false
  isInterAgentCommunication := fun _ => false
  parseUserMessage := fun
    | .message _ role [.inputText text] _ _ => if role == "user".toList then some text else none
    | _ => none
  summaryPrefix := "Another language model started to solve this problem".toList
  isModelOrModeText := fun _ => false
  withSerializationAllowance := id
  truncateFunctionOutputPayload := fun output _ => output
  approxTokenCount := fun text => (text.length + 3) / 4
  truncateText := fun text _ => text

def plainContext : ReplayContext :=
  ⟨plainReading, .bytes 10000, .regenerate, some⟩

def textMessage (role text : String) : ResponseItemEnvelope :=
  ⟨.message none role.toList [.inputText text.toList] none none, none⟩

/-- A compaction inside a turn that was completed under another id. -/
def mismatchedRollout : List RolloutItem :=
  [.sessionMeta ⟨none, []⟩, .eventMsg (.turnStarted "a".toList),
    .responseItem (textMessage "user" "hello"),
    .compacted ⟨[], some [textMessage "user" "summary"], some 1, none, none, none⟩,
    .responseItem (textMessage "assistant" "done"), .eventMsg (.turnComplete "b".toList)]

theorem mismatchedRollout_reconstructed :
    (reconstructHistoryFromRollout plainContext mismatchedRollout).history =
      [textMessage "user" "summary", textMessage "assistant" "done"] :=
  (reconstructHistoryFromRollout_eq_forward plainContext mismatchedRollout (by decide)).1

end SushiGpt.Core
