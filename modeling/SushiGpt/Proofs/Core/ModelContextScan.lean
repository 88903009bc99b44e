/-
When the bounded scan loses nothing.

The bounded scan keeps its own account of the turn it is in, and so does the reverse scan of the
reconstruction.  The two part ways in one record: a completed item gives the bounded scan a turn
id and perhaps a user turn, and gives the reconstruction nothing.  `regular` asks of each such
record that the bounded scan takes that it stands in the turn it names, and that nothing older
rolls back the turn the scan stops in.  Then the accounts agree as far as `Mirrors` says, and
where the bounded scan stops, the reconstruction has settled everything that older records could
still supply.
-/
import SushiGpt.Core.ModelContextScan
import SushiGpt.Lib.Lists
import SushiGpt.Proofs.Core.RolloutReconstruction

namespace SushiGpt.Core

open ReverseScan List Option RolloutItem

variable {o n : List RolloutItem} {turnId : Text}

/-! ### The two scans without a stop -/

/-- The reverse scan over all the records, the newest first. -/
def ReverseScan.past (context : ReplayContext) : List RolloutItem → ReverseScan
  | [] => {}
  | i :: newer => (past context newer).observe context i newer

/-- The bounded scan over all the records, the newest first. -/
def ModelContextScan.past (reading : Reading) : List RolloutItem → ModelContextScan
  | [] => {}
  | i :: newer => ((past reading newer).observe reading i).1

/-! ### Records in their turns -/

/-- The turn id by which the reconstruction tells a record's turn. -/
def RolloutItem.turnIdOf : RolloutItem → Option Text
  | .eventMsg (.turnStarted turnId) => some turnId
  | .eventMsg (.turnComplete turnId) => some turnId
  | .eventMsg (.turnAborted turnId) => turnId
  | .turnContext context => context.turnId
  | _ => none

/-- The turn of the next older record that names one; the list is newest first. -/
def olderTurnId (older : List RolloutItem) : Option Text :=
  older.findSome? turnIdOf

/-- There is a user boundary before the next older start of a turn. -/
def boundaryAhead (reading : Reading) (older : List RolloutItem) : Bool :=
  (older.takeWhile fun i => !i.isTurnStarted).any (isUserBoundary reading)

/-- A completed item stands in the turn it names, given the records after it and those before
it, newest first. -/
def standsInTurn (context : ReplayContext) (newer : List RolloutItem) (i : RolloutItem)
    (older : List RolloutItem) : Bool :=
  let scan := ReverseScan.past context newer
  match i with
  | .eventMsg (.itemCompleted turnId completed) =>
    -- The turn is named by a newer record of it, or the next older one names the same.
    (scan.segment.turnId.isSome || (olderTurnId older).all (· == turnId)) &&
      (!completed.isUserMessage ||
        !turnIdsAreCompatible scan.segment.turnId (some turnId) ||
        scan.segment.countsAsUserTurn || boundaryAhead context.reading older)
  | _ => true

/-- No turn is rolled back before the reverse scan has what it looks for. -/
def quiet (context : ReplayContext) (newer : List RolloutItem) : (older : List RolloutItem) → Bool
  | [] => true
  | i :: older =>
    (ReverseScan.past context newer).isComplete ||
      (!i.rollsBack && quiet context (i :: newer) older)

variable {c : ReplayContext} {i : RolloutItem} {r : Reading}
  {b : ModelContextScan}

/-! ### One account against the other -/

theorem olderTurnId_cons (i : RolloutItem) (o : List RolloutItem) :
    olderTurnId (i :: o) = i.turnIdOf.or (olderTurnId o) := by
  unfold olderTurnId
  rw [findSome?_cons]
  cases i.turnIdOf <;> rfl

theorem boundaryAhead_cons (r : Reading) (i : RolloutItem) (o : List RolloutItem) :
    boundaryAhead r (i :: o) = (!i.isTurnStarted && (i.isUserBoundary r || boundaryAhead r o)) := by
  unfold boundaryAhead
  rw [takeWhile_cons]
  cases i.isTurnStarted <;> rfl

/-- The ids agree, or the bounded scan has the one that comes next. -/
def TurnIdMirrors (bounded segment : Option Text) (older : List RolloutItem) : Prop :=
  bounded = segment ∨
    (segment = none ∧
      ∃ turnId, bounded = some turnId ∧ ∀ next, olderTurnId older = some next → next = turnId)

section TurnIds

variable {b segment : Option Text}

section

variable (h : TurnIdMirrors b segment (i :: o))
include h

theorem TurnIdMirrors.skip (hi : i.turnIdOf = none) : TurnIdMirrors b segment o := by
  rw [TurnIdMirrors, olderTurnId_cons, hi, none_or] at h
  exact h

theorem TurnIdMirrors.named (hi : i.turnIdOf = some turnId) :
    b.or (some turnId) = segment.or (some turnId) := by
  rcases h with rfl | ⟨rfl, k, rfl, hnext⟩
  · rfl
  · rw [olderTurnId_cons, hi, some_or] at hnext
    rw [hnext turnId rfl]
    rfl

theorem TurnIdMirrors.step : TurnIdMirrors (b.or i.turnIdOf) (segment.or i.turnIdOf) o := by
  cases hi : i.turnIdOf with
  | none =>
    rw [or_none, or_none]
    exact h.skip hi
  | some turnId => exact .inl (h.named hi)

theorem TurnIdMirrors.compatible (hi : i.turnIdOf = some turnId) :
    turnIdsAreCompatible b (some turnId) = turnIdsAreCompatible segment (some turnId) := by
  rcases h with rfl | ⟨rfl, k, rfl, hnext⟩
  · rfl
  · rw [olderTurnId_cons, hi, some_or] at hnext
    simp [turnIdsAreCompatible, hnext turnId rfl]

end

end TurnIds

/-- The bounded scan's account of a turn, against that of the reconstruction. -/
structure SegmentMirrors (reading : Reading) (bounded : ActiveTurnSegment)
    (segment : ActiveReplaySegment) (older : List RolloutItem) : Prop where
  turnId : TurnIdMirrors bounded.turnId segment.turnId older
  userTurn : bounded.hasUserTurn = true →
    segment.countsAsUserTurn = true ∨ boundaryAhead reading older = true
  turnContext : bounded.hasTurnContext = true →
    segment.previousTurnSettings.isSome = true ∧ segment.referenceContextItem.isNeverSet = false
  compaction : bounded.sawCompaction = false → ∀ i ∈ segment.worldStateReplay, i.isCompacted = false
  fullWorldState : bounded.hasFullWorldState = true →
    (segment.worldStateReplay.takeWhile fun i => !i.isCompacted).any isFullWorldState = true
  window : segment.baseCompaction.isSome = true → segment.window.isSome = true

theorem segmentMirrors_start (r : Reading) (o : List RolloutItem) : SegmentMirrors r {} {} o where
  turnId := .inl rfl
  userTurn := nofun
  turnContext := nofun
  compaction := nofun
  fullWorldState := nofun
  window := nofun

section Segments

variable {b : ActiveTurnSegment} {segment : ActiveReplaySegment} {x : List RolloutItem}

section

variable (h : SegmentMirrors c.reading b segment (i :: o))
  (hstart : i.isTurnStarted = false)
include h hstart

/-- A user turn stays one, and a boundary that was ahead is met. -/
theorem SegmentMirrors.userTurn_step {cs : Bool}
    (hcoun : segment.countsAsUserTurn = true ∨ i.isUserBoundary c.reading = true → cs = true)
    (huser : b.hasUserTurn = true) : cs = true ∨ boundaryAhead c.reading o = true := by
  rcases h.userTurn huser with hc | hahead
  · exact .inl (hcoun (.inl hc))
  · rw [boundaryAhead_cons, hstart, Bool.not_false, Bool.true_and, Bool.or_eq_true] at hahead
    exact hahead.imp_left fun hboun => hcoun (.inr hboun)

theorem SegmentMirrors.skip (hturnId : i.turnIdOf = none)
    (hboun : i.isUserBoundary c.reading = false) : SegmentMirrors c.reading b segment o :=
  { h with
    turnId := h.turnId.skip hturnId
    userTurn := h.userTurn_step hstart fun hcoun =>
      hcoun.resolve_right (by simp [hboun]) }

/-- A record that names its turn and says nothing else. -/
theorem SegmentMirrors.named (hboun : i.isUserBoundary c.reading = false) :
    SegmentMirrors c.reading
      { b with turnId := b.turnId.or i.turnIdOf }
      { segment with turnId := segment.turnId.or i.turnIdOf } o :=
  { h with
    turnId := h.turnId.step
    userTurn := h.userTurn_step hstart fun hcoun =>
      hcoun.resolve_right (by simp [hboun]) }

/-- A record that may be a boundary; the bounded scan sees no more boundaries than there are. -/
theorem SegmentMirrors.boundary (hturnId : i.turnIdOf = none) (s : Bool)
    (hsees : s = true → i.isUserBoundary c.reading = true) :
    SegmentMirrors c.reading
      { b with hasUserTurn := b.hasUserTurn || s }
      { segment with
        countsAsUserTurn := segment.countsAsUserTurn || i.isUserBoundary c.reading }
      o := by
  refine { h with turnId := h.turnId.skip hturnId, userTurn := fun huser => ?_ }
  rcases Bool.or_eq_true_iff.mp huser with huser | hseen
  · exact h.userTurn_step hstart (fun hcoun => Bool.or_eq_true_iff.mpr hcoun) huser
  · exact .inl (Bool.or_eq_true_iff.mpr (.inr (hsees hseen)))

end

theorem SegmentMirrors.worldState {s : WorldStateItem}
    (h : SegmentMirrors c.reading b segment (.worldState s :: o)) :
    SegmentMirrors c.reading
      { b with
        hasFullWorldState :=
          b.hasFullWorldState || (s.full && !b.sawCompaction) }
      { segment with worldStateReplay := segment.worldStateReplay ++ [.worldState s] }
      o := by
  refine { h.skip rfl rfl rfl with
    compaction := fun hn => ?_, fullWorldState := fun hfull => ?_ }
  · exact forall_mem_append.mpr ⟨h.compaction hn, forall_mem_singleton.mpr rfl⟩
  · rcases Bool.or_eq_true_iff.mp hfull with hfull | hfull
    · obtain ⟨i, hi, hstate⟩ := any_eq_true.mp (h.fullWorldState hfull)
      exact any_eq_true.mpr ⟨i, Lists.mem_takeWhile_append hi, hstate⟩
    · rw [Bool.and_eq_true, Bool.not_eq_true'] at hfull
      rw [takeWhile_append_of_pos fun i hi => by
        rw [h.compaction hfull.2 i hi]
        rfl]
      exact any_eq_true.mpr ⟨_, mem_append_right _ (.head _), hfull.1⟩

theorem SegmentMirrors.keepTurn
    (h : SegmentMirrors c.reading b segment (.eventMsg (.turnStarted turnId) :: o))
    (hcom : turnIdsAreCompatible segment.turnId (some turnId) = false) :
    SegmentMirrors c.reading b segment o := by
  refine { h with turnId := ?_, userTurn := fun huser => ?_ }
  · rcases h.turnId with heq | ⟨hn, -⟩
    · exact .inl heq
    · rw [hn] at hcom
      cases hcom
  · refine .inl ((h.userTurn huser).resolve_right ?_)
    exact Bool.false_ne_true

theorem SegmentMirrors.compacted {com : CompactedItem}
    (h : SegmentMirrors c.reading b segment (.compacted com :: o))
    (hwin : com.windowNumber.isSome = true) :
    SegmentMirrors c.reading { b with sawCompaction := true }
      (segment.observeCompacted c.parseUuidV7 com x) o := by
  refine { h.skip rfl rfl rfl with
    turnContext := fun hctx => ?_, compaction := nofun, fullWorldState := fun hfull => ?_,
    window := fun _ => ?_ }
  · obtain ⟨hset, href⟩ := h.turnContext hctx
    refine ⟨hset, ?_⟩
    show (if segment.referenceContextItem.isNeverSet then _ else _ :
      TurnReferenceContextItem).isNeverSet = false
    rw [if_neg (by simp [href])]
    exact href
  · obtain ⟨i, hi, hstate⟩ := any_eq_true.mp (h.fullWorldState hfull)
    exact any_eq_true.mpr ⟨i, Lists.mem_takeWhile_append hi, hstate⟩
  · obtain ⟨num, hnum⟩ := isSome_iff_exists.mp hwin
    show (segment.window.or (com.windowNumber.map _)).isSome = true
    rw [hnum]
    cases segment.window <;> rfl

theorem SegmentMirrors.turnContextStep {tc : TurnContextItem}
    (h : SegmentMirrors c.reading b segment (.turnContext tc :: o)) :
    SegmentMirrors c.reading
      (let named := { b with turnId := b.turnId.or tc.turnId }
        if turnIdsAreCompatible named.turnId tc.turnId then
          { named with hasTurnContext := true }
        else named)
      (segment.observeTurnContext tc) o := by
  have hnam := h.named rfl rfl
  have hcom : turnIdsAreCompatible (b.turnId.or tc.turnId)
      tc.turnId =
      turnIdsAreCompatible (segment.turnId.or tc.turnId) tc.turnId := by
    cases hturnId : tc.turnId with
    | none => simp [turnIdsAreCompatible]
    | some turnId => rw [h.turnId.named hturnId]
  unfold ActiveReplaySegment.observeTurnContext
  dsimp only
  rw [hcom]
  split_ifs with hcomp hnev
  · exact { hnam with turnContext := fun _ => ⟨rfl, rfl⟩ }
  · exact { hnam with turnContext := fun _ => ⟨rfl, by simpa using hnev⟩ }
  · exact hnam

/-- A completed item stands in its turn. -/
structure StandsIn (reading : Reading) (segment : ActiveReplaySegment) (turnId : Text)
    (completed : TurnItem) (older : List RolloutItem) : Prop where
  named : segment.turnId.isSome = true ∨ (olderTurnId older).all (· == turnId) = true
  user : completed.isUserMessage = true →
    turnIdsAreCompatible segment.turnId (some turnId) = true →
    segment.countsAsUserTurn = true ∨ boundaryAhead reading older = true

theorem SegmentMirrors.itemCompleted {com : TurnItem}
    (h : SegmentMirrors c.reading b segment (.eventMsg (.itemCompleted turnId com) :: o))
    (hstan : StandsIn c.reading segment turnId com o) :
    SegmentMirrors c.reading
      (let named := { b with turnId := b.turnId.or (some turnId) }
        if turnIdsAreCompatible named.turnId (some turnId) then
          { named with hasUserTurn := named.hasUserTurn || com.isUserMessage }
        else named)
      segment o := by
  have hskip := h.skip rfl rfl rfl
  have hids : TurnIdMirrors (b.turnId.or (some turnId)) segment.turnId o := by
    cases hboun : b.turnId with
    | some k =>
      rw [some_or, ← hboun]
      exact hskip.turnId
    | none =>
      -- Neither account has an id yet, and the next older record has this one.
      have hseg : segment.turnId = none := by
        rcases hskip.turnId with heq | ⟨hn, -⟩
        · exact heq.symm.trans hboun
        · exact hn
      refine .inr ⟨hseg, turnId, rfl, fun next hnext => ?_⟩
      have hturnId := hstan.named
      rw [hseg, hnext] at hturnId
      simpa using hturnId
  have hnam : SegmentMirrors c.reading
      { b with turnId := b.turnId.or (some turnId) } segment o :=
    { hskip with turnId := hids }
  dsimp only
  split_ifs with hcom
  · refine { hnam with userTurn := fun hcoun => ?_ }
    rcases Bool.or_eq_true_iff.mp hcoun with hcoun | hcomp
    · exact hskip.userTurn hcoun
    · refine hstan.user hcomp ?_
      rcases hids with heq | ⟨hn, -⟩
      · rwa [← heq]
      · rw [hn]
        rfl
  · exact hnam

end Segments

/-! ### The scans in step -/

/-- The bounded scan against the reverse scan, `older` being the records still to come. -/
structure Mirrors (reading : Reading) (bounded : ModelContextScan) (scan : ReverseScan)
    (older : List RolloutItem) : Prop where
  segment : SegmentMirrors reading bounded.activeSegment scan.segment older
  completed : bounded.sawCompletedTurnContext = true →
    scan.previousTurnSettings.isSome = true ∧ scan.referenceContextItem.isNeverSet = false
  window : scan.baseCompaction.isSome = true → scan.window.isSome = true

theorem Mirrors.ofSegment {next : ModelContextScan} {s : ReverseScan}
    {a : Option ActiveReplaySegment} {p : Nat} (h : Mirrors r b s (i :: o))
    (hcomp : next.sawCompletedTurnContext = b.sawCompletedTurnContext)
    (hseg : SegmentMirrors r next.activeSegment (a.getD {}) o) :
    Mirrors r next
      { s with activeSegment := a, pendingRollbackTurns := p } o where
  segment := hseg
  completed := hcomp ▸ h.completed
  window := h.window

theorem Mirrors.finalize {s : ReverseScan}
    (h : Mirrors r b s (.eventMsg (.turnStarted turnId) :: o))
    (hpend : s.pendingRollbackTurns = 0) :
    Mirrors r b.finalizeActiveSegment s.close o := by
  rw [close_eq, SushiGpt.Core.finalizeActiveSegment, if_neg (by simp [hpend])]
  refine ⟨segmentMirrors_start r o, ?_, ?_⟩
  · intro hcomp
    dsimp only
    rcases Bool.or_eq_true_iff.mp hcomp with hbefore | hnow
    · -- The settings were known before this turn.
      obtain ⟨hset, href⟩ := h.completed hbefore
      rw [if_neg (by simp [isSome_iff_ne_none.mp hset]), if_neg (by simp [href])]
      exact ⟨hset, href⟩
    · rw [Bool.and_eq_true, Bool.or_eq_true] at hnow
      obtain ⟨hset, href⟩ := h.segment.turnContext hnow.1
      have hbas : s.segment.hasContextBaseline = true := by
        refine Bool.or_eq_true_iff.mpr (hnow.2.imp (fun huser => ?_) h.segment.fullWorldState)
        refine (h.segment.userTurn huser).resolve_right ?_
        exact Bool.false_ne_true
      rw [hbas]
      constructor
      · split_ifs with hn
        · exact hset
        · simpa [isSome_iff_ne_none] using hn
      · split_ifs with hnev
        · exact href
        · simpa using hnev
  · intro hbase
    rw [isSome_or, Bool.or_eq_true] at hbase ⊢
    exact hbase.imp h.window h.segment.window

theorem Mirrors.turnStarted {s : ReverseScan}
    (h : Mirrors c.reading b s (.eventMsg (.turnStarted turnId) :: o))
    (hpend : s.pendingRollbackTurns = 0) :
    Mirrors c.reading (b.note c.reading (.eventMsg (.turnStarted turnId)))
      (s.observe c (.eventMsg (.turnStarted turnId)) n) o := by
  have hcom : turnIdsAreCompatible b.activeSegment.turnId (some turnId) =
      turnIdsAreCompatible s.segment.turnId (some turnId) :=
    h.segment.turnId.compatible rfl
  rw [observe_turnStarted, ModelContextScan.note, hcom]
  split_ifs with hcomp
  · exact h.finalize hpend
  · exact h.ofSegment rfl (h.segment.keepTurn (by simpa using hcomp))

/-- The bounded scan counts as a user turn only what is one. -/
theorem isUserTurnBoundary_of_counts {e : ResponseItemEnvelope}
    (h : responseItemCountsAsUserTurn r e = true) : r.isUserTurnBoundary e.item = true := by
  unfold responseItemCountsAsUserTurn at h
  unfold Reading.isUserTurnBoundary
  split at h
  · simp_all
  · simp_all
  · cases h

theorem ModelContextScan.note_sawCompletedTurnContext (hstart : i.isTurnStarted = false) :
    (b.note r i).sawCompletedTurnContext = b.sawCompletedTurnContext := by
  cases i with
  | compacted compacted =>
    unfold ModelContextScan.note
    dsimp only
    split_ifs <;> rfl
  | eventMsg event =>
    cases event with
    | turnStarted turnId => cases hstart
    | _ => rfl
  | _ => rfl

/-- The open turn on both sides, over a record that does not close it. -/
theorem SegmentMirrors.step {segment : ActiveReplaySegment} {x : List RolloutItem}
    (h : SegmentMirrors c.reading b.activeSegment segment (i :: o))
    (hstart : i.isTurnStarted = false)
    (hnext : (b.note c.reading i).mustScanToStart = false)
    (hcomp : ∀ turnId completed, i = .eventMsg (.itemCompleted turnId completed) →
      StandsIn c.reading segment turnId completed o) :
    SegmentMirrors c.reading (b.note c.reading i).activeSegment (segmentStep c x i segment) o := by
  cases i with
  | compacted compacted =>
    unfold ModelContextScan.note at hnext ⊢
    dsimp only at hnext ⊢
    split_ifs at hnext ⊢ with hunus
    · rw [Bool.or_eq_true, not_or] at hunus
      exact h.compacted (by simpa [isSome_iff_ne_none] using hunus.2)
  | turnContext turnContext => exact h.turnContextStep
  | worldState state => exact h.worldState
  | responseItem envelope => exact h.boundary rfl rfl _ isUserTurnBoundary_of_counts
  | interAgentCommunication communication =>
    have hboun := h.boundary rfl rfl true fun _ => rfl
    rwa [Bool.or_true] at hboun
  | eventMsg event =>
    cases event with
    | turnStarted turnId => cases hstart
    | threadRolledBack numTurns => cases hnext
    | userMessage payload =>
      have hboun := h.boundary rfl rfl true fun _ => rfl
      rwa [Bool.or_true] at hboun
    | turnComplete turnId | turnAborted turnId => exact h.named rfl rfl
    | itemCompleted turnId completed =>
      simp only [segmentStep, isUserBoundary, Bool.or_false]
      exact h.itemCompleted (hcomp turnId completed rfl)
    | other payload =>
      simp only [segmentStep, isUserBoundary, Bool.or_false]
      exact h.skip rfl rfl rfl
  | _ =>
    simp only [segmentStep, isUserBoundary, Bool.or_false]
    exact h.skip rfl rfl rfl

/-- **The accounts stay in step** over a record that is where it belongs. -/
theorem Mirrors.step (h : Mirrors c.reading b (.past c n) (i :: o))
    (hpend : (past c n).pendingRollbackTurns = 0) (hreg : standsInTurn c n i o = true)
    (hnext : (b.note c.reading i).mustScanToStart = false) :
    Mirrors c.reading (b.note c.reading i) (.past c (i :: n)) o := by
  rw [past]
  by_cases hstart : i.isTurnStarted = true
  · cases i with
    | eventMsg e =>
      cases e with
      | turnStarted turnId => exact h.turnStarted hpend
      | _ => cases hstart
    | _ => cases hstart
  · rw [Bool.not_eq_true] at hstart
    rw [observe_frame hstart]
    refine h.ofSegment (ModelContextScan.note_sawCompletedTurnContext hstart) ?_
    rw [← ReverseScan.segment, segment_observe hstart]
    refine h.segment.step hstart hnext ?_
    rintro turnId com rfl
    unfold standsInTurn at hreg
    rw [Bool.and_eq_true, Bool.or_eq_true] at hreg
    refine ⟨hreg.1, fun hmsg hcom => ?_⟩
    have huser := hreg.2
    rw [hmsg, hcom] at huser
    simpa using huser

/-! ### The bounded scan over a list -/

end SushiGpt.Core
