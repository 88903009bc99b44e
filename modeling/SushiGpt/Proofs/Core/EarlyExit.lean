/-
What the early exit of the reverse scan leaves out.

The scan stops where it closes a turn and then has its checkpoint, its settings and its reference.
Older records can add to what it has gathered, but they replace nothing that is known: the
checkpoint's compaction shuts them out of the world state.  The window is the exception.  It is
not asked for, and a checkpoint without a window number leaves it open, so that an older
compaction would still supply it: the newest one with a number among those that no rollback takes
away.  `survivingCompactions` reads these off the records.
-/
import SushiGpt.Proofs.Core.BoundedReplay

namespace SushiGpt.Core

open List Option ContextManager ReverseScan

def ReverseScan.windowOf (ctx : ReplayContext) (items : List RolloutItem)
    (scan : ReverseScan) : ReconstructedWindow :=
  (scan.window.or (initialWindow ctx.parseUuidV7 items)).getD
    ⟨fallbackWindowNumber items, none, none, none⟩

def ReverseScan.reconstruct (ctx : ReplayContext) (items : List RolloutItem)
    (scan : ReverseScan) : RolloutReconstruction :=
  let start :=
    match scan.baseCompaction.bind (·.compacted.replacementHistory) with
    | some replacement => new.replaceAnnotated replacement
    | none => new
  let suffix := (scan.baseCompaction.map (·.suffix)).getD items
  let replay := suffix.foldl (HistoryReplay.observe ctx) ⟨start, false⟩
  let referenceContextItem :=
    match scan.referenceContextItem with
    | .latest item => if replay.sawLegacyCompaction then none else some item
    | _ => none
  let window := scan.windowOf ctx items
  { history := replay.history.items
    previousTurnSettings := scan.previousTurnSettings
    referenceContextItem
    worldStateBaseline := scan.worldStateReplay.reverse.foldl replayWorldState none
    windowNumber := window.number
    firstWindowId := window.firstId
    previousWindowId := window.previousId
    windowId := window.id }

/-- The reconstruction without the early exit. -/
def reconstructFromAll (ctx : ReplayContext) (items : List RolloutItem) : RolloutReconstruction :=
  (ReverseScan.past ctx items).close.reconstruct ctx items

/-! ### The compactions that survive -/

/-- The turn that the records start in. -/
structure OpenTurn where
  turnId : Option Text := none
  isUserTurn : Bool := false
  /-- Newest first. -/
  compactions : List CompactedItem := []

/-- The compactions of the turns that are kept, and the user turns still to be rolled back. -/
structure Survey where
  /-- Newest first. -/
  compactions : List CompactedItem := []
  rollbacks : Nat := 0
  turn : OpenTurn := {}

def Survey.closeTurn (survey : Survey) : Survey :=
  if 0 < survey.rollbacks then
    ⟨survey.compactions, if survey.turn.isUserTurn then survey.rollbacks - 1 else survey.rollbacks,
      {}⟩
  else ⟨survey.compactions ++ survey.turn.compactions, survey.rollbacks, {}⟩

def Survey.read (reading : Reading) (item : RolloutItem) (survey : Survey) : Survey :=
  match item with
  | .eventMsg (.turnStarted turnId) =>
    if turnIdsAreCompatible survey.turn.turnId (some turnId) then survey.closeTurn else survey
  | .eventMsg (.threadRolledBack numTurns) =>
    { survey with rollbacks := saturatingAdd survey.rollbacks numTurns }
  | .compacted compacted =>
    { survey with turn.compactions := survey.turn.compactions ++ [compacted] }
  | item =>
    { survey with
      turn.turnId := survey.turn.turnId.or item.turnIdOf
      turn.isUserTurn := survey.turn.isUserTurn || item.isUserBoundary reading }

/-- The compactions that no rollback takes away, newest first. -/
def survivingCompactions (reading : Reading) (items : List RolloutItem) : List CompactedItem :=
  (items.foldr (Survey.read reading) {}).closeTurn.compactions

/-- The window that a compaction names. -/
def CompactedItem.window (ctx : ReplayContext) (compacted : CompactedItem) :
    Option ReconstructedWindow :=
  compacted.windowNumber.map fun number =>
    { number
      firstId := compacted.firstWindowId.bind ctx.parseUuidV7
      previousId := compacted.previousWindowId.bind ctx.parseUuidV7
      id := compacted.windowId.bind ctx.parseUuidV7 }

/-- The scan has the windows of the compactions surveyed. -/
structure Surveyed (ctx : ReplayContext) (scan : ReverseScan) (survey : Survey) : Prop where
  pending : scan.pendingRollbackTurns = survey.rollbacks
  turnId : scan.segment.turnId = survey.turn.turnId
  userTurn : scan.segment.countsAsUserTurn = survey.turn.isUserTurn
  window : scan.window = survey.compactions.findSome? (·.window ctx)
  segment : scan.segment.window = survey.turn.compactions.findSome? (·.window ctx)

section

variable {ctx : ReplayContext} {scan : ReverseScan} {survey : Survey} {item : RolloutItem}
  {newer : List RolloutItem}

theorem Surveyed.close (h : Surveyed ctx scan survey) :
    Surveyed ctx scan.close survey.closeTurn := by
  rw [close_eq, finalizeActiveSegment, Survey.closeTurn, ← h.pending, ← h.userTurn]
  split
  · exact ⟨rfl, rfl, rfl, h.window, rfl⟩
  · refine ⟨rfl, rfl, rfl, ?_, rfl⟩
    dsimp only
    rw [findSome?_append, ← h.window, ← h.segment]

theorem Survey.read_frame (reading : Reading) (survey : Survey) (hst : item.isTurnStarted = false) :
    (survey.read reading item).compactions = survey.compactions ∧
      (survey.read reading item).rollbacks = pendingAfter survey.rollbacks item := by
  cases item with
  | eventMsg event =>
    cases event with
    | turnStarted turnId => cases hst
    | _ => exact ⟨rfl, rfl⟩
  | _ => exact ⟨rfl, rfl⟩

/-- A record other than a start of a turn changes the open segment as it changes the turn. -/
theorem Surveyed.segmentStep (h : Surveyed ctx scan survey) (newer : List RolloutItem)
    (hst : item.isTurnStarted = false) :
    (segmentStep ctx newer item scan.segment).turnId = (survey.read ctx.reading item).turn.turnId ∧
    (segmentStep ctx newer item scan.segment).countsAsUserTurn =
      (survey.read ctx.reading item).turn.isUserTurn ∧
    (segmentStep ctx newer item scan.segment).window =
      (survey.read ctx.reading item).turn.compactions.findSome? (·.window ctx) := by
  obtain ⟨-, hid, huser, -, hwin⟩ := h
  cases item with
  | compacted compacted =>
    refine ⟨hid, huser, ?_⟩
    show scan.segment.window.or _ = _
    rw [Survey.read, findSome?_append, hwin, findSome?_singleton]
    rfl
  | turnContext turnContext =>
    unfold Core.segmentStep ActiveReplaySegment.observeTurnContext
    dsimp only
    split_ifs <;> simp [Survey.read, hid, huser, hwin, RolloutItem.turnIdOf,
      RolloutItem.isUserBoundary]
  | eventMsg event =>
    cases event <;> simp_all [Survey.read, Core.segmentStep, RolloutItem.turnIdOf,
      RolloutItem.isUserBoundary, RolloutItem.isTurnStarted]
  | _ => simp [Survey.read, Core.segmentStep, RolloutItem.turnIdOf, RolloutItem.isUserBoundary, *]

theorem Surveyed.observe (h : Surveyed ctx scan survey) :
    Surveyed ctx (scan.observe ctx item newer) (survey.read ctx.reading item) := by
  cases hst : item.isTurnStarted with
  | false =>
    obtain ⟨hid, huser, hwin⟩ := h.segmentStep newer hst
    rw [← segment_observe hst] at hid huser hwin
    rw [observe_frame hst] at hid huser hwin ⊢
    obtain ⟨hkept, hrolled⟩ := Survey.read_frame ctx.reading survey hst
    refine ⟨?_, hid, huser, ?_, hwin⟩
    · rw [hrolled, ← h.pending]
    · rw [hkept, ← h.window]
  | true =>
    unfold RolloutItem.isTurnStarted at hst
    split at hst
    · rw [observe_turnStarted, h.turnId, Survey.read]
      split_ifs
      · exact h.close
      · exact h
    · cases hst

theorem surveyed_past (ctx : ReplayContext) (items : List RolloutItem) :
    Surveyed ctx (past ctx items) (items.foldr (Survey.read ctx.reading) {}) := by
  induction items with
  | nil => exact ⟨rfl, rfl, rfl, rfl, rfl⟩
  | cons item newer ih => exact ih.observe

theorem findSome?_window (ctx : ReplayContext) (compactions : List CompactedItem) :
    compactions.findSome? (·.window ctx) =
      (compactions.find? (·.windowNumber.isSome)).bind (·.window ctx) := by
  induction compactions with
  | nil => rfl
  | cons compacted rest ih =>
    rw [findSome?_cons, find?_cons, CompactedItem.window]
    cases hnum : compacted.windowNumber with
    | none => simpa [hnum] using ih
    | some number => simp [CompactedItem.window, hnum]

/-- When the scan of all records finds no window but the fallback. -/
theorem window_fallback_iff {ctx : ReplayContext} {items : List RolloutItem} {number : Nat} :
    (∀ window, (past ctx items).close.window = some window → window = ⟨number, none, none, none⟩) ↔
      ∀ compacted,
        (survivingCompactions ctx.reading items).find? (·.windowNumber.isSome) =
          some compacted →
        compacted.windowNumber = some number ∧
          compacted.firstWindowId.bind ctx.parseUuidV7 = none ∧
          compacted.previousWindowId.bind ctx.parseUuidV7 = none ∧
          compacted.windowId.bind ctx.parseUuidV7 = none := by
  rw [(surveyed_past ctx items).close.window, findSome?_window]
  unfold survivingCompactions
  cases hfind : (items.foldr (Survey.read ctx.reading) {}).closeTurn.compactions.find?
      (·.windowNumber.isSome) with
  | none => simp
  | some compacted =>
    have hsome := find?_some hfind
    obtain ⟨named, hnamed⟩ := isSome_iff_exists.mp hsome
    simp [CompactedItem.window, hnamed]

end

namespace ReverseScan

variable {ctx : ReplayContext} {e s : ReverseScan} {i : RolloutItem}
  {x n : List RolloutItem} {g : ActiveReplaySegment}

/-! ### Older records -/

/-- `scan` has gone on from `early`, which lacked nothing but perhaps a window. -/
structure Extends (early scan : ReverseScan) : Prop where
  base : scan.baseCompaction = early.baseCompaction
  settings : scan.previousTurnSettings = early.previousTurnSettings
  reference : scan.referenceContextItem = early.referenceContextItem
  replay : early.worldStateReplay <+: scan.worldStateReplay
  window : ∀ window, early.window = some window → scan.window = some window

theorem Extends.close (h : Extends e s) (hear : e.isComplete = true) : Extends e s.close := by
  rw [isComplete, Bool.and_eq_true, Bool.and_eq_true, Bool.not_eq_true'] at hear
  obtain ⟨⟨hbase, hset⟩, href⟩ := hear
  rw [close_eq, finalizeActiveSegment]
  split
  · exact { h with }
  · refine ⟨?_, ?_, ?_, h.replay.trans (prefix_append ..), fun w hwin => ?_⟩
    · simp [h.base, or_of_isSome hbase]
    · simp [h.settings, isNone_eq_false_iff.mpr hset]
    · simp [h.reference, href]
    · simp [h.window w hwin]

theorem Extends.past (hear : (past ctx n).isComplete = true)
    (o : List RolloutItem) : Extends (past ctx n) (past ctx (o ++ n)) := by
  induction o with
  | nil => exact ⟨rfl, rfl, rfl, prefix_rfl, fun _ => id⟩
  | cons i o ih =>
    rw [cons_append, ReverseScan.past]
    obtain ⟨a, hframe, -⟩ | ⟨-, hcl | hsame⟩ :=
      observe_cases ctx (ReverseScan.past ctx (o ++ n)) i (o ++ n)
    · rw [hframe]
      exact ⟨ih.base, ih.settings, ih.reference, ih.replay, ih.window⟩
    · rw [hcl]
      exact ih.close hear
    · rwa [hsame]

/-! ### The checkpoint among the records -/

/-- What a scan or a segment holds is from `suffix`; its checkpoint is among the world-state
records, and without a window that compaction has no number. -/
def Anchored (suffix replay : List RolloutItem) (base : Option ReplayCheckpoint)
    (window : Option ReconstructedWindow) : Prop :=
  replay ⊆ suffix ∧ ∀ checkpoint, base = some checkpoint →
    .compacted checkpoint.compacted ∈ replay ∧
      (window = none → checkpoint.compacted.windowNumber = none)

theorem Anchored.append {r r' : List RolloutItem} {b b' : Option ReplayCheckpoint}
    {w w' : Option ReconstructedWindow} (h : Anchored x r b w) (h' : Anchored x r' b' w') :
    Anchored x (r ++ r') (b.or b') (w.or w') := by
  refine ⟨append_subset.mpr ⟨h.1, h'.1⟩, fun c hbase => ?_⟩
  obtain hbase | ⟨-, hbase⟩ := or_eq_some_iff.mp hbase
  · obtain ⟨hmem, hnum⟩ := h.2 c hbase
    exact ⟨mem_append_left _ hmem, fun hn => hnum (or_eq_none_iff.mp hn).1⟩
  · obtain ⟨hmem, hnum⟩ := h'.2 c hbase
    exact ⟨mem_append_right _ hmem, fun hn => hnum (or_eq_none_iff.mp hn).2⟩

theorem Anchored.later {r : List RolloutItem} {b : Option ReplayCheckpoint}
    {w : Option ReconstructedWindow} (h : Anchored x r b w)
    (i : RolloutItem) : Anchored (i :: x) r b w :=
  ⟨fun _ hrec => .tail _ (h.1 hrec), h.2⟩

/-- What a segment has gathered. -/
abbrev AnchoredSegment (suffix : List RolloutItem) (segment : ActiveReplaySegment) : Prop :=
  Anchored suffix segment.worldStateReplay segment.baseCompaction segment.window

theorem anchored_segmentStep (h : AnchoredSegment x g) :
    AnchoredSegment (i :: x) (segmentStep ctx x i g) := by
  cases i with
  | compacted compacted =>
    refine (h.later _).append ⟨cons_subset.mpr ⟨.head _, nil_subset _⟩, ?_⟩
    intro checkpoint hbase
    split_ifs at hbase
    obtain rfl := Option.some.inj hbase
    exact ⟨.head _, map_eq_none_iff.mp⟩
  | worldState state =>
    have hrec : Anchored (.worldState state :: x) [.worldState state] none none :=
      ⟨cons_subset.mpr ⟨.head _, nil_subset _⟩, nofun⟩
    have happ := (h.later (.worldState state)).append hrec
    rwa [or_none, or_none] at happ
  | turnContext turnContext =>
    unfold segmentStep ActiveReplaySegment.observeTurnContext
    dsimp only
    split_ifs <;> exact h.later _
  | eventMsg event => cases event <;> exact h.later _
  | _ => exact h.later _

/-- The global state and the open segment. -/
def AnchoredScan (suffix : List RolloutItem) (scan : ReverseScan) : Prop :=
  Anchored suffix scan.worldStateReplay scan.baseCompaction scan.window ∧
    AnchoredSegment suffix scan.segment

theorem AnchoredScan.close (h : AnchoredScan x s) : AnchoredScan x s.close := by
  refine ⟨?_, ?_⟩
  · rw [close_eq, finalizeActiveSegment]
    split
    · exact h.1
    · exact h.1.append h.2
  · rw [ReverseScan.segment, close_activeSegment]
    refine ⟨nil_subset _, fun _ hbase => ?_⟩
    cases hbase

theorem anchoredScan_over (ctx : ReplayContext) (l : List RolloutItem) :
    AnchoredScan l (past ctx l) := by
  induction l with
  | nil => exact ⟨⟨nil_subset _, nofun⟩, ⟨nil_subset _, nofun⟩⟩
  | cons i l ih =>
    rw [past]
    obtain ⟨a, hframe, hact⟩ | ⟨-, hcl | hsame⟩ := observe_cases ctx (past ctx l) i l
    · rw [hframe]
      refine ⟨ih.1.later i, ?_⟩
      rw [ReverseScan.segment, hact]
      exact anchored_segmentStep ih.2
    · rw [hcl]
      exact ⟨ih.close.1.later i, ih.close.2.later i⟩
    · rw [hsame]
      exact ⟨ih.1.later i, ih.2.later i⟩

end ReverseScan

/-! ### Reconstructions -/

open ReverseScan

/-- What is older than the checkpoint matters for the window only. -/
theorem reconstruct_eq_iff {ctx : ReplayContext} {l : List RolloutItem} {e f : ReverseScan}
    (h : Extends e f) (hanc : ∃ c, RolloutItem.compacted c ∈ e.worldStateReplay) :
    f.reconstruct ctx l = e.reconstruct ctx l ↔ f.windowOf ctx l = e.windowOf ctx l := by
  have hworldState : f.worldStateReplay.reverse.foldl replayWorldState none =
      e.worldStateReplay.reverse.foldl replayWorldState none := by
    obtain ⟨c, hmem⟩ := hanc
    obtain ⟨older, hrep⟩ := h.replay
    rw [← hrep, reverse_append, foldl_append]
    exact foldl_replayWorldState_of_compacted (mem_reverse.mpr hmem) _
  unfold ReverseScan.reconstruct
  rw [h.base, h.settings, h.reference, hworldState]
  generalize f.windowOf ctx l = w
  generalize e.windowOf ctx l = o
  cases w
  cases o
  simp

/-- **The early exit changes nothing but the window**, and the window exactly when it is not known
at the exit and the newest surviving compaction with a number names another one than the
fallback. -/
theorem reconstructFromAll_eq_iff (context : ReplayContext) (items : List RolloutItem) :
    reconstructFromAll context items = reconstructHistoryFromRollout context items ↔
      (run context {} [] items.reverse).close.window.isSome ∨
      ∀ compacted,
        (survivingCompactions context.reading items).find? (·.windowNumber.isSome) =
          some compacted →
        compacted.windowNumber = some (fallbackWindowNumber items) ∧
          compacted.firstWindowId.bind context.parseUuidV7 = none ∧
          compacted.previousWindowId.bind context.parseUuidV7 = none ∧
          compacted.windowId.bind context.parseUuidV7 = none := by
  have hrec : reconstructHistoryFromRollout context items =
      (run context {} [] items.reverse).close.reconstruct context items := rfl
  rw [hrec, reconstructFromAll, ← window_fallback_iff]
  rcases run_append context [] rfl items.reverse with
    ⟨t, left, hsp, hcomp, hcl, hstop⟩ | ⟨-, hgo⟩
  · replace hstop := hstop []
    rw [append_nil] at hcomp hcl hstop
    rw [append_nil] at hstop
    have hrun : run context {} [] items.reverse = past context t.reverse := hstop
    have hit : items = left.reverse ++ t.reverse := by
      rw [← reverse_append, ← hsp, reverse_reverse]
    have hclose : (past context t.reverse).close = past context t.reverse := by
      rw [close, hcl]
    have hext : Extends (past context t.reverse) (past context items).close :=
      hit ▸ (Extends.past hcomp left.reverse).close hcomp
    obtain ⟨⟨hrecor, hchk⟩, -⟩ := anchoredScan_over context t.reverse
    obtain ⟨c, hbase⟩ : ∃ c, (past context t.reverse).baseCompaction = some c := by
      rw [isComplete, Bool.and_eq_true, Bool.and_eq_true] at hcomp
      exact isSome_iff_exists.mp hcomp.1.1
    obtain ⟨hmem, hnum⟩ := hchk c hbase
    rw [hrun, hclose, reconstruct_eq_iff hext ⟨_, hmem⟩, windowOf, windowOf]
    cases hwin : (past context t.reverse).window with
    | some w =>
      rw [hext.window w hwin]
      exact iff_of_true rfl (.inl rfl)
    | none =>
      -- Without a window, the checkpoint itself is a legacy compaction.
      have hleg : hasLegacyCompactionWithoutWindowNumber items = true := by
        refine any_eq_true.mpr ⟨.compacted c.compacted, ?_, isNone_iff_eq_none.mpr (hnum hwin)⟩
        rw [hit]
        exact mem_append_right _ (hrecor hmem)
      rw [initialWindow, if_pos hleg, or_none]
      cases (past context items).close.window <;> simp
  · replace hgo := hgo []
    rw [append_nil, append_nil, reverse_reverse] at hgo
    have hrun : run context {} [] items.reverse = past context items := hgo
    rw [hrun]
    refine iff_of_true rfl ?_
    cases (past context items).close.window <;> simp

/-- A turn compacted with a window number, and one compacted by an older program. -/
def legacyRollout : List RolloutItem :=
  [.eventMsg (.turnStarted "first".toList), .responseItem (textMessage "user" "task"),
    .compacted ⟨[], some [textMessage "user" "summary"], some 5, none, none, none⟩,
    .eventMsg (.turnStarted "second".toList), .responseItem (textMessage "user" "more"),
    .compacted ⟨[], some [textMessage "user" "all"], none, none, none, none⟩,
    .turnContext ⟨some "second".toList, "model".toList, none, none, []⟩]

/-- The scan stops before the turn whose compaction carries the number. -/
theorem legacyRollout_window :
    (reconstructHistoryFromRollout plainContext legacyRollout).windowNumber = 2 ∧
      (reconstructFromAll plainContext legacyRollout).windowNumber = 5 := by
  decide

end SushiGpt.Core
