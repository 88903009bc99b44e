/-
The records of a bounded scan reconstruct as the whole rollout does.

Where the bounded scan stops, the reverse scan has its settings, its reference and its
checkpoint, the last perhaps in a segment that is still open.  From there on it is settled:
older records close the segment or add to it, and change nothing that the reconstruction reads.
So the two reconstructions may stop at different places and still agree.
-/
import SushiGpt.Proofs.Core.ModelContextScan

namespace SushiGpt.Core

open ReverseScan ModelContextScan List Option

namespace ReverseScan

variable {ctx : ReplayContext} {s : ReverseScan} {i : RolloutItem}
  {x older n : List RolloutItem}

/-! ### What is known stays known -/

/-- The window found, be it in the open segment. -/
def windowFound (scan : ReverseScan) : Option ReconstructedWindow :=
  scan.window.or scan.segment.window

theorem segmentStep_window {segment : ActiveReplaySegment} {window : ReconstructedWindow}
    (h : segment.window = some window) : (segmentStep ctx x i segment).window = some window := by
  cases i with
  | compacted compacted =>
    show segment.window.or _ = some window
    rw [h, some_or]
  | turnContext turnContext =>
    unfold segmentStep ActiveReplaySegment.observeTurnContext
    dsimp only
    split_ifs <;> exact h
  | eventMsg event => cases event <;> exact h
  | _ => exact h

/-- Closing a segment keeps the window found, and the settings and the reference that are
known. -/
theorem close_keeps (hpend : s.pendingRollbackTurns = 0) :
    s.close.window = s.windowFound ∧
    (∀ ss, s.previousTurnSettings = some ss → s.close.previousTurnSettings = some ss) ∧
    (s.referenceContextItem.isNeverSet = false →
      s.close.referenceContextItem = s.referenceContextItem) := by
  rw [close_eq, finalizeActiveSegment, if_neg (by simp [hpend])]
  refine ⟨rfl, fun ss h => ?_, fun h => ?_⟩ <;> simp [h]

theorem known_observe {ss : PreviousTurnSettings} {w : ReconstructedWindow}
    (hpend : s.pendingRollbackTurns = 0) (hsett : s.previousTurnSettings = some ss)
    (href : s.referenceContextItem.isNeverSet = false) (hwin : s.windowFound = some w) :
    let next := s.observe ctx i x
    next.previousTurnSettings = some ss ∧
      next.referenceContextItem = s.referenceContextItem ∧ next.windowFound = some w := by
  obtain ⟨a, hframe, hact⟩ | ⟨-, hcl | hsame⟩ := observe_cases ctx s i x
  · rw [hframe]
    refine ⟨hsett, rfl, ?_⟩
    rw [windowFound, ReverseScan.segment, hact]
    obtain hfd | ⟨hn, hfd⟩ := or_eq_some_iff.mp hwin
    · exact or_eq_some_iff.mpr (.inl hfd)
    · exact or_eq_some_iff.mpr (.inr ⟨hn, segmentStep_window hfd⟩)
  · obtain ⟨hkept, hkn, hset⟩ := close_keeps hpend
    rw [hcl]
    refine ⟨hkn _ hsett, hset href, ?_⟩
    rw [windowFound, ReverseScan.segment, close_activeSegment, hkept, hwin]
    rfl
  · rw [hsame]
    exact ⟨hsett, rfl, hwin⟩

/-! ### Settled scans -/

structure Outcome where
  checkpoint : ReplayCheckpoint
  settings : PreviousTurnSettings
  reference : TurnReferenceContextItem
  window : ReconstructedWindow
  worldState : Option WorldStateSnapshot

/-- The scan has found the outcome, the checkpoint and the window perhaps in the segment that is
still open. -/
structure Settled (scan : ReverseScan) (suffix : List RolloutItem) (outcome : Outcome) :
    Prop where
  follows : scan.Follows suffix
  checkpoint : newestCheckpoint suffix = some outcome.checkpoint
  settings : scan.previousTurnSettings = some outcome.settings
  reference : scan.referenceContextItem = outcome.reference
  referenceSet : outcome.reference.isNeverSet = false
  window : scan.windowFound = some outcome.window
  worldState : replayedWorldState suffix = outcome.worldState

/-- The outcome is in the closed state. -/
structure Yields (scan : ReverseScan) (outcome : Outcome) : Prop where
  checkpoint : scan.baseCompaction = some outcome.checkpoint
  settings : scan.previousTurnSettings = some outcome.settings
  reference : scan.referenceContextItem = outcome.reference
  window : scan.window = some outcome.window
  worldState : scan.worldStateReplay.reverse.foldl replayWorldState none = outcome.worldState

variable {o : Outcome}

theorem Settled.observe (h : Settled s x o) (hroll : i.rollsBack = false) :
    Settled (s.observe ctx i x) (i :: x) o := by
  obtain ⟨hset, href, hwin⟩ :=
    known_observe h.follows.pending h.settings (h.reference ▸ h.referenceSet) h.window
  refine ⟨h.follows.observe hroll, newestCheckpoint_append [i] h.checkpoint, hset,
    href.trans h.reference, h.referenceSet, hwin, ?_⟩
  rw [← h.worldState]
  exact foldl_replayWorldState_of_compacted (mem_of_newestCheckpoint h.checkpoint) _

theorem Settled.close (h : Settled s x o) : Yields s.close o := by
  obtain ⟨hrep, hbase⟩ := h.follows.close
  obtain ⟨hwin, hset, href⟩ := close_keeps h.follows.pending
  refine ⟨hbase.trans h.checkpoint, hset _ h.settings,
    (href (h.reference ▸ h.referenceSet)).trans h.reference, hwin.trans h.window, ?_⟩
  rw [hrep, reverse_reverse, foldl_replayWorldState_filter, ← h.worldState]
  rfl

/-! ### The runs -/

/-- **A settled scan yields its outcome**, wherever it stops. -/
theorem Settled.run {older n : List RolloutItem} (h : Settled (past ctx n) n o)
    (hcomp : (past ctx n).isComplete = false) (hquiet : quiet ctx n older = true) :
    Yields ((past ctx n).run ctx n older).close o := by
  induction older generalizing n with
  | nil => exact h.close
  | cons i older ih =>
    rw [quiet, hcomp, Bool.false_or, Bool.and_eq_true, Bool.not_eq_true'] at hquiet
    have hnext : Settled (past ctx (i :: n)) (i :: n) o := h.observe hquiet.1
    rw [ReverseScan.run]
    split_ifs with hdone
    · exact hnext.close
    · exact ih hnext (Bool.eq_false_of_not_eq_true hdone) hquiet.2

/-- The scan stops within the first records, at the start of a turn, or reaches their end. -/
theorem run_append (ctx : ReplayContext) (n : List RolloutItem)
    (hcomp : (past ctx n).isComplete = false) (seen : List RolloutItem) :
    (∃ t left, seen = t ++ left ∧
      (past ctx (t.reverse ++ n)).isComplete = true ∧
      (past ctx (t.reverse ++ n)).activeSegment = none ∧
      ∀ older, (past ctx n).run ctx n (seen ++ older) = past ctx (t.reverse ++ n)) ∨
    ((past ctx (seen.reverse ++ n)).isComplete = false ∧
      ∀ older, (past ctx n).run ctx n (seen ++ older) =
        (past ctx (seen.reverse ++ n)).run ctx (seen.reverse ++ n) older) := by
  induction seen generalizing n with
  | nil => exact .inr ⟨hcomp, fun _ => rfl⟩
  | cons i seen ih =>
    have hrev : ∀ l : List RolloutItem, (i :: l).reverse ++ n = l.reverse ++ i :: n := by simp
    have hrun : ∀ older, (past ctx n).run ctx n (i :: seen ++ older) =
        if (past ctx (i :: n)).isComplete then past ctx (i :: n)
        else (past ctx (i :: n)).run ctx (i :: n) (seen ++ older) :=
      fun _ => rfl
    cases hdone : (past ctx (i :: n)).isComplete with
    | true =>
      refine .inl ⟨[i], seen, rfl, hdone, ?_, fun older => ?_⟩
      · obtain ⟨a, hframe, -⟩ | ⟨-, hcl | hsame⟩ := observe_cases ctx (past ctx n) i n
        · rw [past, hframe] at hdone
          cases hdone.symm.trans hcomp
        · exact (congrArg activeSegment hcl).trans (close_activeSegment _)
        · rw [past, hsame, hcomp] at hdone
          cases hdone
      · rw [hrun, if_pos hdone]
        rfl
    | false =>
      rcases ih _ hdone with ⟨t, left, rfl, htak, hcl, hstop⟩ | ⟨hend, hgo⟩
      · refine .inl ⟨i :: t, left, rfl, (hrev t).symm ▸ htak, (hrev t).symm ▸ hcl, ?_⟩
        intro older
        rw [hrun, if_neg (by simp [hdone]), hstop, hrev]
      · refine .inr ⟨(hrev seen).symm ▸ hend, fun older => ?_⟩
        rw [hrun, if_neg (by simp [hdone]), hgo, hrev]

end ReverseScan

/-! ### Reconstructions -/

namespace ModelContextScan

variable {r : Reading} {s : ModelContextScan} {i : RolloutItem}

end ModelContextScan

/-- A scan in step with the bounded one is settled once it has its settings and a checkpoint. -/
theorem Mirrors.settled {ctx : ReplayContext} {b : ModelContextScan} {s : ReverseScan}
    {x older : List RolloutItem} (h : Mirrors ctx.reading b s older) (hfol : s.Follows x)
    (hchk : (newestCheckpoint x).isSome = true) (hset : s.previousTurnSettings.isSome = true)
    (href : s.referenceContextItem.isNeverSet = false) : ∃ o, s.Settled x o := by
  have hwin : s.windowFound.isSome = true := by
    rw [← hfol.found, found_eq, isSome_or, Bool.or_eq_true] at hchk
    rw [ReverseScan.windowFound, isSome_or, Bool.or_eq_true]
    exact hchk.imp h.window h.segment.window
  obtain ⟨c, hchk⟩ := isSome_iff_exists.mp hchk
  obtain ⟨ss, hset⟩ := isSome_iff_exists.mp hset
  obtain ⟨w, hwin⟩ := isSome_iff_exists.mp hwin
  exact ⟨⟨c, ss, s.referenceContextItem, w, replayedWorldState x⟩,
    hfol, hchk, hset, rfl, href, hwin, rfl⟩

def plainHead : SessionMeta := ⟨none, []⟩

def loaded (items : List RolloutItem) : List RolloutItem :=
  loadModelContext plainReading plainHead (.sessionMeta plainHead :: items)

end SushiGpt.Core
