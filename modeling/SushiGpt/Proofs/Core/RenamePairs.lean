/-
Which files a diff shows as renamed.

A file that is moved keeps the path it came from, and the diff pairs that path with the place of
the file.  The path may be used again meanwhile: a new file that is made there and moved away has
the same origin, and then the order in which the map is read decides which of the two is shown as
the renamed one.  Nothing else makes the pairing ambiguous.
-/
import SushiGpt.Core.TurnDiffTracker

namespace SushiGpt.TurnDiff

open ApplyPatch TurnDiffTracker List

variable {K : Type} [DecidableEq K] {tracker : TurnDiffTracker K} {env : Text}

/-- No file without an origin is moved away from a path that another file came from. -/
def MovesFresh (environmentId : Text) : TurnDiffTracker K → List (AppliedPatchChange K) → Prop
  | _, [] => True
  | tracker, change :: changes =>
    (∀ dest old overwritten new, change.change = .update (some dest) old overwritten new →
      tracker.originByCurrentPath.lookup ⟨environmentId, change.path⟩ = none →
      ∀ entry ∈ tracker.originByCurrentPath.entries, entry.1 ≠ ⟨environmentId, dest⟩ →
        entry.2 ≠ ⟨environmentId, change.path⟩) ∧
    MovesFresh environmentId (applyChange environmentId tracker change) changes

inductive ReachedFresh : TurnDiffTracker K → Prop
  | new : ReachedFresh .new
  | trackDelta {tracker : TurnDiffTracker K} (environmentId : Text) (delta : AppliedPatchDelta K)
      (h : ReachedFresh tracker) (hfresh : tracker.valid = true → delta.exact = true →
        MovesFresh environmentId tracker delta.changes) :
      ReachedFresh (tracker.trackDelta environmentId delta)
  | invalidate {tracker : TurnDiffTracker K} (h : ReachedFresh tracker) :
      ReachedFresh tracker.invalidate

/-! ### No two files have the same origin -/

/-- Every path is the origin of at most one file. -/
def Apart (origins : AList fun _ : TrackedPath K => TrackedPath K) : Prop :=
  (origins.entries.map Sigma.snd).Nodup

variable {os : AList fun _ : TrackedPath K => TrackedPath K}

theorem Apart.erase (h : Apart os) (p : TrackedPath K) : Apart (os.erase p) :=
  List.Nodup.sublist ((kerase_sublist p os.entries).map _) h

theorem mem_of_mem_erase {p d o : TrackedPath K} (h : ⟨d, o⟩ ∈ (os.erase p).entries) :
    d ≠ p ∧ ⟨d, o⟩ ∈ os.entries := by
  refine ⟨?_, (kerase_sublist p os.entries).subset h⟩
  rintro rfl
  simpa using AList.mem_lookup_iff.2 h

@[simp]
theorem origins_noteBaseline (tracker : TurnDiffTracker K) (p : TrackedPath K)
    (ps : Option Text) : (tracker.noteBaseline p ps).originByCurrentPath =
      tracker.originByCurrentPath := by
  unfold noteBaseline
  split_ifs
  · cases ps <;> rfl
  · rfl

theorem Apart.moveCurrent (h : Apart tracker.originByCurrentPath) {s d : TrackedPath K}
    (hfresh : tracker.originByCurrentPath.lookup s = none →
      ∀ e ∈ tracker.originByCurrentPath.entries, e.1 ≠ d → e.2 ≠ s)
    (c : Text) : Apart (tracker.moveCurrent s d c).originByCurrentPath := by
  have heras := (h.erase s).erase d
  simp only [TurnDiffTracker.moveCurrent, insertCurrent, trackedContent]
  split_ifs
  · refine nodup_cons.2 ⟨fun hmem => ?_, heras.erase d⟩
    obtain ⟨⟨other, o⟩, he, horig⟩ := mem_map.1 hmem
    obtain ⟨hdest, he⟩ := mem_of_mem_erase he
    obtain ⟨hsrc, he⟩ := mem_of_mem_erase (mem_of_mem_erase he).2
    cases hlk : tracker.originByCurrentPath.lookup s with
    | none =>
      rw [hlk] at horig
      exact hfresh hlk _ he hdest horig
    | some f =>
      rw [hlk] at horig
      have heq := inj_on_of_nodup_map h he (AList.mem_lookup_iff.1 hlk) horig
      exact hsrc (congrArg Sigma.fst heq)
  · exact heras

theorem Apart.applyChanges {cs : List (AppliedPatchChange K)}
    (h : Apart tracker.originByCurrentPath) (hfresh : MovesFresh env tracker cs) :
    Apart (cs.foldl (applyChange env) tracker).originByCurrentPath := by
  induction cs generalizing tracker with
  | nil => exact h
  | cons change cs ih =>
    obtain ⟨p, change⟩ := change
    refine ih ?_ hfresh.2
    cases change with
    | add c o =>
      simpa [applyChange, applyAdd, insertCurrent, trackedContent] using h.erase _
    | delete c =>
      simp only [applyChange, applyDelete]
      split_ifs <;> exact h.erase _
    | update d old o new =>
      cases d with
      | none => simpa [applyChange, applyUpdate, insertCurrent, trackedContent] using h
      | some d =>
        have hmove := hfresh.1 d old o new rfl
        exact Apart.moveCurrent (by simpa using h) (by simpa using hmove) new

theorem ReachedFresh.apart (h : ReachedFresh tracker) : Apart tracker.originByCurrentPath := by
  induction h with
  | new => exact nodup_nil
  | trackDelta env d h hfresh ih =>
    unfold TurnDiffTracker.trackDelta
    split_ifs with hvd hex
    · exact ih
    · exact ih
    · exact ih.applyChanges (hfresh (by simpa using hvd) (by simpa using hex))
  | invalidate h ih => exact ih

/-! ### The pairing -/

theorem of_renamePair {d o : TrackedPath K} {p : TrackedPath K × TrackedPath K}
    (h : tracker.renamePair d o = some p) : p = (o, d) := by
  unfold renamePair at h
  split_ifs at h
  exact (Option.some.inj h).symm

/-- The origin can be paired with the destination. -/
abbrev Eligible (tracker : TurnDiffTracker K) (origin dest : TrackedPath K) : Prop :=
  ⟨dest, origin⟩ ∈ tracker.originByCurrentPath.entries ∧
    tracker.renamePair dest origin = some (origin, dest)

theorem renamePairs_unambiguous (h : ReachedFresh tracker) :
    (∀ origin dest dest', Eligible tracker origin dest → Eligible tracker origin dest' →
      dest = dest') ∧
    ∀ entries, entries.Perm tracker.originByCurrentPath.entries →
      tracker.renamePairs entries = tracker.renamePairs tracker.originByCurrentPath.entries := by
  have hone := inj_on_of_nodup_map h.apart
  refine ⟨fun origin dest dest' hdest hdest' => congrArg Sigma.fst (hone hdest.1 hdest'.1 rfl),
    fun entries hperm => (hperm.filterMap _).foldl_eq' (fun p hpair p' hpair' ps => ?_) ∅⟩
  obtain ⟨e, he, hren⟩ := mem_filterMap.1 hpair
  obtain ⟨e', he', hren'⟩ := mem_filterMap.1 hpair'
  rw [of_renamePair hren, of_renamePair hren']
  by_cases heq : e.2 = e'.2
  · rw [hone (hperm.subset he) (hperm.subset he') heq]
  · exact Finmap.insert_insert_of_ne ps heq

def moved (path dest : Nat) : AppliedPatchChange Nat := ⟨path, .update (some dest) [] none []⟩

theorem renamePairs_of_move : ReachedFresh (new.trackDelta [] ⟨[moved 1 2], true⟩) ∧
    ∀ dest, Eligible (new.trackDelta [] ⟨[moved 1 2], true⟩) ⟨[], 1⟩ dest → dest = ⟨[], 2⟩ := by
  have h : ReachedFresh (new.trackDelta [] ⟨[moved 1 2], true⟩) :=
    .trackDelta [] _ .new fun _ _ => ⟨fun _ _ _ _ _ _ _ he => absurd he nofun, trivial⟩
  exact ⟨h, fun dest hdest => (renamePairs_unambiguous h).1 _ dest _ hdest (by decide +kernel)⟩

/-- The path of a moved file is used for a new file, which is moved as well. -/
theorem renamePairs_path_reused :
    let tracker : TurnDiffTracker Nat :=
      new.trackDelta [] ⟨[moved 1 2, ⟨1, .add [] none⟩, moved 1 3], true⟩
    Eligible tracker ⟨[], 1⟩ ⟨[], 2⟩ ∧ Eligible tracker ⟨[], 1⟩ ⟨[], 3⟩ ∧
      (tracker.renamePairs tracker.originByCurrentPath.entries).lookup ⟨[], 1⟩ ≠
        (tracker.renamePairs tracker.originByCurrentPath.entries.reverse).lookup ⟨[], 1⟩ := by
  decide +kernel

end SushiGpt.TurnDiff
