/-
The tracker of a turn knows what its paths held before the turn and what they hold now.

A path is tracked from the first change that names it.  From then on the two maps hold its
content at the start of the turn and its present content, and a path that is in neither map was
created and removed again within the turn.  That is why the first content a change tells about
an untracked path is the content at the start: a change tells content only of a file that
exists, and a file that exists now and is tracked is in the map of present contents.
-/
import SushiGpt.Core.TurnDiffTracker
import SushiGpt.Proofs.ApplyPatch.Delta

namespace SushiGpt.TurnDiff

open ApplyPatch TurnDiffTracker List Function

variable {c : Text}

variable {K : Type} [DecidableEq K]

/-! ### Changes in an environment -/

/-- The change with its paths in an environment. -/
def inEnvironment (environmentId : Text) (change : AppliedPatchChange K) :
    AppliedPatchChange (TrackedPath K) where
  path := ⟨environmentId, change.path⟩
  change :=
    match change.change with
    | .add content overwritten => .add content overwritten
    | .delete content => .delete content
    | .update movePath old overwrittenMove new =>
      .update (movePath.map fun p => ⟨environmentId, p⟩) old overwrittenMove new

/-- The change tells what its paths held, and moves no file onto itself. -/
def Truthful (files : K → Option Text) (change : AppliedPatchChange K) : Prop :=
  match change.change with
  | .add _ overwritten => overwritten = files change.path
  | .delete content => files change.path = some content
  | .update none old _ _ => files change.path = some old
  | .update (some dest) old overwrittenMove _ =>
    files change.path = some old ∧ overwrittenMove = files dest ∧ dest ≠ change.path

def named (change : AppliedPatchChange K) : List K :=
  match change.change with
  | .update (some dest) _ _ _ => [change.path, dest]
  | _ => [change.path]

/-! ### Reading the maps -/

section Maps

variable (t : TurnDiffTracker K) (p : TrackedPath K)

def baseline : Option Text := (t.baselineByPath.lookup p).map (·.content)

def current : Option Text := (t.currentByPath.lookup p).map (·.content)

variable {t p} {c : Text}

theorem isUntracked_iff : t.isUntracked p = true ↔ current t p = none ∧ baseline t p = none := by
  simp [isUntracked, current, baseline]

@[simp]
theorem baseline_insertCurrent : baseline (t.insertCurrent p c) = baseline t := rfl

theorem current_insertCurrent : current (t.insertCurrent p c) = update (current t) p (some c) := by
  funext o
  rcases eq_or_ne o p with rfl | hne
  · simp [current, insertCurrent, trackedContent]
  · simp [current, insertCurrent, trackedContent, hne]

theorem baseline_insertBaseline : baseline (t.insertBaseline p c) =
    update (baseline t) p (some c) := by
  funext o
  rcases eq_or_ne o p with rfl | hne
  · simp [baseline, insertBaseline, trackedContent]
  · simp [baseline, insertBaseline, trackedContent, hne]

end Maps

/-! ### What every change keeps -/

/-- The known paths are those that a change has named.  `before` and `now` are what the maps
hold. -/
structure Follows {P : Type} (i files : P → Option Text) (known : Set P)
    (before now : P → Option Text) : Prop where
  tracked : ∀ p ∈ known, before p = i p ∧ now p = files p
  untracked : ∀ p ∉ known, before p = none ∧ now p = none ∧ files p = i p

section Follows

variable {P : Type} {i fs b now : P → Option Text} {k : Set P}

theorem follows_start : Follows i i ∅ (fun _ => none) fun _ => none :=
  ⟨fun _ h => absurd h (Set.notMem_empty _), fun _ _ => ⟨rfl, rfl, rfl⟩⟩

theorem Follows.update [DecidableEq P] (h : Follows i fs k b now) (p : P) (c : Option Text) :
    Follows i (update fs p c) (insert p k) (update b p (i p)) (update now p c) := by
  constructor
  · intro o ho
    rcases eq_or_ne o p with rfl | hne
    · simp only [update_self, and_self]
    · simp only [update_of_ne hne]
      exact h.tracked o (Set.mem_of_mem_insert_of_ne ho hne)
  · intro o ho
    have hne : o ≠ p := fun heq => ho (heq ▸ Set.mem_insert p k)
    simp only [update_of_ne hne]
    exact h.untracked o fun hmem => ho (Set.mem_insert_of_mem p hmem)

/-- A path without a present content in the map, but with one, had it from the start. -/
theorem Follows.of_untracked (h : Follows i fs k b now) {p : P} (hnow : now p = none)
    (hcont : fs p = some c) : i p = some c := by
  by_cases hkn : p ∈ k
  · rw [← (h.tracked p hkn).2, hnow] at hcont
    cases hcont
  · rw [← (h.untracked p hkn).2.2, hcont]

/-- A path with a content at present or at the start, or that did not exist, is known. -/
theorem Follows.before_eq (h : Follows i fs k b now) {p : P}
    (hheld : ¬ (now p = none ∧ b p = none) ∨ fs p = none) : b p = i p := by
  by_cases hkn : p ∈ k
  · exact (h.tracked p hkn).1
  · obtain ⟨hn, hnot, hsame⟩ := h.untracked p hkn
    rw [hn, ← hsame]
    exact (hheld.resolve_left (not_not_intro ⟨hnot, hn⟩)).symm

end Follows

variable {i fs : TrackedPath K → Option Text} {k : Set (TrackedPath K)}
  {t t' : TurnDiffTracker K} {p : TrackedPath K}

@[simp]
theorem current_noteBaseline {ps : Option Text} : current (t.noteBaseline p ps) = current t := by
  unfold noteBaseline
  split_ifs
  · cases ps <;> rfl
  · rfl

theorem baseline_applyDelete :
    baseline (t.applyDelete p c) = baseline (t.noteBaseline p (some c)) := by
  unfold applyDelete noteBaseline isUntracked
  dsimp only
  split_ifs <;> rfl

theorem current_erase (t : TurnDiffTracker K) (p : TrackedPath K)
    (os : AList fun _ : TrackedPath K => TrackedPath K) :
    current { t with
      currentByPath := t.currentByPath.erase p
      originByCurrentPath := os } = update (current t) p none := by
  funext o
  rcases eq_or_ne o p with rfl | hne
  · simp [current]
  · simp [current, hne]

theorem current_applyDelete : current (t.applyDelete p c) = update (current t) p none := by
  rw [← current_erase t p t.originByCurrentPath]
  unfold applyDelete
  dsimp only
  split_ifs <;> rfl

theorem baseline_moveCurrent {d : TrackedPath K} :
    baseline (t.moveCurrent p d c) = baseline t := rfl

theorem current_moveCurrent {d : TrackedPath K} :
    current (t.moveCurrent p d c) = update (update (current t) p none) d (some c) := by
  rw [← current_erase t p (t.originByCurrentPath.erase p), ← current_insertCurrent]
  rfl

section

variable (h : Follows i fs k (baseline t) (current t))
include h

/-- What is noted about a path is its content at the start of the turn. -/
theorem baseline_noteBaseline (t' : TurnDiffTracker K) (hbas : baseline t' p = baseline t p)
    (hcur : current t' p = current t p) :
    baseline (t'.noteBaseline p (fs p)) = update (baseline t') p (i p) := by
  have hsame (hheld : ¬ (current t p = none ∧ baseline t p = none) ∨
      fs p = none) :
      baseline t' = update (baseline t') p (i p) := by
    rw [← h.before_eq hheld, ← hbas, update_eq_self]
  unfold noteBaseline
  split_ifs with hunt
  · rw [isUntracked_iff, hbas, hcur] at hunt
    cases hcont : fs p with
    | none => exact hsame (.inr hcont)
    | some c =>
      rw [h.of_untracked hunt.1 hcont]
      exact baseline_insertBaseline
  · rw [isUntracked_iff, hbas, hcur] at hunt
    exact hsame (.inl hunt)

theorem follows_update {t' : TurnDiffTracker K} {content : Option Text}
    (hbas : baseline t' = update (baseline t) p (i p))
    (hcur : current t' = update (current t) p content) :
    Follows i (update fs p content) (insert p k) (baseline t') (current t') := by
  rw [hbas, hcur]
  exact h.update p content

theorem applyUpdate_move_follows {d : TrackedPath K} {old new : Text}
    (hold : fs p = some old) (hne : d ≠ p) :
    Follows i (update (update fs p none) d (some new))
      (insert d (insert p k))
      (baseline (t.applyUpdate p (some d) old (fs d) new))
      (current (t.applyUpdate p (some d) old (fs d) new)) := by
  have hsrc : baseline (t.noteBaseline p (fs p)) = _ := baseline_noteBaseline h t rfl rfl
  rw [hold] at hsrc
  unfold applyUpdate
  rw [baseline_moveCurrent, current_moveCurrent, current_noteBaseline, current_noteBaseline,
    baseline_noteBaseline h (t.noteBaseline p (some old)) ?_ ?_, hsrc]
  · exact (h.update p none).update d (some new)
  · rw [hsrc, update_of_ne hne]
  · rw [current_noteBaseline]

theorem applyChange_follows (env : Text) {change : AppliedPatchChange K}
    (htrut : Truthful fs (inEnvironment env change)) :
    Follows i (replayChange fs (inEnvironment env change))
      ({p | p ∈ named (inEnvironment env change)} ∪ k)
      (baseline (applyChange env t change))
      (current (applyChange env t change)) := by
  obtain ⟨p, kind⟩ := change
  have hsin (p : TrackedPath K) : {other | other ∈ [p]} ∪ k = insert p k := by
    ext other
    simp
  cases kind with
  | add c o =>
    obtain rfl : o = fs ⟨env, p⟩ := htrut
    refine hsin _ ▸ follows_update h ?_ ?_
    · exact baseline_insertCurrent.trans (baseline_noteBaseline h { t with
        originByCurrentPath := t.originByCurrentPath.erase ⟨env, p⟩ } rfl rfl)
    · exact current_insertCurrent.trans (by rw [current_noteBaseline]; rfl)
  | delete c =>
    refine hsin _ ▸ follows_update h (baseline_applyDelete.trans ?_) current_applyDelete
    exact htrut ▸ baseline_noteBaseline h t rfl rfl
  | update mp old o new =>
    cases mp with
    | none =>
      refine hsin _ ▸ follows_update h (baseline_insertCurrent.trans ?_) ?_
      · exact htrut ▸ baseline_noteBaseline h t rfl rfl
      · exact current_insertCurrent.trans (by rw [current_noteBaseline]; rfl)
    | some d =>
      obtain ⟨hold, rfl, hne⟩ := htrut
      have hboth : {other | other ∈ [(⟨env, p⟩ : TrackedPath K),
          ⟨env, d⟩]} ∪ k = insert ⟨env, d⟩ (insert ⟨env, p⟩ k) := by
        ext other
        simp only [Set.mem_union, Set.mem_ofPred_eq, mem_cons, not_mem_nil, or_false,
          Set.mem_insert_iff]
        tauto
      exact hboth ▸ applyUpdate_move_follows h hold hne

end

/-! ### A turn -/

theorem valid_noteBaseline {ps : Option Text} : (t.noteBaseline p ps).valid = t.valid := by
  unfold noteBaseline
  split_ifs
  · cases ps <;> rfl
  · rfl

theorem valid_applyChange (env : Text) (change : AppliedPatchChange K) :
    (applyChange env t change).valid = t.valid := by
  obtain ⟨p, kind⟩ := change
  cases kind with
  | add c o => exact valid_noteBaseline
  | delete c =>
    show (applyDelete ..).valid = _
    unfold applyDelete
    dsimp only
    split_ifs <;> rfl
  | update mp old o new =>
    cases mp with
    | none => exact valid_noteBaseline
    | some d => exact valid_noteBaseline.trans valid_noteBaseline

/-- The changes of a turn, each with its environment. -/
def turnChanges (deltas : List (Text × AppliedPatchDelta K)) : List (Text × AppliedPatchChange K) :=
  deltas.flatMap fun delta => delta.2.changes.map fun change => (delta.1, change)

def trackTurn (deltas : List (Text × AppliedPatchDelta K)) : TurnDiffTracker K :=
  deltas.foldl (fun t delta => t.trackDelta delta.1 delta.2) .new

/-- The changes of a turn lead from one set of files to another and tell what they met. -/
abbrev TurnReplays (i : TrackedPath K → Option Text)
    (changes : List (Text × AppliedPatchChange K)) (final : TrackedPath K → Option Text) : Prop :=
  Journal.Replays (fun files change => replayChange files (inEnvironment change.1 change.2))
    (fun files change => Truthful files (inEnvironment change.1 change.2)) i changes final

def namedBy (changes : List (Text × AppliedPatchChange K)) : Set (TrackedPath K) :=
  {p | ∃ change ∈ changes, p ∈ named (inEnvironment change.1 change.2)}

omit [DecidableEq K] in
theorem namedBy_append (cs : List (Text × AppliedPatchChange K))
    (change : Text × AppliedPatchChange K) :
    namedBy (cs ++ [change]) =
      {p | p ∈ named (inEnvironment change.1 change.2)} ∪ namedBy cs := by
  ext p
  simp only [namedBy, Set.mem_ofPred_eq, mem_append, mem_singleton, Set.mem_union]
  constructor
  · rintro ⟨o, hmem | rfl, hp⟩
    · exact .inr ⟨o, hmem, hp⟩
    · exact .inl hp
  · rintro (hp | ⟨o, hmem, hp⟩)
    · exact ⟨change, .inr rfl, hp⟩
    · exact ⟨o, .inl hmem, hp⟩

theorem valid_applyChanges (env : Text) (cs : List (AppliedPatchChange K)) :
    (cs.foldl (applyChange env) t).valid = t.valid := by
  induction cs generalizing t with
  | nil => rfl
  | cons change r ih => exact ih.trans (valid_applyChange env change)

/-- As long as the deltas are exact, the tracker takes in every change. -/
theorem foldl_trackDelta {ds : List (Text × AppliedPatchDelta K)}
    (hex : ∀ d ∈ ds, d.2.exact = true) (hvd : t.valid = true) :
    ds.foldl (fun t d => t.trackDelta d.1 d.2) t =
      (turnChanges ds).foldl (fun t change => applyChange change.1 t change.2) t := by
  induction ds generalizing t with
  | nil => rfl
  | cons d r ih =>
    obtain ⟨hfst, hrest⟩ := forall_mem_cons.mp hex
    have hs : t.trackDelta d.1 d.2 = d.2.changes.foldl (applyChange d.1) t := by
      rw [trackDelta, if_neg (by simp [hvd]), if_neg (by simp [hfst])]
    have hcons : turnChanges (d :: r) =
        (d.2.changes.map fun change => (d.1, change)) ++ turnChanges r := rfl
    rw [foldl_cons, hs, ih hrest ((valid_applyChanges ..).trans hvd), hcons, foldl_append,
      foldl_map]

variable {initial : TrackedPath K → Option Text} in
/-- **The tracker of a turn holds, for every path that a change names, its content at the start
and at the end of the turn, and no other path.** -/
theorem tracker_follows_turn {final : TrackedPath K → Option Text}
    {deltas : List (Text × AppliedPatchDelta K)} (hexact : ∀ delta ∈ deltas, delta.2.exact = true)
    (hreplays : TurnReplays initial (turnChanges deltas) final) :
    (∀ path ∈ namedBy (turnChanges deltas), baseline (trackTurn deltas) path = initial path ∧
      current (trackTurn deltas) path = final path) ∧
    ∀ path ∉ namedBy (turnChanges deltas), baseline (trackTurn deltas) path = none ∧
      current (trackTurn deltas) path = none ∧ final path = initial path := by
  have hst : Follows initial initial (namedBy ([] : List (Text × AppliedPatchChange K)))
      (baseline .new) (current .new) := by
    have hn : namedBy ([] : List (Text × AppliedPatchChange K)) = ∅ := by simp [namedBy]
    rw [hn]
    exact follows_start
  have hfol := hreplays.follow (fun t change => applyChange change.1 t change.2)
    (fun d fs t => Follows initial fs (namedBy d) (baseline t) (current t))
    (fun d fs t change h htrut => by
      rw [namedBy_append]
      exact applyChange_follows h change.1 htrut) hst
  rw [nil_append, ← foldl_trackDelta hexact rfl] at hfol
  exact ⟨hfol.tracked, hfol.untracked⟩

/-! A turn in which `a` is moved onto `b`, `b` back to `a`, and a new `b` is added and deleted. -/

def onlyA : TrackedPath Char → Option Text
  | ⟨[], 'a'⟩ => some ['1']
  | _ => none

def moveAndBack : List (Text × AppliedPatchDelta Char) :=
  [([], ⟨[⟨'a', .update (some 'b') ['1'] none ['2']⟩], true⟩),
    ([], ⟨[⟨'b', .update (some 'a') ['2'] none ['3']⟩, ⟨'b', .add ['4'] none⟩,
      ⟨'b', .delete ['4']⟩], true⟩)]

theorem moveAndBack_tracked :
    baseline (trackTurn moveAndBack) ⟨[], 'a'⟩ = some ['1'] ∧
    current (trackTurn moveAndBack) ⟨[], 'a'⟩ = some ['3'] ∧
    baseline (trackTurn moveAndBack) ⟨[], 'b'⟩ = none ∧
    current (trackTurn moveAndBack) ⟨[], 'b'⟩ = none := by
  have hrep : TurnReplays onlyA (turnChanges moveAndBack) _ :=
    ⟨⟨rfl, rfl, by decide⟩, ⟨rfl, rfl, by decide⟩, rfl, rfl, rfl⟩
  obtain ⟨htrac, _⟩ := tracker_follows_turn (by decide) hrep
  have ha := htrac ⟨[], 'a'⟩ ⟨_, mem_cons_self .., mem_cons_self ..⟩
  have hb := htrac ⟨[], 'b'⟩ ⟨_, mem_cons_of_mem _ (mem_cons_self ..), mem_cons_self ..⟩
  exact ⟨ha.1, ha.2, hb.1, hb.2⟩

end SushiGpt.TurnDiff
