/-
The delta of a patch is the story of what it did.

`AppliedPatchDelta` promises that, while `exact` is set, its changes are what was
committed.  Here that is a statement about the file system: replaying the changes
from the files the patch started with gives the files it stopped with, whatever
failed on the way, and each change records what its path held just before.

What breaks the promise is a file that is moved onto its own path.  The move writes
the new text and then removes the source, which is the same file; the delta says that
the destination holds the text.  Since every later change records what it met, nothing
mends that: the promise is kept exactly if no such move is carried out.
-/
import SushiGpt.Proofs.ApplyPatch.FileSystem

namespace SushiGpt.ApplyPatch

open Journal.Replays World Function

variable {K : Type} [DecidableEq K]

/-! ### Replaying changes -/

def replayChange (files : K → Option Text) (c : AppliedPatchChange K) : K → Option Text :=
  match c.change with
  | .add content _ => update files c.path (some content)
  | .delete _ => update files c.path none
  | .update none _ _ new => update files c.path (some new)
  | .update (some dest) _ _ new =>
    update (update files c.path none) dest (some new)

/-- What a change says about the files before it. -/
def RecordsContent (files : K → Option Text) (c : AppliedPatchChange K) : Prop :=
  match c.change with
  | .add _ overwritten => overwritten = files c.path
  | .delete content => files c.path = some content
  | .update none old overwrittenMove _ => files c.path = some old ∧ overwrittenMove = none
  | .update (some dest) old overwrittenMove _ =>
    files c.path = some old ∧ overwrittenMove = files dest

/-- The changes lead from one set of text files to another and record what they met. -/
abbrev DeltaReplays (before : K → Option Text) (changes : List (AppliedPatchChange K))
    (after : K → Option Text) : Prop :=
  Journal.Replays replayChange RecordsContent before changes after

/-- An update whose destination resolves to the path it reads from. -/
def MovesOntoItself (paths : PathOps K) (cwd : K) : Hunk → Prop
  | .updateFile path (some dest) _ =>
    ∃ k, paths.join cwd path = .ok k ∧ paths.join cwd dest = .ok k
  | _ => False

theorem eq_of_update_eq {f g : K → Option Text} {k : K} {v : Option Text} (hk : f k = g k)
    (h : update f k v = update g k v) : f = g := by
  funext j
  by_cases hj : j = k
  · exact hj ▸ hk
  · simpa [hj] using congrFun h j

theorem replayChange_injective {f g : K → Option Text} {c : AppliedPatchChange K}
    (hf : RecordsContent f c) (hg : RecordsContent g c) (h : replayChange f c = replayChange g c) :
    f = g := by
  obtain ⟨path, change⟩ := c
  cases change with
  | add content overwritten => exact eq_of_update_eq (hf.symm.trans hg) h
  | delete content => exact eq_of_update_eq (hf.trans hg.symm) h
  | update dest old overwritten new =>
    cases dest with
    | none => exact eq_of_update_eq (hf.1.trans hg.1.symm) h
    | some dest =>
      refine eq_of_update_eq (hf.1.trans hg.1.symm) (eq_of_update_eq ?_ h)
      rw [update_apply, update_apply, ← hf.2, ← hg.2]

/-! ### One hunk

A step accounts for itself when, should the flag still be set after it, the flag was
set before it and the changes it added replay what it did. -/

def Accounts (s s' : ApplyState K) : Prop :=
  s'.delta.exact = true → s.delta.exact = true ∧
    ∃ new, s'.delta.changes = s.delta.changes ++ new ∧ DeltaReplays s.world.texts new s'.world.texts

theorem accounts_inexact {s s' : ApplyState K} (h : s'.delta.exact = false) : Accounts s s' := by
  intro hex
  rw [h] at hex
  cases hex

theorem accounts_fail {s : ApplyState K} {w : World K} {exact : Bool} {e : ApplyError}
    (h : exact = true → s.delta.exact = true ∧ w.texts = s.world.texts) :
    Accounts s (s.fail w exact e).1 := by
  intro hex
  obtain ⟨hbefore, htx⟩ := h hex
  exact ⟨hbefore, [], (List.append_nil _).symm, htx.symm⟩

theorem accounts_commit {s : ApplyState K} {w : World K} {exact : Bool}
    {cs : List (AppliedPatchChange K)} {a : AffectedPaths}
    (h : exact = true → s.delta.exact = true ∧ DeltaReplays s.world.texts cs w.texts) :
    Accounts s (s.commit w exact cs a).1 := by
  intro hex
  obtain ⟨hbefore, hrep⟩ := h hex
  exact ⟨hbefore, cs, rfl, hrep⟩

theorem applyAddFile_accounts (ps : PathOps K) (s : ApplyState K) (pu : K) (ap cs : Text) :
    Accounts s (applyAddFile ps s pu ap cs).1 := by
  unfold applyAddFile
  rcases hrd : readOptionalFileTextForDelta s.world pu s.delta.exact with
    ⟨w1, exact1, o⟩
  obtain ⟨htx1, hex1⟩ := readOptionalFileTextForDelta_spec hrd
  rcases hw : writeFileWithMissingParentRetry ps w1 pu cs with ⟨w2, r⟩
  cases r with
  | error e => simpa only [hw] using accounts_inexact rfl
  | ok u =>
    have htx2 := writeFileWithMissingParentRetry_spec hw
    rw [htx1] at htx2
    simp only [hw]
    refine accounts_commit fun hex => ?_
    obtain ⟨hbefore, hcont⟩ := hex1 hex
    exact ⟨hbefore, single hcont htx2.symm⟩

/-- After a failed remove the flag survives only if nothing was removed. -/
theorem texts_of_failed_remove {w w1 w2 : World K} {p : K} {exp : Option Text}
    {e : IoError} {f : Bool} (hrem : w.remove p = (w1, .error e))
    (hcheck : removeFailureWasSideEffectFree w1 p exp = (w2, f))
    (hfree : f = true) : w2.texts = w.texts := by
  obtain ⟨htx, hheld⟩ := removeFailureWasSideEffectFree_spec hcheck
  obtain ⟨hsome, hp⟩ := hheld hfree
  rw [htx]
  rcases (remove_spec hrem).2 with hsame | hgone
  · exact hsame
  · exact absurd (hp.symm.trans hgone) hsome

theorem applyDeleteFile_accounts (ps : PathOps K) (s : ApplyState K) (pu : K)
    (ap : Text) : Accounts s (applyDeleteFile ps s pu ap).1 := by
  unfold applyDeleteFile
  rcases hnote : noteExistingPathDeltaSupport s.world pu s.delta.exact with ⟨w1, exact1⟩
  obtain ⟨htx1, hex1⟩ := noteExistingPathDeltaSupport_spec hnote
  rcases hrd : w1.readFileText pu with ⟨w2, r⟩
  obtain ⟨hfil2, hok, -⟩ := readFileText_spec hrd
  have htx2 : w2.texts = s.world.texts := (texts_congr hfil2).trans htx1
  rcases hens : ensureNotDirectory w2 pu with ⟨w3, r3⟩
  have htx3 : w3.texts = s.world.texts := (ensureNotDirectory_texts hens).trans htx2
  cases r with
  | error e =>
    -- Without the deleted text the flag is cleared whatever comes next.
    simp only [hrd, hens, Option.isNone_none, if_true]
    cases r3 with
    | error e3 => exact accounts_inexact rfl
    | ok u =>
      rcases hrem : w3.remove pu with ⟨w4, r4⟩
      simp only [hrem]
      cases r4 with
      | error e4 | ok u => exact accounts_inexact rfl
  | ok c =>
    rw [htx1] at hok
    simp only [hrd, hens, Option.isNone_some, Bool.false_eq_true, if_false]
    cases r3 with
    | error e3 => exact accounts_fail fun hex => ⟨hex1 hex, htx3⟩
    | ok u =>
      rcases hrem : w3.remove pu with ⟨w4, r4⟩
      cases r4 with
      | error e4 =>
        simp only [hrem]
        rcases hcheck : removeFailureWasSideEffectFree w4 pu (some c) with
          ⟨w5, f⟩
        refine accounts_fail fun hex => ?_
        rw [Bool.and_eq_true] at hex
        exact ⟨hex1 hex.1, (texts_of_failed_remove hrem hcheck hex.2).trans htx3⟩
      | ok u =>
        simp only [hrem]
        refine accounts_commit fun hex => ⟨hex1 hex, ?_⟩
        refine single (hok c rfl) ?_
        rw [(remove_spec hrem).1 u rfl, htx3]
        rfl

/-- A file moved onto itself is gone, and the delta says that it holds its new text. -/
def LosesFile (s s' : ApplyState K) : Prop :=
  s'.delta.exact = true → s.delta.exact = true ∧ ∃ k old overwritten new,
    s'.delta.changes = s.delta.changes ++ [⟨k, .update (some k) old overwritten new⟩] ∧
      s'.world.texts k = none

/-- A step loses the file if it is a move onto itself and goes through, and accounts for itself
otherwise. -/
structure Outcome (moves : Prop) (s : ApplyState K) (r : ApplyStep K) : Prop where
  loses : moves → r.2.isOk → LosesFile s r.1
  accounts : ¬ (moves ∧ r.2.isOk) → Accounts s r.1

theorem Outcome.of_accounts {moves : Prop} {s : ApplyState K} {r : ApplyStep K}
    (hself : moves → r.2.isOk = false) (h : Accounts s r.1) : Outcome moves s r :=
  ⟨fun hs hok => absurd ((hself hs).symm.trans hok) nofun, fun _ => h⟩

/-- The destination is written before the source is removed.  The flag may survive a
failure between the two, and then the destination's entry is all that happened. -/
theorem applyUpdateMove_outcome (ps : PathOps K) (s : ApplyState K) (w : World K) (exact : Bool)
    (pu du : K) (ap o new : Text) (hex : exact = true → s.delta.exact = true)
    (htx : w.texts = s.world.texts) (hold : s.world.texts pu = some o) :
    Outcome (du = pu) s (applyUpdateMove ps s w exact pu du ap o new) := by
  unfold applyUpdateMove
  rcases hrd : readOptionalFileTextForDelta w du exact with ⟨w1, exact1, ove⟩
  obtain ⟨htx1, hex1⟩ := readOptionalFileTextForDelta_spec hrd
  rcases hw : writeFileWithMissingParentRetry ps w1 du new with ⟨w2, r⟩
  cases r with
  | error e => simpa only [hw] using .of_accounts (fun _ => rfl) (accounts_inexact rfl)
  | ok u =>
    have htx2 := writeFileWithMissingParentRetry_spec hw
    rw [htx1, htx] at htx2
    rw [htx] at hex1
    simp only [hw]
    rcases hens : ensureNotDirectory w2 pu with ⟨w3, r3⟩
    have htx3 := (ensureNotDirectory_texts hens).trans htx2
    have hwrit : ∀ {v : World K}, exact1 = true →
        v.texts = update s.world.texts du (some new) →
        s.delta.exact = true ∧ DeltaReplays s.world.texts [⟨du, .add new ove⟩] v.texts := by
      intro v h hv
      obtain ⟨hbefore, hcont⟩ := hex1 h
      exact ⟨hex hbefore, single hcont hv.symm⟩
    cases r3 with
    | error e3 =>
      refine .of_accounts (fun _ => rfl) fun h => ?_
      obtain ⟨hbefore, hrep⟩ := hwrit h htx3
      exact ⟨hbefore, _, rfl, hrep⟩
    | ok u3 =>
      rcases hrem : w3.remove pu with ⟨w4, r4⟩
      cases r4 with
      | error e4 =>
        simp only [hrem]
        rcases hcheck : removeFailureWasSideEffectFree w4 pu (some o) with
          ⟨w5, f⟩
        refine .of_accounts (fun _ => rfl) fun h => ?_
        obtain ⟨h1, h2⟩ := Bool.and_eq_true_iff.1 h
        have htx5 := (texts_of_failed_remove hrem hcheck h2).trans htx3
        obtain ⟨hbefore, hrep⟩ := hwrit h1 htx5
        exact ⟨hbefore, _, rfl, hrep⟩
      | ok u4 =>
        simp only [hrem]
        have htx4 := (remove_spec hrem).1 u4 rfl
        refine ⟨fun hself _ h => ?_, fun hself => accounts_commit fun h => ?_⟩
        · refine ⟨hex (hex1 h).1, du, o, ove, new, by rw [hself]; rfl, ?_⟩
          show w4.texts du = none
          rw [htx4, hself, update_self]
        · obtain ⟨hbefore, hcont⟩ := hex1 h
          refine ⟨hex hbefore, single ⟨hold, hcont⟩ ?_⟩
          -- The source is not the destination, so the two updates commute.
          rw [htx4, htx3]
          exact (update_comm (fun heq => hself ⟨heq, rfl⟩) _ _ _).symm

theorem applyUpdateFile_outcome (ps : PathOps K) (m : UpdateMode) (cwd : K) (s : ApplyState K)
    (pu : K) (ap : Text) (mp : Option Text) (cs : List UpdateFileChunk) :
    Outcome (∃ d, mp = some d ∧ ps.join cwd d = .ok pu) s
      (applyUpdateFile ps m cwd s pu ap mp cs) := by
  unfold applyUpdateFile
  rcases hnote : noteExistingPathDeltaSupport s.world pu s.delta.exact with ⟨w1, exact1⟩
  obtain ⟨htx1, hex1⟩ := noteExistingPathDeltaSupport_spec hnote
  rcases hder : deriveNewContentsFromChunks ps m w1 pu cs with ⟨w2, r⟩
  obtain ⟨htx2, hnew⟩ := deriveNewContentsFromChunks_spec hder
  have htx : w2.texts = s.world.texts := htx2.trans htx1
  cases r with
  | error e =>
    simp only [hder]
    exact .of_accounts (fun _ => rfl) (accounts_fail fun h => ⟨hex1 h, htx⟩)
  | ok contents =>
    obtain ⟨o, new⟩ := contents
    obtain ⟨hold, -⟩ := hnew o new rfl
    rw [htx1] at hold
    simp only [hder]
    cases mp with
    | none =>
      refine .of_accounts (fun ⟨d, hd, _⟩ => nomatch hd) ?_
      simp only [applyUpdateInPlace]
      rcases hw : w2.writeFile pu new with ⟨w3, r⟩
      cases r with
      | error e => simpa only [hw] using accounts_inexact rfl
      | ok u =>
        have htx3 := (writeFile_spec hw).1 u rfl
        rw [htx] at htx3
        exact accounts_commit fun h => ⟨hex1 h, single ⟨hold, rfl⟩ htx3.symm⟩
    | some d =>
      cases hjoin : ps.join cwd d with
      | error e =>
        simp only [hjoin]
        exact .of_accounts (fun _ => rfl) (accounts_fail fun h => ⟨hex1 h, htx⟩)
      | ok du =>
        have hself : (∃ d', some d = some d' ∧ ps.join cwd d' = .ok pu) ↔ du = pu := by
          simp [hjoin]
        simp only [hjoin]
        rw [hself]
        exact applyUpdateMove_outcome _ _ _ _ _ _ _ _ _ hex1 htx hold

theorem applyHunk_outcome (ps : PathOps K) (m : UpdateMode) (cwd : K) (s : ApplyState K)
    (hunk : Hunk) : Outcome (MovesOntoItself ps cwd hunk) s (applyHunk ps m cwd s hunk) := by
  unfold applyHunk
  cases hres : hunk.resolvePath ps cwd with
  | error e => exact .of_accounts (fun _ => rfl) (accounts_fail fun h => ⟨h, rfl⟩)
  | ok pu =>
    cases hunk with
    | addFile p cs => exact .of_accounts nofun (applyAddFile_accounts _ _ _ _ _)
    | deleteFile p => exact .of_accounts nofun (applyDeleteFile_accounts _ _ _ _)
    | updateFile p mp chs =>
      have hself : MovesOntoItself ps cwd (.updateFile p mp chs) ↔
          ∃ d, mp = some d ∧ ps.join cwd d = .ok pu := by
        have hpu : ps.join cwd p = .ok pu := hres
        cases mp <;> simp [MovesOntoItself, hpu]
      rw [hself]
      exact applyUpdateFile_outcome _ _ _ _ _ _ _ _

/-! ### The whole patch -/

variable {files : K → Option Text} {s : ApplyState K}

/-- A delta that tells the run up to a step tells it after the step as well, unless the step loses
a file; one that does not will not. -/
theorem Outcome.replays_iff {moves : Prop} {r : ApplyStep K} (files : K → Option Text)
    (h : Outcome moves s r) (hexact : r.1.delta.exact = true) : s.delta.exact = true ∧
      (DeltaReplays files r.1.delta.changes r.1.world.texts ↔
        DeltaReplays files s.delta.changes s.world.texts ∧ ¬ (moves ∧ r.2.isOk)) := by
  by_cases hself : moves ∧ r.2.isOk
  · obtain ⟨hbefore, k, old, overwritten, new, hchanges, hgone⟩ := h.loses hself.1 hself.2 hexact
    refine ⟨hbefore, iff_of_false (fun hrep => ?_) fun hnot => hnot.2 hself⟩
    rw [hchanges] at hrep
    obtain ⟨files', -, -, hend⟩ := Journal.replays_append_iff.mp hrep
    have hk := congrFun hend k
    rw [hgone] at hk
    simp [replayChange] at hk
  · obtain ⟨hbefore, new, hchanges, hnew⟩ := h.accounts hself hexact
    refine ⟨hbefore, ?_⟩
    rw [hchanges, and_iff_left hself, DeltaReplays, Journal.replays_append_iff]
    constructor
    · rintro ⟨files', hrep, hrest⟩
      have hmid := start_unique
        (fun _ _ c hf hg => replayChange_injective (c := c) hf hg) hrest hnew
      exact hmid ▸ hrep
    · exact fun hrep => ⟨_, hrep, hnew⟩

/-- Some hunk moves a file onto itself, and the patch gets to it and through it. -/
def SelfMoveCarriedOut (paths : PathOps K) (mode : UpdateMode) (cwd : K) :
    List Hunk → ApplyState K → Prop
  | [], _ => False
  | hunk :: rest, s =>
    match applyHunk paths mode cwd s hunk with
    | (next, .ok _) => MovesOntoItself paths cwd hunk ∨
      SelfMoveCarriedOut paths mode cwd rest next
    | (_, .error _) => False

theorem loop_replays_iff (ps : PathOps K) (m : UpdateMode) (cwd : K) (hunks : List Hunk) :
    ∀ {s : ApplyState K}, (Loop.run (applyHunk ps m cwd) hunks s).1.delta.exact = true →
      s.delta.exact = true ∧
        (DeltaReplays files (Loop.run (applyHunk ps m cwd) hunks s).1.delta.changes
            (Loop.run (applyHunk ps m cwd) hunks s).1.world.texts ↔
          DeltaReplays files s.delta.changes s.world.texts ∧
            ¬ SelfMoveCarriedOut ps m cwd hunks s) := by
  induction hunks with
  | nil => exact fun hexact => ⟨hexact, (and_iff_left not_false).symm⟩
  | cons hunk rest ih =>
    intro s hexact
    have hout := applyHunk_outcome ps m cwd s hunk
    rw [Loop.run] at hexact ⊢
    rw [SelfMoveCarriedOut]
    rcases hstep : applyHunk ps m cwd s hunk with ⟨next, e | _⟩ <;> rw [hstep] at hout hexact
    · obtain ⟨hbefore, hiff⟩ := hout.replays_iff files hexact
      exact ⟨hbefore, hiff.trans (and_congr_right fun _ => by simp [Except.isOk, Except.toBool])⟩
    · obtain ⟨hnext, hrest⟩ := ih hexact
      obtain ⟨hbefore, hiff⟩ := hout.replays_iff files hnext
      refine ⟨hbefore, hrest.trans ?_⟩
      rw [hiff, not_or, and_assoc]
      simp [Except.isOk, Except.toBool]

/--
**An exact delta replays the patch exactly if no file is moved onto itself.**  For every
list of hunks, every world and every schedule of failures, if the patch stops with
`exact` set, whether it went through or not, then its changes lead from the text files it
started with to those it stopped with, and each change records what its paths held just
before it, if and only if the patch did not carry out a move of a file onto its own path.
-/
theorem exact_delta_replays_iff (paths : PathOps K) (mode : UpdateMode) (cwd : K)
    (hunks : List Hunk) (w : World K)
    (hexact : (applyHunksToFiles paths mode cwd hunks w).1.delta.exact = true) :
    DeltaReplays w.texts (applyHunksToFiles paths mode cwd hunks w).1.delta.changes
        (applyHunksToFiles paths mode cwd hunks w).1.world.texts ↔
      ¬ SelfMoveCarriedOut paths mode cwd hunks (.start w) := by
  have hloop : (applyHunksToFiles paths mode cwd hunks w).1 =
      (Loop.run (applyHunk paths mode cwd) hunks (.start w)).1 := by
    unfold applyHunksToFiles
    cases hunks with
    | nil => rfl
    | cons hunk rest =>
      simp only [List.isEmpty_cons, Bool.false_eq_true, if_false]
      split <;> rename_i heq <;> rw [heq]
  rw [hloop] at hexact ⊢
  exact (loop_replays_iff paths mode cwd hunks hexact).2.trans (and_iff_right (nil _))

/-! ### Two moves

`a` is rewritten while it is moved, once to `b` with the removal of `a` failing, once
to `a` itself. -/

/-- The seventh operation fails, and nothing was removed. -/
def removalFails : World Text :=
  { healthy onlyA with
    faults := fun n =>
      if n = 6 then some ⟨⟨.other, []⟩, ⟨.other, []⟩, nofun, none, false⟩ else none }

theorem exact_delta_replays_interrupted :
    (applyHunksToFiles namePaths .normalizeToLf [] [moveTo ['b']] removalFails).1.delta.exact
        = true ∧
      DeltaReplays removalFails.texts
        (applyHunksToFiles namePaths .normalizeToLf [] [moveTo ['b']] removalFails).1.delta.changes
        (applyHunksToFiles namePaths .normalizeToLf [] [moveTo ['b']]
          removalFails).1.world.texts := by
  have hex : (applyHunksToFiles namePaths .normalizeToLf [] [moveTo ['b']]
      removalFails).1.delta.exact = true := by decide
  exact ⟨hex, (exact_delta_replays_iff _ _ _ _ _ hex).mpr id⟩

/-- Moved onto itself, the file is gone, and the delta says that it was rewritten. -/
theorem self_move_delta_does_not_replay :
    (applyHunksToFiles namePaths .normalizeToLf [] [moveTo ['a']]
        (healthy onlyA)).1.delta.exact = true ∧
      ¬ DeltaReplays (healthy onlyA).texts
        (applyHunksToFiles namePaths .normalizeToLf [] [moveTo ['a']]
          (healthy onlyA)).1.delta.changes
        (applyHunksToFiles namePaths .normalizeToLf [] [moveTo ['a']]
          (healthy onlyA)).1.world.texts := by
  refine ⟨by decide, fun h => ?_⟩
  have hfil := congrFun h.foldl_eq ['a']
  revert hfil
  decide

end SushiGpt.ApplyPatch
