/-
A verified patch does what it was approved for.

Verification and application are two readings of one plan of edits.  Verification
looks at every hunk against the files as they are; application runs the hunks one
after the other.  On a file system where every operation on a regular file succeeds,
both are shown here to be exactly that: the verified action is the plan's description
and the application is the plan's run.  The comparison of the two readings is then
the one made for plans in general.
-/
import SushiGpt.ApplyPatch.Verify
import SushiGpt.Proofs.ApplyPatch.FileSystem
import SushiGpt.Lib.Edits
import SushiGpt.Lib.Lists

namespace SushiGpt.ApplyPatch

open Edit World List Function

variable {K : Type}

/-! ### The plan of a patch -/

/-- What the chunks make of a text, if they apply to it. -/
def rewrite (ps : PathOps K) (mode : UpdateMode) (path : K) (chunks : List UpdateFileChunk)
    (t : Text) : Option Text :=
  (newContents mode (ps.inferredNativePathString path) chunks t).toOption

def hunkEdit (ps : PathOps K) (mode : UpdateMode) (cwd : K) (hunk : Hunk) :
    Except PathUriParseError (Edit K Text) :=
  match hunk.resolvePath ps cwd with
  | .error e => .error e
  | .ok path =>
    match hunk with
    | .addFile _ contents => .ok (.set path fun _ => some contents)
    | .deleteFile _ => .ok (.drop path)
    | .updateFile _ none chunks =>
      .ok (.set path fun held => held.bind (rewrite ps mode path chunks))
    | .updateFile _ (some dest) chunks =>
      match ps.join cwd dest with
      | .error e => .error e
      | .ok destUri => .ok (.move path destUri (rewrite ps mode path chunks))

/-- The hunks of a patch and the edits they stand for, one by one. -/
abbrev PatchPlan (ps : PathOps K) (mode : UpdateMode) (cwd : K) (hunks : List Hunk)
    (p : List (Edit K Text)) : Prop :=
  Forall₂ (fun hunk e => hunkEdit ps mode cwd hunk = .ok e) hunks p

/-! ### What an action describes -/

/-- The files after the change to `path` are as the change says. -/
def ChangeHolds (after : K → Option Text) (path : K) : ApplyPatchFileChange K → Prop
  | .add content => after path = some content
  | .delete _ => after path = none
  | .update _ none new => after path = some new
  | .update _ (some dest) new => after dest = some new ∧ after path = none

/-- The paths a change is about. -/
def ChangeTouches (k path : K) : ApplyPatchFileChange K → Prop
  | .update _ (some dest) _ => k = dest ∨ k = path
  | _ => k = path

/-- Every change holds, and every path no change is about is as it was. -/
structure ApplyPatchAction.Describes (act : ApplyPatchAction K)
    (before after : K → Option Text) : Prop where
  changed : ∀ c ∈ act.changes, ChangeHolds after c.1 c.2
  unchanged : ∀ k, (∀ c ∈ act.changes, ¬ ChangeTouches k c.1 c.2) → after k = before k

/-- A change says what an edit does to the files it was verified against. -/
structure ChangeOf (before : K → Option Text) (e : Edit K Text)
    (c : K × ApplyPatchFileChange K) : Prop where
  target : e.target = c.1
  applies : (e.value (before e.target)).isSome
  holds : ∀ after, ChangeHolds after c.1 c.2 ↔
    (∀ k, e.removes = some k → after k = none) ∧
      (∀ k, e.writes = some k → after k = e.value (before e.target))
  touches : ∀ k, ChangeTouches k c.1 c.2 ↔ e.writes = some k ∨ e.removes = some k

theorem targets_of_changes {b : K → Option Text} {p : List (Edit K Text)}
    {changes : List (K × ApplyPatchFileChange K)} (h : Forall₂ (ChangeOf b) p changes) :
    p.map target = changes.map Prod.fst := by
  induction h with
  | nil => rfl
  | cons hof _ ih => rw [map_cons, map_cons, hof.target, ih]

variable {act : ApplyPatchAction K} {n : Nat} {mode : UpdateMode}
  {ps : PathOps K} {fs : Store K Text} {s : ApplyState K} {ud : Text → Text → Text}
  {path cwd : K} {t : Text} {hunk : Hunk} {hunks : List Hunk} {cs : List UpdateFileChunk}
  {p : List (Edit K Text)}

theorem describes_iff {b a : K → Option Text} (h : Forall₂ (ChangeOf b) p act.changes) :
    act.Describes b a ↔ Plan.Describes b p a := by
  have hleft := Lists.exists_right_of_forall₂ h
  have hrt := Lists.exists_left_of_forall₂ h
  constructor
  · intro hdesc
    have hhol : ∀ e ∈ p, (∀ k, e.removes = some k → a k = none) ∧
        (∀ k, e.writes = some k → a k = e.value (b e.target)) := by
      intro e he
      obtain ⟨c, hc, hof⟩ := hleft e he
      exact (hof.holds a).1 (hdesc.changed c hc)
    refine ⟨fun e he => (hhol e he).1, fun e he => (hhol e he).2, fun k hk => ?_⟩
    refine hdesc.unchanged k fun c hc htouch => ?_
    obtain ⟨e, he, hof⟩ := hrt c hc
    rcases (hof.touches k).1 htouch with hw | hr
    · exact (hk e he).1 hw
    · exact (hk e he).2 hr
  · intro hdesc
    refine ⟨fun c hc => ?_, fun k hk => hdesc.kept k fun e he => ?_⟩
    · obtain ⟨e, he, hof⟩ := hrt c hc
      exact (hof.holds a).2 ⟨hdesc.removed e he, hdesc.written e he⟩
    · obtain ⟨c, hc, hof⟩ := hleft e he
      exact ⟨fun hw => hk c hc ((hof.touches k).2 (.inl hw)),
        fun hr => hk c hc ((hof.touches k).2 (.inr hr))⟩

/-! ### A world in which nothing fails -/

namespace World

/-- The healthy world after `n` operations. -/
def clean (fs : K → Option Text) (n : Nat) : World K :=
  ⟨fun k => (fs k).map .text, fun _ => none, n⟩

theorem clean_texts (fs : K → Option Text) (n : Nat) : (clean fs n).texts = fs := by
  funext k
  cases h : fs k with
  | none => simp [texts, clean, h]
  | some t => simp [texts, clean, h, Node.asText]

theorem clean_read_some (h : fs path = some t) :
    (clean fs n).readFileText path = (clean fs (n + 1), .ok t) := by
  simp [readFileText, fault, clean, h, tick]

theorem clean_read_none (h : fs path = none) :
    (clean fs n).readFileText path = (clean fs (n + 1), .error notFound) := by
  simp [readFileText, fault, clean, h, tick]

theorem clean_metadata_some (h : fs path = some t) :
    (clean fs n).getMetadata path = (clean fs (n + 1), .ok ⟨true, false, false⟩) := by
  simp [getMetadata, fault, clean, h, tick, Node.metadata]

theorem clean_metadata_none (h : fs path = none) :
    (clean fs n).getMetadata path = (clean fs (n + 1), .error notFound) := by
  simp [getMetadata, fault, clean, h, tick]

variable [DecidableEq K]

theorem clean_set (fs : K → Option Text) (n : Nat) (path : K) (c : Option Text) :
    (clean fs n).set path (c.map .text) = clean (update fs path c) n := by
  unfold set clean
  congr 1
  funext k
  by_cases h : k = path
  · subst h; simp
  · simp [h]

theorem clean_write (fs : K → Option Text) (n : Nat) (path : K) (contents : Text) :
    (clean fs n).writeFile path contents =
      (clean (update fs path (some contents)) (n + 1), .ok ()) := by
  rw [← clean_set]
  unfold writeFile
  have hfault : (clean fs n).fault = none := rfl
  rw [hfault]
  cases h : fs path with
  | none | some t => simp [clean, h, tick]

theorem clean_remove (h : fs path = some t) :
    (clean fs n).remove path = (clean (update fs path none) (n + 1), .ok ()) := by
  rw [← clean_set]
  simp [remove, fault, clean, h, tick]

end World

theorem clean_note {exact : Bool} :
    noteExistingPathDeltaSupport (.clean fs n) path exact = (.clean fs (n + 1), exact) := by
  unfold noteExistingPathDeltaSupport
  cases h : fs path with
  | none => simp [clean_metadata_none h, notFound]
  | some t => simp [clean_metadata_some h]

theorem clean_readOptional {exact : Bool} :
    readOptionalFileTextForDelta (.clean fs n) path exact =
      (.clean fs (n + 2), exact, fs path) := by
  unfold readOptionalFileTextForDelta
  rw [clean_note]
  cases h : fs path with
  | none => simp [clean_read_none h, notFound]
  | some t => simp [clean_read_some h]

theorem clean_ensure_some (h : fs path = some t) :
    ensureNotDirectory (.clean fs n) path = (.clean fs (n + 1), .ok ()) := by
  simp [ensureNotDirectory, clean_metadata_some h]

/-- Deriving the new contents succeeds when the chunks rewrite what the file holds. -/
theorem clean_derive_some {new : Text} (h : (fs path).bind (rewrite ps mode path cs) = some new) :
    ∃ o, fs path = some o ∧
      deriveNewContentsFromChunks ps mode (.clean fs n) path cs =
        (.clean fs (n + 1), .ok (o, new)) := by
  obtain ⟨o, hheld, hnew⟩ := Option.bind_eq_some_iff.1 h
  refine ⟨o, hheld, ?_⟩
  unfold deriveNewContentsFromChunks
  rw [clean_read_some hheld]
  unfold rewrite at hnew
  cases hc : newContents mode (ps.inferredNativePathString path) cs o with
  | error e => simp [hc, Except.toOption] at hnew
  | ok new' =>
    rw [hc] at hnew
    obtain rfl := Option.some.inj hnew
    simp [hc]

theorem clean_derive_none (h : (fs path).bind (rewrite ps mode path cs) = none) :
    ∃ e, deriveNewContentsFromChunks ps mode (.clean fs n) path cs =
      (.clean fs (n + 1), .error e) := by
  unfold deriveNewContentsFromChunks
  cases hheld : fs path with
  | none => exact ⟨_, by rw [clean_read_none hheld]⟩
  | some o =>
    rw [hheld] at h
    rw [clean_read_some hheld]
    cases hc : newContents mode (ps.inferredNativePathString path) cs o with
    | error e => exact ⟨.computeReplacements e, by simp [hc]⟩
    | ok new => simp [rewrite, hc, Except.toOption] at h

/-! ### Applying a hunk is running its edit -/

variable [DecidableEq K]

theorem clean_writeRetry (ps : PathOps K) (fs : K → Option Text) (n : Nat) (path : K)
    (contents : Text) :
    writeFileWithMissingParentRetry ps (.clean fs n) path contents =
      (.clean (update fs path (some contents)) (n + 1), .ok ()) := by
  simp [writeFileWithMissingParentRetry, clean_write]

/-- A step that ends as the edit's run says: in the store it gives, or with an error
when it gives none. -/
def StepIs (run : Option (Store K Text)) (step : ApplyStep K) : Prop :=
  match run with
  | some fs => step.2 = .ok () ∧ ∃ n, step.1.world = .clean fs n
  | none => ∃ e, step.2 = .error e

section

variable (hworld : s.world = .clean fs n)
include hworld

theorem applyDeleteFile_runs (a : Text) :
    StepIs ((drop path).run fs) (applyDeleteFile ps s path a) := by
  rw [run_drop]
  unfold applyDeleteFile
  rw [hworld, clean_note]
  cases hheld : fs path with
  | none =>
    simp only [clean_read_none hheld, ensureNotDirectory, clean_metadata_none hheld]
    exact ⟨_, rfl⟩
  | some t =>
    simp only [clean_read_some hheld, clean_ensure_some hheld, clean_remove hheld]
    exact ⟨rfl, _, rfl⟩

theorem applyUpdateFile_runs (a : Text) :
    StepIs ((set path fun held => held.bind (rewrite ps mode path cs)).run fs)
      (applyUpdateFile ps mode cwd s path a none cs) := by
  rw [run_set]
  unfold applyUpdateFile
  rw [hworld, clean_note]
  cases hnew : (fs path).bind (rewrite ps mode path cs) with
  | none =>
    obtain ⟨e, he⟩ := clean_derive_none (n := n + 1) hnew
    simp only [he]
    exact ⟨_, rfl⟩
  | some new =>
    obtain ⟨o, -, he⟩ := clean_derive_some (n := n + 1) hnew
    simp only [he, applyUpdateInPlace, clean_write]
    exact ⟨rfl, _, rfl⟩

theorem applyUpdateFile_move_runs (a : Text) {d : Text} {du : K} (hdest : ps.join cwd d = .ok du) :
    StepIs ((move path du (rewrite ps mode path cs)).run fs)
      (applyUpdateFile ps mode cwd s path a (some d) cs) := by
  rw [run_move]
  unfold applyUpdateFile
  rw [hworld, clean_note]
  cases hnew : (fs path).bind (rewrite ps mode path cs) with
  | none =>
    obtain ⟨e, he⟩ := clean_derive_none (n := n + 1) hnew
    simp only [he]
    exact ⟨_, rfl⟩
  | some new =>
    obtain ⟨o, hheld, he⟩ := clean_derive_some (n := n + 1) hnew
    -- The source is still there after the destination is written, even onto itself.
    obtain ⟨t, ht⟩ : ∃ t, update fs du (some new) path = some t := by
      by_cases h : path = du
      · subst h; exact ⟨new, by simp⟩
      · exact ⟨o, by rw [update_of_ne h, hheld]⟩
    simp only [he, hdest, applyUpdateMove, clean_readOptional, clean_writeRetry,
      clean_ensure_some ht, clean_remove ht]
    exact ⟨rfl, _, rfl⟩

theorem applyHunk_runs {e : Edit K Text} (hedit : hunkEdit ps mode cwd hunk = .ok e) :
    StepIs (e.run fs) (applyHunk ps mode cwd s hunk) := by
  unfold hunkEdit at hedit
  unfold applyHunk
  cases hres : hunk.resolvePath ps cwd with
  | error err => simp [hres] at hedit
  | ok path =>
    simp only [hres] at hedit
    cases hunk with
    | addFile p contents =>
      obtain rfl := Except.ok.inj hedit
      simp only [run_set, applyAddFile, hworld, clean_readOptional, clean_writeRetry]
      exact ⟨rfl, _, rfl⟩
    | deleteFile p =>
      obtain rfl := Except.ok.inj hedit
      exact applyDeleteFile_runs hworld _
    | updateFile p mp cs =>
      cases mp with
      | none =>
        obtain rfl := Except.ok.inj hedit
        exact applyUpdateFile_runs hworld _
      | some d =>
        cases hdest : ps.join cwd d with
        | error err => simp [hdest] at hedit
        | ok du =>
          simp only [hdest] at hedit
          obtain rfl := Except.ok.inj hedit
          exact applyUpdateFile_move_runs hworld _ hdest

end

theorem applyHunks_run (hplan : PatchPlan ps mode cwd hunks p) (hworld : s.world = .clean fs n) :
    StepIs (runAll p fs) (Loop.run (applyHunk ps mode cwd) hunks s) := by
  induction hplan generalizing s fs n with
  | nil => exact ⟨rfl, n, hworld⟩
  | @cons hunk e hunks p hedit _ ih =>
    have hs := applyHunk_runs hworld hedit
    rw [runAll, Loop.run]
    rcases happ : applyHunk ps mode cwd s hunk with ⟨s', r⟩
    rw [happ] at hs
    cases hrun : e.run fs with
    | none =>
      rw [hrun] at hs
      obtain ⟨err, rfl⟩ := hs
      exact ⟨err, rfl⟩
    | some fs' =>
      rw [hrun] at hs
      obtain ⟨rfl, m, hwor'⟩ := hs
      exact ih hwor'

/-! ### Verifying a hunk is describing its edit -/

omit [DecidableEq K] in
theorem verifyHunk_describes {w : World K} {change : ApplyPatchFileChange K}
    (hres : hunk.resolvePath ps cwd = .ok path)
    (hver : verifyHunk ps mode ud cwd path (.clean fs n) hunk = (w, .ok change)) :
    (∃ m, w = .clean fs m) ∧
      ∃ e, hunkEdit ps mode cwd hunk = .ok e ∧ ChangeOf fs e (path, change) := by
  unfold hunkEdit
  rw [hres]
  cases hunk with
  | addFile p contents =>
    obtain ⟨rfl, hchan⟩ := Prod.mk.inj hver
    obtain rfl := Except.ok.inj hchan
    refine ⟨⟨n, rfl⟩, _, rfl, rfl, rfl, fun a => ?_, fun k => ?_⟩
    · simp [ChangeHolds, removes, writes, value]
    · simp [ChangeTouches, removes, writes, eq_comm]
  | deleteFile p =>
    unfold verifyHunk at hver
    cases hheld : fs path with
    | none =>
      rw [clean_read_none hheld] at hver
      simp at hver
    | some t =>
      rw [clean_read_some hheld] at hver
      obtain ⟨rfl, hchan⟩ := Prod.mk.inj hver
      obtain rfl := Except.ok.inj hchan
      refine ⟨⟨n + 1, rfl⟩, _, rfl, rfl, ?_, fun a => ?_, fun k => ?_⟩
      · simp [target, value, hheld]
      · simp [ChangeHolds, removes, writes]
      · simp [ChangeTouches, removes, writes, eq_comm]
  | updateFile p mp cs =>
    unfold verifyHunk at hver
    cases hnew : (fs path).bind (rewrite ps mode path cs) with
    | none =>
      obtain ⟨e, he⟩ := clean_derive_none (n := n) hnew
      simp [he] at hver
    | some new =>
      obtain ⟨o, -, he⟩ := clean_derive_some (n := n) hnew
      simp only [he] at hver
      cases mp with
      | none =>
        obtain ⟨rfl, hchan⟩ := Prod.mk.inj hver
        obtain rfl := Except.ok.inj hchan
        refine ⟨⟨n + 1, rfl⟩, _, rfl, rfl, ?_, fun a => ?_, fun k => ?_⟩
        · simp [target, value, hnew]
        · simp [ChangeHolds, removes, writes, value, target, hnew]
        · simp [ChangeTouches, removes, writes, eq_comm]
      | some d =>
        cases hdest : ps.join cwd d with
        | error err => simp [hdest] at hver
        | ok du =>
          simp only [hdest] at hver
          obtain ⟨rfl, hchan⟩ := Prod.mk.inj hver
          obtain rfl := Except.ok.inj hchan
          refine ⟨⟨n + 1, rfl⟩, .move path du (rewrite ps mode path cs), ?_,
            rfl, ?_, fun a => ?_, fun k => ?_⟩
          · simp [hdest]
          · simp [target, value, hnew]
          · simp [ChangeHolds, removes, writes, value, target, hnew, and_comm]
          · simp [ChangeTouches, removes, writes, eq_comm]

/-- The loop of the verification: the plan of the hunks still to come, and the changes
they add to those collected. -/
theorem verifyHunks_describes {changes all : List (K × ApplyPatchFileChange K)} {w : World K}
    (hver : verifyHunks ps mode ud cwd hunks changes (.clean fs n) = (w, .ok all))
    (hnd : (changes.map Prod.fst).Nodup) :
    (all.map Prod.fst).Nodup ∧ ∃ p new, PatchPlan ps mode cwd hunks p ∧
      all = changes ++ new ∧ Forall₂ (ChangeOf fs) p new := by
  induction hunks generalizing changes n with
  | nil =>
    obtain ⟨-, hall⟩ := Prod.mk.inj hver
    obtain rfl := Except.ok.inj hall
    exact ⟨hnd, [], [], .nil, (append_nil _).symm, .nil⟩
  | cons hunk rest ih =>
    rw [verifyHunks] at hver
    cases hres : hunk.resolvePath ps cwd with
    | error e => simp [hres] at hver
    | ok path =>
      simp only [hres] at hver
      by_cases hdup : path ∈ changes.map Prod.fst
      · simp [hdup] at hver
      · rw [if_neg hdup] at hver
        rcases hone : verifyHunk ps mode ud cwd path (.clean fs n) hunk with
          ⟨w', r⟩
        rw [hone] at hver
        cases r with
        | error e => simp at hver
        | ok change =>
          obtain ⟨⟨m, rfl⟩, e, hedit, hof⟩ := verifyHunk_describes hres hone
          have hnd' : ((changes ++ [(path, change)]).map Prod.fst).Nodup := by
            rw [map_append, map_singleton, nodup_append]
            refine ⟨hnd, nodup_singleton _, fun a ha b hb heq => hdup ?_⟩
            obtain rfl : b = path := mem_singleton.1 hb
            exact heq ▸ ha
          obtain ⟨hall, p, new, hplan, rfl, hofs⟩ := ih hver hnd'
          exact ⟨hall, e :: p, (path, change) :: new, .cons hedit hplan, by simp, .cons hof hofs⟩

/-- A verified patch has a plan whose edits have different targets, and the action is
what the plan describes. -/
theorem verified_plan {a : ApplyPatchArgs}
    (hver : (tryVerifyApplyPatchArgs ps mode ud a cwd (.healthy fs)).2 = .ok act) :
    ∃ p, PatchPlan ps mode act.cwd a.hunks p ∧
      (p.map target).Nodup ∧ (∀ e ∈ p, (e.value (fs e.target)).isSome) ∧
      ∀ aft, act.Describes fs aft ↔ Plan.Describes fs p aft := by
  unfold tryVerifyApplyPatchArgs at hver
  cases hcwd : effectiveCwd ps cwd a.workdir with
  | error e => simp [hcwd] at hver
  | ok eff =>
    simp only [hcwd] at hver
    rcases hall : verifyHunks ps mode ud eff a.hunks [] (.healthy fs) with ⟨w, r⟩
    rw [hall] at hver
    cases r with
    | error e => simp at hver
    | ok changes =>
      obtain rfl := Except.ok.inj hver
      obtain ⟨hnd, p, new, hplan, hnew, hofs⟩ := verifyHunks_describes hall nodup_nil
      subst hnew
      refine ⟨p, hplan, ?_, fun e he => ?_, fun aft => describes_iff hofs⟩
      · rw [targets_of_changes hofs]
        exact hnd
      · obtain ⟨c, -, hof⟩ := Lists.exists_right_of_forall₂ hofs e he
        exact hof.applies

/-! ### The two together -/

/-- How a patch applied to healthy files ends: in the files its action describes. -/
def AppliesAsDescribed (ps : PathOps K) (mode : UpdateMode) (hunks : List Hunk)
    (act : ApplyPatchAction K) (fs : Store K Text) : Prop :=
  (∃ affected, (applyHunksToFiles ps mode act.cwd hunks (.healthy fs)).2 = .ok affected) ∧
    act.Describes fs (applyHunksToFiles ps mode act.cwd hunks (.healthy fs)).1.world.texts

/-- Applying is as described when, and only when, the run of the plan is. -/
theorem appliesAsDescribed_iff_run (hplan : PatchPlan ps mode act.cwd hunks p)
    (hdesc : ∀ a, act.Describes fs a ↔ Plan.Describes fs p a) (hne : hunks ≠ []) :
    AppliesAsDescribed ps mode hunks act fs ↔
      ∃ a, runAll p fs = some a ∧ Plan.Describes fs p a := by
  have hsim := applyHunks_run hplan (s := ApplyState.start (.healthy fs)) (n := 0) rfl
  have hnil : ¬ hunks.isEmpty = true := fun h => hne (isEmpty_iff.1 h)
  unfold AppliesAsDescribed applyHunksToFiles
  rw [if_neg hnil]
  rcases hloop : Loop.run (applyHunk ps mode act.cwd) hunks
    (ApplyState.start (.healthy fs)) with ⟨s, r⟩
  rw [hloop] at hsim
  cases hrun : runAll p fs with
  | none =>
    rw [hrun] at hsim
    obtain ⟨e, rfl⟩ := hsim
    simp
  | some a =>
    rw [hrun] at hsim
    obtain ⟨rfl, n, hworld⟩ := hsim
    have htx : s.world.texts = a := by rw [hworld, clean_texts]
    simp [htx, hdesc]

/--
**When a verified patch does what it was approved for.**  On files where nothing
fails, a verified patch applies and ends in the files its action describes exactly
when it has hunks and its plan is compatible: no path that a hunk removes is written
by one, hunks that write one path write the same text, and an update whose path a move
has already written leaves that text as it is or has it written again.
-/
theorem verified_applies_iff {a : ApplyPatchArgs} {cwd : K}
    (hver : (tryVerifyApplyPatchArgs ps mode ud a cwd (.healthy fs)).2 = .ok act) :
    AppliesAsDescribed ps mode a.hunks act fs ↔
      a.hunks ≠ [] ∧ ∃ p, PatchPlan ps mode act.cwd a.hunks p ∧ Plan.Compatible fs p := by
  obtain ⟨p, hplan, hnd, happ, hdesc⟩ := verified_plan hver
  have hiff := Plan.runAll_describes_iff hnd happ
  constructor
  · intro happly
    have hne : a.hunks ≠ [] := by
      intro hnil
      obtain ⟨⟨aff, hok⟩, -⟩ := happly
      rw [hnil] at hok
      cases hok
    exact ⟨hne, p, hplan, hiff.1 ((appliesAsDescribed_iff_run hplan hdesc hne).1 happly)⟩
  · rintro ⟨hne, p', hplan', hcom⟩
    -- A patch has only one plan.
    obtain rfl : p = p' := by
      refine left_unique_forall₂' ?_ hplan.flip hplan'.flip
      intro e hunk e' h h'
      exact Except.ok.inj (h.symm.trans h')
    exact (appliesAsDescribed_iff_run hplan hdesc hne).2 (hiff.2 hcom)

/--
**A verified patch does what it was approved for.**  A patch without hunks verifies
and is then refused before anything is touched.  Every other verified patch whose plan
is compatible applies, and ends in exactly the files its action describes.
-/
theorem verified_patch_applies_as_described (paths : PathOps K) (mode : UpdateMode)
    (unifiedDiff : Text → Text → Text) (args : ApplyPatchArgs) (cwd : K) (files : Store K Text)
    (action : ApplyPatchAction K)
    (hverify : (tryVerifyApplyPatchArgs paths mode unifiedDiff args cwd
      (.healthy files)).2 = .ok action) :
    (args.hunks = [] → applyHunksToFiles paths mode action.cwd args.hunks (.healthy files) =
      (.start (.healthy files), .error noFilesModified)) ∧
    (args.hunks ≠ [] → ∀ plan, PatchPlan paths mode action.cwd args.hunks plan →
      Plan.Compatible files plan → AppliesAsDescribed paths mode args.hunks action files) := by
  constructor
  · intro hnil
    rw [hnil]
    rfl
  · intro hne plan hplan hcom
    exact (verified_applies_iff hverify).2 ⟨hne, plan, hplan, hcom⟩

def oneLineDiff : Text → Text → Text := fun _ _ => "@@ -1 +1 @@\n-x\n+y\n".toList

def moveAndAdd : ApplyPatchArgs := ⟨[], [moveTo ['b'], .addFile ['c'] ['z', '\n']], none⟩

def moveAndAddAction : ApplyPatchAction Text :=
  ⟨[(['a'], .update (oneLineDiff [] []) (some ['b']) ['y', '\n']), (['c'], .add ['z', '\n'])],
    .normalizeToLf, [], []⟩

theorem moveAndAdd_applies_as_described :
    AppliesAsDescribed namePaths .normalizeToLf moveAndAdd.hunks moveAndAddAction onlyA := by
  have hver : (tryVerifyApplyPatchArgs namePaths .normalizeToLf oneLineDiff moveAndAdd []
      (.healthy onlyA)).2 = .ok moveAndAddAction := by decide
  have hplan : PatchPlan namePaths .normalizeToLf [] moveAndAdd.hunks
      [.move ['a'] ['b'] (rewrite namePaths .normalizeToLf ['a']
        [⟨none, [['x']], [['y']], [], false⟩]), .set ['c'] fun _ => some ['z', '\n']] :=
    .cons rfl (.cons rfl .nil)
  refine (verified_patch_applies_as_described _ _ _ _ _ _ _ hver).2 (by decide) _ hplan
    ⟨⟨?_, ?_⟩, ?_⟩
  · simp [removes, writes]
  · simp [writes]
  · intro pre k f p hsp e he hw
    rcases pre with _ | ⟨e1, _ | ⟨e2, pre⟩⟩
    · cases he
    · -- The only edit before the addition writes `b`, not `c`.
      simp only [cons_append, nil_append, List.cons.injEq] at hsp
      obtain ⟨rfl, hset, -⟩ := hsp
      obtain rfl := mem_singleton.1 he
      cases hset
      cases hw
    · simp at hsp

/-- The empty patch verifies, and applying it is an error. -/
theorem empty_patch_verified_not_applied :
    (tryVerifyApplyPatchArgs namePaths .normalizeToLf oneLineDiff ⟨[], [], none⟩ []
        (.healthy onlyA)).2 = .ok ⟨[], .normalizeToLf, [], []⟩ ∧
      (applyHunksToFiles namePaths .normalizeToLf [] [] (.healthy onlyA)).2 =
        .error noFilesModified := by
  decide

end SushiGpt.ApplyPatch
