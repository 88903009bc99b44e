/-
What each file-system operation can do to the text files of a world.

One lemma per operation, stated about the pair it returns.  Everything the rest of
the development knows about the file system it knows through these: reads and
metadata leave the files alone, a successful write sets one path, a failed one
touches at most that path, and a failed remove either did nothing or removed.
-/
import SushiGpt.ApplyPatch.Apply

namespace SushiGpt.ApplyPatch

open Function World Node

variable {K : Type} {w w' : World K} {p : K} {cs : Text} {r : Except IoError Unit}
  {ps : PathOps K}

namespace World

theorem texts_congr (h : w'.files = w.files) : w'.texts = w.texts := by
  unfold texts
  rw [h]

@[simp]
theorem tick_texts (w : World K) : w.tick.texts = w.texts := rfl

/-- A read leaves the files alone, and what it answers is true of them. -/
theorem readFileText_spec {r : Except IoError Text} (h : w.readFileText p = (w', r)) :
    w'.files = w.files ∧ (∀ t, r = .ok t → w.texts p = some t) ∧
      (∀ e, r = .error e → e.kind = .notFound → w.texts p = none) := by
  unfold readFileText at h
  split at h
  · rename_i f _
    obtain ⟨rfl, rfl⟩ := Prod.mk.inj h
    refine ⟨rfl, nofun, fun e he hk => ?_⟩
    obtain rfl := Except.error.inj he
    exact absurd hk f.not_notFound
  · split at h <;> obtain ⟨rfl, rfl⟩ := Prod.mk.inj h <;> rename_i hfile
    · refine ⟨rfl, fun t ht => ?_, nofun⟩
      obtain rfl := Except.ok.inj ht
      simp [texts, hfile, asText]
    · refine ⟨rfl, nofun, fun e _ _ => by simp [texts, hfile, asText]⟩
    · refine ⟨rfl, nofun, fun e _ _ => by simp [texts, hfile, asText]⟩
    · exact ⟨rfl, nofun, fun e _ _ => by simp [texts, hfile]⟩

theorem getMetadata_files (w : World K) (p : K) : (w.getMetadata p).1.files = w.files := by
  unfold getMetadata
  split
  · rfl
  · split <;> rfl

variable [DecidableEq K]

theorem set_texts (w : World K) (p : K) (n : Option Node) :
    (w.set p n).texts = update w.texts p (n.bind asText) := by
  funext k
  by_cases h : k = p
  · subst h
    simp [texts, set]
  · simp [texts, set, h]

/-- A write that succeeds sets its path; one that fails touches nothing else. -/
theorem writeFile_spec (h : w.writeFile p cs = (w', r)) :
    (∀ u, r = .ok u → w'.texts = update w.texts p (some cs)) ∧
      (∀ k, k ≠ p → w'.texts k = w.texts k) := by
  unfold writeFile at h
  split at h
  · split at h <;> obtain ⟨rfl, rfl⟩ := Prod.mk.inj h
    · refine ⟨nofun, fun k hk => ?_⟩
      rw [set_texts, update_of_ne hk, tick_texts]
    · exact ⟨nofun, fun k _ => rfl⟩
  · split at h <;> obtain ⟨rfl, rfl⟩ := Prod.mk.inj h
    · exact ⟨nofun, fun k _ => rfl⟩
    · have hset := set_texts w.tick p (some (.text cs))
      refine ⟨fun _ _ => hset, fun k hk => ?_⟩
      rw [hset, update_of_ne hk, tick_texts]

/-- A remove that succeeds clears its path; one that fails did that or nothing. -/
theorem remove_spec (h : w.remove p = (w', r)) :
    (∀ u, r = .ok u → w'.texts = update w.texts p none) ∧
      (w'.texts = w.texts ∨ w'.texts p = none) := by
  have hset := set_texts w.tick p none
  have hgone : (w.tick.set p none).texts p = none := by simp [hset]
  unfold remove at h
  split at h
  · obtain ⟨rfl, rfl⟩ := Prod.mk.inj h
    refine ⟨nofun, ?_⟩
    split
    · exact .inr hgone
    · exact .inl rfl
  · split at h <;> obtain ⟨rfl, rfl⟩ := Prod.mk.inj h
    · exact ⟨nofun, .inl rfl⟩
    · exact ⟨nofun, .inl rfl⟩
    · exact ⟨fun _ _ => hset, .inr hgone⟩

theorem createDirectory_texts (w : World K) (dirs : List K) :
    (w.createDirectory dirs).1.texts = w.texts := by
  unfold createDirectory
  split
  · rfl
  · split
    · rfl
    · rename_i hn
      funext k
      by_cases hk : k ∈ dirs
      · have hfile : w.files k = none ∨ w.files k = some .directory := by
          by_contra hcon
          rw [not_or] at hcon
          exact hn (List.any_eq_true.2 ⟨k, hk, decide_eq_true hcon⟩)
        rcases hfile with hfile | hfile <;> simp [texts, hk, hfile, asText]
      · simp [texts, hk]

end World

/-! ### The helpers of the patch code -/

theorem noteExistingPathDeltaSupport_spec {exact exact' : Bool}
    (h : noteExistingPathDeltaSupport w p exact = (w', exact')) :
    w'.texts = w.texts ∧ (exact' = true → exact = true) := by
  have hfil := w.getMetadata_files p
  unfold noteExistingPathDeltaSupport at h
  split at h <;> rename_i hmeta <;> rw [hmeta] at hfil <;> obtain ⟨rfl, rfl⟩ := Prod.mk.inj h
  · refine ⟨texts_congr hfil, fun hex => ?_⟩
    split at hex
    · exact hex
    · cases hex
  · refine ⟨texts_congr hfil, fun hex => ?_⟩
    split at hex
    · exact hex
    · cases hex

/-- As long as the flag survives, the optional read tells exactly what is there. -/
theorem readOptionalFileTextForDelta_spec {exact exact' : Bool} {c : Option Text}
    (h : readOptionalFileTextForDelta w p exact = (w', exact', c)) :
    w'.texts = w.texts ∧ (exact' = true → exact = true ∧ c = w.texts p) := by
  unfold readOptionalFileTextForDelta at h
  rcases hnote : noteExistingPathDeltaSupport w p exact with ⟨w1, exact1⟩
  obtain ⟨htx1, hex1⟩ := noteExistingPathDeltaSupport_spec hnote
  simp only [hnote] at h
  rcases hrd : w1.readFileText p with ⟨w2, r⟩
  obtain ⟨hfil2, hok, hmiss⟩ := readFileText_spec hrd
  have htx : w2.texts = w.texts := (texts_congr hfil2).trans htx1
  rw [htx1] at hok hmiss
  cases r with
  | ok t =>
    simp only [hrd, Prod.mk.injEq] at h
    obtain ⟨rfl, rfl, rfl⟩ := h
    exact ⟨htx, fun hex => ⟨hex1 hex, (hok t rfl).symm⟩⟩
  | error e =>
    simp only [hrd, Prod.mk.injEq] at h
    obtain ⟨rfl, rfl, rfl⟩ := h
    refine ⟨htx, fun hex => ?_⟩
    split at hex
    · rename_i hk
      exact ⟨hex1 hex, (hmiss e rfl hk).symm⟩
    · cases hex

theorem ensureNotDirectory_texts (h : ensureNotDirectory w p = (w', r)) : w'.texts = w.texts := by
  have hfil := w.getMetadata_files p
  unfold ensureNotDirectory at h
  split at h <;> rename_i hmeta <;> rw [hmeta] at hfil <;> obtain ⟨rfl, rfl⟩ := Prod.mk.inj h <;>
    exact texts_congr hfil

/-- The check after a failed remove only passes when the file still holds its text. -/
theorem removeFailureWasSideEffectFree_spec {exp : Option Text} {f : Bool}
    (h : removeFailureWasSideEffectFree w p exp = (w', f)) :
    w'.texts = w.texts ∧ (f = true → exp ≠ none ∧ w.texts p = exp) := by
  unfold removeFailureWasSideEffectFree at h
  cases exp with
  | none =>
    obtain ⟨rfl, rfl⟩ := Prod.mk.inj h
    exact ⟨rfl, nofun⟩
  | some t =>
    rcases hrd : w.readFileText p with ⟨w1, r⟩
    obtain ⟨hfil, hok, -⟩ := readFileText_spec hrd
    cases r with
    | error e =>
      simp only [hrd, Prod.mk.injEq] at h
      obtain ⟨rfl, rfl⟩ := h
      exact ⟨texts_congr hfil, nofun⟩
    | ok c =>
      simp only [hrd, Prod.mk.injEq] at h
      obtain ⟨rfl, rfl⟩ := h
      refine ⟨texts_congr hfil, fun hfree => ⟨by simp, ?_⟩⟩
      rw [hok c rfl, of_decide_eq_true hfree]

theorem deriveNewContentsFromChunks_spec {m : UpdateMode} {chs : List UpdateFileChunk}
    {r : Except ApplyPatchError (Text × Text)}
    (h : deriveNewContentsFromChunks ps m w p chs = (w', r)) :
    w'.texts = w.texts ∧ (∀ o new, r = .ok (o, new) →
      w.texts p = some o ∧ newContents m (ps.inferredNativePathString p) chs o = .ok new) := by
  unfold deriveNewContentsFromChunks at h
  rcases hrd : w.readFileText p with ⟨w1, r1⟩
  obtain ⟨hfil, hok, -⟩ := readFileText_spec hrd
  have htx := texts_congr hfil
  cases r1 with
  | error e =>
    simp only [hrd, Prod.mk.injEq] at h
    obtain ⟨rfl, rfl⟩ := h
    exact ⟨htx, nofun⟩
  | ok t =>
    simp only [hrd] at h
    split at h <;> obtain ⟨rfl, rfl⟩ := Prod.mk.inj h
    · exact ⟨htx, nofun⟩
    · rename_i hnew
      refine ⟨htx, fun o new hr => ?_⟩
      obtain ⟨rfl, rfl⟩ := Prod.mk.inj (Except.ok.inj hr)
      exact ⟨hok _ rfl, hnew⟩

variable [DecidableEq K]

theorem retryWrite_spec {u : Unit} (h : retryWrite ps w p cs = (w', .ok u)) :
    w'.texts = update w.texts p (some cs) := by
  unfold retryWrite at h
  rcases hw : w.writeFile p cs with ⟨w1, r⟩
  cases r with
  | error e => simp [hw] at h
  | ok v =>
    simp only [hw, Prod.mk.injEq, and_true] at h
    subst h
    exact (writeFile_spec hw).1 v rfl

/-- Whether or not the parents had to be made first, a write that succeeds sets its
path and nothing else: what the first attempt left behind is overwritten. -/
theorem writeFileWithMissingParentRetry_spec {u : Unit}
    (h : writeFileWithMissingParentRetry ps w p cs = (w', .ok u)) :
    w'.texts = update w.texts p (some cs) := by
  unfold writeFileWithMissingParentRetry at h
  rcases hw : w.writeFile p cs with ⟨w1, r⟩
  obtain ⟨hok, hoff⟩ := writeFile_spec hw
  have hover : ∀ v : World K, v.texts = w1.texts →
      update v.texts p (some cs) = update w.texts p (some cs) := by
    intro v hv
    funext k
    by_cases hk : k = p
    · subst hk; simp
    · rw [update_of_ne hk, update_of_ne hk, hv, hoff k hk]
  cases r with
  | ok v =>
    simp only [hw, Prod.mk.injEq, and_true] at h
    subst h
    exact hok v rfl
  | error e =>
    simp only [hw] at h
    split at h
    · split at h
      · rw [retryWrite_spec h, hover w1 rfl]
      · rename_i parent _
        have hdirs := w1.createDirectory_texts (ps.ancestors parent)
        split at h <;> rename_i hcreate <;> rw [hcreate] at hdirs
        · cases h
        · rw [retryWrite_spec h, hover _ hdirs]
    · cases h

/-! ### A directory with one file

The smallest world a patch can do something to: paths are names in one directory, and
`a` holds one line. -/

/-- Names in a single directory: joining a name onto the directory is the name. -/
def namePaths : PathOps Text := ⟨fun _ name => .ok name, fun _ => none, fun p => [p], id⟩

def onlyA : Text → Option Text := fun name => if name = ['a'] then some ['x', '\n'] else none

/-- Rewrites the line of `a` and moves it. -/
def moveTo (dest : Text) : Hunk :=
  .updateFile ['a'] (some dest) [⟨none, [['x']], [['y']], [], false⟩]

end SushiGpt.ApplyPatch
