/-
When the order of a policy's entries matters.

The source promises that a policy means the same in whatever order its entries stand.
For access this is so: the most specific entry decides, and nothing else about the list
matters (`resolveAccess_perm`).  For writing it is not, because the metadata rule stops
at the first write root that protects the path and only then asks whether a write root
opens the protected directory.  Two roots can protect one path, when one of them lies in
a metadata directory of the other; then the outer directory is open and the inner one
may be closed, and whichever entry comes first is the one that is asked.

`order_irrelevant_iff` says that this is the only way: unless there is such a pair of
entries (`OrderMatters`), access, writing and the projection onto local roots are the
same in every order.
-/
import SushiGpt.Permissions.Roots
import SushiGpt.Proofs.Paths.Host
import SushiGpt.Proofs.Permissions.Metadata

namespace SushiGpt.Permissions

open MostSpecific SushiGpt.Lists FileSystemSandboxPolicy List

variable {outer i : FileSystemSandboxEntry} {p : List Text}

/-! ### Entries and their write roots -/

def resolvedEntry (u : UrlOps) (ctx : FileSystemSandboxPolicyContext)
    (entry : FileSystemSandboxEntry) : List (PathUri × FileSystemAccessMode) :=
  ((entryPaths u ctx entry.path).filter fun path =>
    path.inferPathConvention == ctx.cwd.inferPathConvention).map fun path =>
      (path, entry.access)

/-- The write roots of one entry, in order.  Only an entry for the workspace roots can
have several. -/
def entryWriteRoots (u : UrlOps) (ctx : FileSystemSandboxPolicyContext)
    (entry : FileSystemSandboxEntry) : List (List Text) :=
  writeRoots (placesOf (resolvedEntry u ctx entry))

/-- The protected directory at which the entry's first root that protects the place does
so. -/
def entryProtectedDir (u : UrlOps) (ctx : FileSystemSandboxPolicyContext)
    (place : List Text) (entry : FileSystemSandboxEntry) : Option (List Text) :=
  (entryWriteRoots u ctx entry).findSome? (protectedDir · place)

/-- **A write root inside a metadata directory of another.**  The root `root` of `inner`
closes its directory `name`, while `outer` would answer for that directory with one that
contains `root`. -/
structure OrderMatters (u : UrlOps) (ctx : FileSystemSandboxPolicyContext)
    (pol : FileSystemSandboxPolicy) (grants : List Grant)
    (outer inner : FileSystemSandboxEntry) (root : List Text) (name : Text) : Prop where
  outerMem : outer ∈ pol.entries
  innerMem : inner ∈ pol.entries
  nameMem : name ∈ protectedMetadataPathNames
  innerProtects : entryProtectedDir u ctx (root ++ [name]) inner = some (root ++ [name])
  outerProtects : ∃ dir, entryProtectedDir u ctx (root ++ [name]) outer = some dir ∧
    dir ≠ root ++ [name]
  nothingThere : ∀ g ∈ grants, g.1 ≠ root ++ [name]
  notDenied : ∀ g ∈ grants, g.1 = root → g.2 ≠ .deny

/-- The entries of a policy in another order. -/
structure Reordered (pol other : FileSystemSandboxPolicy) : Prop where
  kind : other.kind = pol.kind
  entries : other.entries.Perm pol.entries

variable {u : UrlOps} {pol o : FileSystemSandboxPolicy}

section Permuted

variable {ctx : FileSystemSandboxPolicyContext} {grants : List Grant}

section Grants

variable (hgrants : pol.grants u ctx = some grants)
include hgrants

theorem writeRoots_eq_flatMap :
    writeRoots grants = pol.entries.flatMap (entryWriteRoots u ctx) := by
  obtain ⟨-, rfl⟩ := placed_eq_some_iff.1 hgrants
  rw [writeRoots, placesOf, resolvedEntries, filterMap_flatMap, filter_flatMap, map_flatMap]
  rfl

/-- The metadata rule asks the entries one after the other. -/
theorem metadataDenied_iff_verdict (p : List Text) :
    MetadataDenied (writeRoots grants) p ↔
      Verdict (entryProtectedDir u ctx p)
        (fun dir => ¬ Opened (writeRoots grants) dir p) pol.entries := by
  unfold MetadataDenied Verdict entryProtectedDir
  rw [← findSome?_flatMap, ← writeRoots_eq_flatMap hgrants]

theorem mem_of_entryProtectedDir {e : FileSystemSandboxEntry} (hmem : e ∈ pol.entries)
    {dir : List Text} (h : entryProtectedDir u ctx p e = some dir) :
    ∃ r ∈ writeRoots grants, ∃ n ∈ protectedMetadataPathNames, dir = r ++ [n] ∧ dir <+: p := by
  obtain ⟨r, hr, hdir⟩ := List.exists_of_findSome?_eq_some h
  obtain ⟨n, hnm, hsp, hle⟩ := protectedDir_eq_some.1 hdir
  refine ⟨r, ?_, n, hnm, hsp, hle⟩
  rw [writeRoots_eq_flatMap hgrants, mem_flatMap]
  exact ⟨e, hmem, hr⟩

/-- Two hits that disagree about a place that could be written are a root inside a
metadata directory of another. -/
theorem orderMatters_of_disagree (hw : accessAt (some grants) p = .write)
    (hout : outer ∈ pol.entries) (hinn : i ∈ pol.entries) {opened c : List Text}
    (hopenedDir : entryProtectedDir u ctx p outer = some opened)
    (hclosedDir : entryProtectedDir u ctx p i = some c)
    (hop : Opened (writeRoots grants) opened p) (hcl : ¬ Opened (writeRoots grants) c p) :
    ∃ r n, OrderMatters u ctx pol grants outer i r n := by
  obtain ⟨r, hr, n, hnm, rfl, hle⟩ := mem_of_entryProtectedDir hgrants hinn hclosedDir
  have hdec := decides_of_closed hw hr hle hcl
  -- Every write root on the way to the place lies above the one that decides.
  obtain ⟨opener, hopener, hdir, hopenerLe⟩ := hop
  have habove : opened <+: r ++ [n] :=
    (hdir.trans (hdec.covers_le (mem_writeRoots_iff.1 hopener) hopenerLe)).trans
      (prefix_append r [n])
  obtain ⟨hnot, hdn⟩ := unconfigured_of_decides hdec hle
  refine ⟨r, n, hout, hinn, hnm, findSome?_protectedDir_above hle prefix_rfl
    hclosedDir, ⟨opened, findSome?_protectedDir_above hle habove hopenedDir, ?_⟩, hnot, hdn⟩
  rintro rfl
  exact hcl ⟨opener, hopener, hdir, hopenerLe⟩

end Grants

/-! ### What does not depend on order -/

theorem Reordered.symm (h : Reordered pol o) : Reordered o pol :=
  ⟨h.kind.symm, h.entries.symm⟩

section Reordered

variable (hperm : Reordered pol o)
include hperm

theorem grants_perm (hgrants : pol.grants u ctx = some grants) :
    ∃ grants', o.grants u ctx = some grants' ∧ ∀ g, g ∈ grants' ↔ g ∈ grants := by
  obtain ⟨hok, rfl⟩ := placed_eq_some_iff.1 hgrants
  have hres : (o.resolvedEntries u ctx).Perm (pol.resolvedEntries u ctx) :=
    hperm.entries.flatMap_right _
  refine ⟨_, placed_eq_some_iff.2 ⟨fun e he => hok e (hres.mem_iff.1 he), rfl⟩, fun g => ?_⟩
  exact (hres.filterMap _).mem_iff

theorem grants_perm_none (hgrants : pol.grants u ctx = none) : o.grants u ctx = none := by
  cases h : o.grants u ctx with
  | none => rfl
  | some grants =>
    obtain ⟨grants', hgr', -⟩ := grants_perm hperm.symm h
    exact absurd (hgrants.symm.trans hgr') (by simp)

theorem hasRootAccess_perm (pre : FileSystemAccessMode → Bool) :
    o.hasRootAccess pre = pol.hasRootAccess pre := by
  unfold hasRootAccess
  rw [hperm.kind, hperm.entries.any_eq]

theorem hasFullDiskWriteAccess_perm (con : Option PathConvention) :
    o.hasFullDiskWriteAccessForConvention con = pol.hasFullDiskWriteAccessForConvention con := by
  have hnar : ∀ c, o.hasWriteNarrowingEntries c = pol.hasWriteNarrowingEntries c := by
    intro c
    have hone : o.narrowsWrite c = pol.narrowsWrite c := by
      funext e
      unfold narrowsWrite hasSameTargetWriteOverride
      rw [hperm.entries.any_eq]
    unfold hasWriteNarrowingEntries
    rw [hone, hperm.kind, hperm.entries.any_eq]
  unfold hasFullDiskWriteAccessForConvention
  simp only [hasRootAccess_perm hperm, hnar, hperm.kind]

theorem hasFullDiskReadAccess_perm (c : Option PathConvention) :
    o.hasFullDiskReadAccessForConvention c = pol.hasFullDiskReadAccessForConvention c := by
  unfold hasFullDiskReadAccessForConvention hasDeniedReadRestrictionsForConvention
  rw [hasRootAccess_perm hperm, hperm.kind, hperm.entries.any_eq]

end Reordered

section Congr

variable {o : List Grant} (h : ∀ g, g ∈ o ↔ g ∈ grants)
include h

theorem accessAt_congr (p : List Text) : accessAt (some o) p = accessAt (some grants) p := by
  rw [accessAt, accessAt, Option.bind_some, Option.bind_some, lookup_congr p h]

theorem opened_congr (dir p : List Text) :
    Opened (writeRoots o) dir p ↔ Opened (writeRoots grants) dir p := by
  simp only [Opened, mem_writeRoots_iff, h]

end Congr

/-- **Access does not depend on the order of the entries.** -/
theorem resolveAccess_perm (hki : pol.kind = .restricted)
    (hcv : ctx.cwd.inferPathConvention = some .posix) (hperm : Reordered pol o)
    (path : PathUri) : o.resolveAccess u path ctx = pol.resolveAccess u path ctx := by
  have hk' := hperm.kind.trans hki
  by_cases hn : path.place = none ∨ ctx.cwd.place = none
  · rw [resolveAccess_of_place_eq_none hk' hcv hn, resolveAccess_of_place_eq_none hki hcv hn]
  · rw [not_or] at hn
    obtain ⟨k, hk⟩ := Option.ne_none_iff_exists'.1 hn.1
    have hcwd := Option.isSome_iff_ne_none.2 hn.2
    rw [resolveAccess_eq hk' hcwd hk, resolveAccess_eq hki hcwd hk]
    cases hgrants : pol.grants u ctx with
    | none => rw [grants_perm_none hperm hgrants]
    | some grants =>
      obtain ⟨grants', hgr', hmem⟩ := grants_perm hperm hgrants
      rw [hgr', accessAt_congr hmem]

/-! ### What does -/

/-- Such a pair of entries disagrees about the inner metadata directory. -/
theorem OrderMatters.disagree {r : List Text} {n : Text}
    (h : OrderMatters u ctx pol grants outer i r n) (hgrants : pol.grants u ctx = some grants) :
    accessAt (some grants) (r ++ [n]) = .write ∧ r ∈ writeRoots grants ∧
      ¬ Opened (writeRoots grants) (r ++ [n]) (r ++ [n]) ∧
      ∃ dir, entryProtectedDir u ctx (r ++ [n]) outer = some dir ∧
        Opened (writeRoots grants) dir (r ++ [n]) := by
  have hr : r ∈ writeRoots grants := by
    obtain ⟨r', hr', n', -, hsp, -⟩ := mem_of_entryProtectedDir hgrants h.innerMem h.innerProtects
    rw [(append_inj' hsp rfl).1]
    exact hr'
  have hdec := decides_of_unconfigured hr h.nothingThere h.notDenied
  refine ⟨accessAt_of_decides hdec, hr, not_opened_of_unconfigured h.nothingThere, ?_⟩
  obtain ⟨dir, hdir, hne⟩ := h.outerProtects
  obtain ⟨-, -, -, -, -, hle⟩ := mem_of_entryProtectedDir hgrants h.outerMem hdir
  refine ⟨dir, hdir, r, hr, ?_, prefix_append _ _⟩
  rcases prefix_concat_iff.1 hle with heq | hle
  · exact absurd heq hne
  · exact hle

/-- No entry has a write root inside a metadata directory of another. -/
def OrderIrrelevant (u : UrlOps) (ctx : FileSystemSandboxPolicyContext)
    (pol : FileSystemSandboxPolicy) : Prop :=
  ¬ (pol.hasFullDiskWriteAccessWithContext ctx = false ∧ ctx.cwd.place.isSome ∧
    ∃ grants, pol.grants u ctx = some grants ∧ ∃ outer inner root name,
      OrderMatters u ctx pol grants outer inner root name)

theorem metadataDenied_perm {grants' : List Grant} (hperm : Reordered pol o)
    (hgrants : pol.grants u ctx = some grants) (hgr' : o.grants u ctx = some grants')
    (hmem : ∀ g, g ∈ grants' ↔ g ∈ grants) (hw : accessAt (some grants) p = .write)
    (hnot : ∀ outer i r n, ¬ OrderMatters u ctx pol grants outer i r n) :
    MetadataDenied (writeRoots grants') p ↔ MetadataDenied (writeRoots grants) p := by
  rw [metadataDenied_iff_verdict hgr', metadataDenied_iff_verdict hgrants]
  simp only [opened_congr hmem]
  refine verdict_perm_iff.2 (fun a ha b hb x y hx hy => ?_) _ hperm.entries
  constructor
  · intro hcl hop
    obtain ⟨r, n, h⟩ := orderMatters_of_disagree hgrants hw hb ha hy hx hop hcl
    exact hnot _ _ r n h
  · intro hcl hop
    obtain ⟨r, n, h⟩ := orderMatters_of_disagree hgrants hw ha hb hx hy hop hcl
    exact hnot _ _ r n h

theorem writable_perm {grants' : List Grant} (hperm : Reordered pol o)
    (hgrants : pol.grants u ctx = some grants)
    (hgr' : o.grants u ctx = some grants') (hmem : ∀ g, g ∈ grants' ↔ g ∈ grants)
    (hcwd : ctx.cwd.place.isSome) (h : OrderIrrelevant u ctx pol) (p : List Text) :
    Writable o ctx grants' p ↔ Writable pol ctx grants p := by
  have hfull : o.hasFullDiskWriteAccessWithContext ctx =
      pol.hasFullDiskWriteAccessWithContext ctx := hasFullDiskWriteAccess_perm hperm _
  rw [writable_iff, writable_iff, accessAt_congr hmem, hfull]
  refine and_congr_right fun hw => ?_
  by_cases hdisk : pol.hasFullDiskWriteAccessWithContext ctx = true
  · exact iff_of_true (.inl hdisk) (.inl hdisk)
  · rw [metadataDenied_perm hperm hgrants hgr' hmem hw]
    intro outer i r n hmat
    rw [Bool.not_eq_true] at hdisk
    exact h ⟨hdisk, hcwd, grants, hgrants, outer, i, r, n, hmat⟩

/-- Where no pair of entries disagrees, writing does not depend on the order either. -/
theorem canWritePath_perm (hu : u.AppendsPlain) (hk : pol.kind = .restricted)
    (hcv : ctx.cwd.inferPathConvention = some .posix) (hperm : Reordered pol o)
    (h : OrderIrrelevant u ctx pol) (path : PathUri) :
    o.canWritePath u path ctx = pol.canWritePath u path ctx := by
  have hk' := hperm.kind.trans hk
  -- Without a place, or when the entries cannot be read, both refuse.
  by_cases hn : path.place = none ∨ ctx.cwd.place = none ∨ pol.grants u ctx = none
  · rw [canWritePath_eq_false hk hcv hn]
    exact canWritePath_eq_false hk' hcv (hn.imp_right (.imp_right (grants_perm_none hperm)))
  · rw [not_or, not_or] at hn
    obtain ⟨k, hp⟩ := Option.ne_none_iff_exists'.1 hn.1
    have hcwd := Option.isSome_iff_ne_none.2 hn.2.1
    obtain ⟨grants, hgrants⟩ := Option.ne_none_iff_exists'.1 hn.2.2
    obtain ⟨grants', hgr', hmem⟩ := grants_perm hperm hgrants
    rw [Bool.eq_iff_iff, canWritePath_iff hu hk' hcwd hp hgr',
      canWritePath_iff hu hk hcwd hp hgrants]
    exact writable_perm hperm hgrants hgr' hmem hcwd h k

/-- A pair of entries that disagrees shows in some order. -/
theorem exists_perm_of_orderMatters (hu : u.AppendsPlain) (hk : pol.kind = .restricted)
    (hgrants : pol.grants u ctx = some grants) (hcwd : ctx.cwd.place.isSome)
    (hfull : pol.hasFullDiskWriteAccessWithContext ctx = false) {root : List Text}
    {name : Text} (h : OrderMatters u ctx pol grants outer i root name) :
    ∃ entries, entries.Perm pol.entries ∧ ∃ path,
      ({ pol with entries := entries }).canWritePath u path ctx ≠ pol.canWritePath u path ctx := by
  obtain ⟨hw, hr, hcl, dir, hdir, hop⟩ := h.disagree hgrants
  -- A URI of the directory the two entries disagree about.
  obtain ⟨rootUri, -, -, hrootUri⟩ := (mem_writeRoots hgrants root).1 hr
  obtain ⟨path, -, hp⟩ := PathUri.joinDescendant_place hu
    (protectedMetadataPathNames_plain name h.nameMem) hrootUri
  by_contra hsame
  have hver : ∀ entries, entries.Perm pol.entries →
      (Verdict (entryProtectedDir u ctx (root ++ [name]))
          (fun dir => ¬ Opened (writeRoots grants) dir (root ++ [name])) entries ↔
        Verdict (entryProtectedDir u ctx (root ++ [name]))
          (fun dir => ¬ Opened (writeRoots grants) dir (root ++ [name])) pol.entries) := by
    intro entries hents
    have hperm : Reordered pol { pol with entries } := ⟨rfl, hents⟩
    obtain ⟨grants', hgr', hmem⟩ := grants_perm hperm hgrants
    have heq : ({ pol with entries := entries }).canWritePath u path ctx =
        pol.canWritePath u path ctx := by
      by_contra hne
      exact hsame ⟨entries, hents, path, hne⟩
    have hfull' : ({ pol with entries := entries }).hasFullDiskWriteAccessWithContext ctx = false :=
      (hasFullDiskWriteAccess_perm hperm _).trans hfull
    rw [Bool.eq_iff_iff, canWritePath_iff hu (hperm.kind.trans hk) hcwd hp hgr',
      canWritePath_iff hu hk hcwd hp hgrants, writable_iff, writable_iff,
      accessAt_congr hmem] at heq
    have hmeta : MetadataDenied (writeRoots grants') (root ++ [name]) ↔
        MetadataDenied (writeRoots grants) (root ++ [name]) := by
      simpa [hw, hfull, hfull', not_iff_not] using heq
    rw [metadataDenied_iff_verdict hgr', metadataDenied_iff_verdict hgrants] at hmeta
    simpa only [opened_congr hmem] using hmeta
  have hagr := verdict_perm_iff.1 hver outer h.outerMem i h.innerMem _ _ hdir h.innerProtects
  exact hagr.2 hcl hop

end Permuted

/-! ### The projection onto local roots -/

section Signature

variable {host : Host} {cwd : AbsolutePath}

theorem sortedAbsolutePaths_dedup_congr {ps o : List AbsolutePath} (h : ∀ a, a ∈ ps ↔ a ∈ o) :
    sortedAbsolutePaths (dedupAbsolutePaths ps) = sortedAbsolutePaths (dedupAbsolutePaths o) :=
  insertionSort_congr (eraseDups_perm_of_mem_iff h) fun _ _ _ _ => le_antisymm

/-- On the local host the entries decide the same in the two orders. -/
structure DecidesSame (u : UrlOps) (host : Host) (pol other : FileSystemSandboxPolicy)
    (cwd : AbsolutePath) : Prop extends Reordered pol other where
  read : ∀ path, other.canReadLocalPathWithCwd u host path cwd =
    pol.canReadLocalPathWithCwd u host path cwd
  write : ∀ path, other.canWriteLocalPathWithCwd u host path cwd =
    pol.canWriteLocalPathWithCwd u host path cwd

namespace DecidesSame

/-- The spelling of a root that a path lies below is unique. -/
theorem carveoutPath_perm (hln : host.FollowsLinks) {r : AbsolutePath} {rr rr' : List AbsolutePath}
    (hperm : rr'.Perm rr) (hraw : ∀ raw ∈ rr, host.normalizeEffectiveAbsolutePath raw = r)
    (pre : PreparedFileSystemEntry) : carveoutPath host r rr' pre = carveoutPath host r rr pre := by
  unfold carveoutPath
  by_cases hr : r = []
  · simp [hr]
  · rw [findSome?_perm_of_agree hperm]
    intro a ha b hb x y hx hy
    rw [Option.ite_none_right_eq_some] at hx hy
    obtain ⟨⟨haPrefix, -⟩, hx⟩ := hx
    obtain ⟨⟨hbPrefix, -⟩, hy⟩ := hy
    have hsame : a = b := by
      rcases prefix_or_prefix_of_prefix haPrefix hbPrefix with hab | hba
      · refine Host.normalizeEffective_chain hln hab ((hraw a ha).trans (hraw b hb).symm) ?_
        rw [hraw a ha]
        exact hr
      · refine (Host.normalizeEffective_chain hln hba ((hraw b hb).trans (hraw a ha).symm) ?_).symm
        rw [hraw b hb]
        exact hr
    rw [hsame] at hx
    exact Option.some.inj (hx.symm.trans hy)

variable (h : DecidesSame u host pol o cwd)
include h

theorem resolvedEntriesWithCwd_perm :
    (o.resolvedEntriesWithCwd host cwd).Perm (pol.resolvedEntriesWithCwd host cwd) :=
  h.entries.filterMap _

theorem readableRoots_eq :
    sortedAbsolutePaths (o.getReadableRootsWithCwd u host cwd) =
      sortedAbsolutePaths (pol.getReadableRootsWithCwd u host cwd) := by
  unfold getReadableRootsWithCwd
  have hdisk : o.hasFullDiskReadAccess =
      pol.hasFullDiskReadAccess := hasFullDiskReadAccess_perm h.toReordered _
  rw [hdisk]
  by_cases hfull : pol.hasFullDiskReadAccess = true
  · rw [if_pos hfull, if_pos hfull]
  · rw [if_neg hfull, if_neg hfull]
    simp only [h.read]
    exact sortedAbsolutePaths_dedup_congr fun a =>
      (((h.resolvedEntriesWithCwd_perm.filter _).filter _).map _).mem_iff

theorem unreadableRoots_eq :
    sortedAbsolutePaths (o.getUnreadableRootsWithCwd u host cwd) =
      sortedAbsolutePaths (pol.getUnreadableRootsWithCwd u host cwd) := by
  unfold getUnreadableRootsWithCwd
  rw [h.kind]
  by_cases hk : pol.kind = .restricted
  · rw [if_neg (not_not.2 hk), if_neg (not_not.2 hk)]
    simp only [h.read]
    exact sortedAbsolutePaths_dedup_congr fun a =>
      ((((h.resolvedEntriesWithCwd_perm.filter _).filter _).filter _).map _).mem_iff
  · rw [if_pos hk, if_pos hk]

theorem unreadableGlobs_eq :
    o.getUnreadableGlobsWithCwd host cwd = pol.getUnreadableGlobsWithCwd host cwd := by
  unfold getUnreadableGlobsWithCwd
  rw [h.kind]
  by_cases hk : pol.kind = .restricted
  · dsimp only
    rw [insertionSort_congr ((h.entries.filter _).filterMap _) fun _ _ _ _ => le_antisymm]
  · rw [if_pos hk, if_pos hk]

theorem preparedEntries_perm (r : WritableRootPathResolution) :
    (o.preparedEntries u host r cwd).Perm (pol.preparedEntries u host r cwd) := by
  unfold preparedEntries effectiveEntries
  simp only [h.write]
  exact (h.resolvedEntriesWithCwd_perm.filter _).map _

theorem sortedWritableRoot_eq (hln : host.FollowsLinks) (r : AbsolutePath) :
    sortedWritableRoot (o.writableRootAt u host .effective cwd r) =
      sortedWritableRoot (pol.writableRootAt u host .effective cwd r) := by
  have hprep := h.preparedEntries_perm .effective
  unfold writableRootAt sortedWritableRoot
  simp only [WritableRoot.mk.injEq, true_and]
  constructor
  · refine sortedAbsolutePaths_dedup_congr fun a => ?_
    rw [mem_append, mem_append]
    refine or_congr ?_ ?_
    · unfold hasExplicitResolvedPathEntry
      simp only [h.resolvedEntriesWithCwd_perm.any_eq]
    · simp only [mem_filterMap]
      refine exists_congr fun pre => ?_
      rw [(hprep.filter _).mem_iff,
        carveoutPath_perm hln ((hprep.filter _).map _) fun raw hraw => ?_]
      obtain ⟨p, hp, rfl⟩ := mem_map.1 hraw
      obtain ⟨hmem, hp⟩ := mem_filter.1 hp
      obtain ⟨e, -, rfl⟩ := mem_map.1 hmem
      rw [Bool.and_eq_true, beq_iff_eq] at hp
      exact hp.2
  · unfold protectedMetadataNamesForWritableRoot
    simp only [h.write, all_cons, ((hprep.filter _).map _).all_eq]

theorem writableRoots_eq (hln : host.FollowsLinks) :
    sortedWritableRoots (o.getWritableRootsWithCwd u host cwd) =
      sortedWritableRoots (pol.getWritableRootsWithCwd u host cwd) := by
  unfold getWritableRootsWithCwd getWritableRootsWithCwdImpl sortedWritableRoots
  have hdisk : o.hasFullDiskWriteAccess =
      pol.hasFullDiskWriteAccess := hasFullDiskWriteAccess_perm h.toReordered _
  rw [hdisk]
  by_cases hfull : pol.hasFullDiskWriteAccess = true
  · rw [if_pos hfull, if_pos hfull]
  · rw [if_neg hfull, if_neg hfull, map_map, map_map]
    have hroots := eraseDups_perm_of_mem_iff fun a =>
      ((((h.preparedEntries_perm .effective).filter fun p => p.entry.access.canWrite).map
        fun p => p.effectivePath).mem_iff (a := a))
    have hone : sortedWritableRoot ∘
        o.writableRootAt u host .effective cwd =
        sortedWritableRoot ∘ pol.writableRootAt u host .effective cwd :=
      funext (h.sortedWritableRoot_eq hln)
    rw [hone]
    refine insertionSort_congr (hroots.map _) ?_
    -- Roots of the same path are the same root.
    intro a ha b hb hab hba
    obtain ⟨x, -, rfl⟩ := mem_map.1 ha
    obtain ⟨y, -, rfl⟩ := mem_map.1 hb
    have hxy : x = y := le_antisymm hab hba
    rw [hxy]

theorem semanticSignature_eq (hln : host.FollowsLinks) :
    o.semanticSignature u host cwd = pol.semanticSignature u host cwd := by
  have hrd : o.hasFullDiskReadAccess =
      pol.hasFullDiskReadAccess := hasFullDiskReadAccess_perm h.toReordered _
  unfold semanticSignature
  rw [h.readableRoots_eq, h.writableRoots_eq hln, h.unreadableRoots_eq, h.unreadableGlobs_eq, hrd]
  unfold includePlatformDefaults
  rw [hrd, h.kind, h.entries.any_eq]
  congr 1
  exact hasFullDiskWriteAccess_perm h.toReordered _

end DecidesSame

end Signature

/-- **The order of the entries matters exactly where a write root lies inside a metadata
directory of another.** -/
theorem order_irrelevant_iff {u : UrlOps} {host : Host} {policy : FileSystemSandboxPolicy}
    {context : FileSystemSandboxPolicyContext} (hu : u.AppendsPlain) (hlinks : host.FollowsLinks)
    (hkind : policy.kind = .restricted) (hconv : context.cwd.inferPathConvention = some .posix) :
    (∀ entries : List FileSystemSandboxEntry, entries.Perm policy.entries →
      (∀ path,
        ({ policy with entries := entries }).resolveAccess u path context =
            policy.resolveAccess u path context ∧
          ({ policy with entries := entries }).canWritePath u path context =
            policy.canWritePath u path context) ∧
        ∀ cwd, localContext host cwd = context →
          policy.isSemanticallyEquivalentTo u host { policy with entries := entries } cwd = true) ↔
      OrderIrrelevant u context policy := by
  constructor
  · rintro hsame ⟨hfull, hcwd, grants, hgrants, outer, i, r, n, hmat⟩
    obtain ⟨entries, hperm, path, hne⟩ :=
      exists_perm_of_orderMatters hu hkind hgrants hcwd hfull hmat
    exact hne ((hsame entries hperm).1 path).2
  · intro h entries hperm
    have hreor : Reordered policy { policy with entries } := ⟨rfl, hperm⟩
    have hacc := fun path => resolveAccess_perm (u := u) hkind hconv hreor path
    have hw := fun path => canWritePath_perm hu hkind hconv hreor h path
    refine ⟨fun path => ⟨hacc path, hw path⟩, ?_⟩
    rintro cwd rfl
    have hdec : DecidesSame u host policy { policy with entries } cwd :=
      ⟨hreor, fun path => congrArg FileSystemAccessMode.canRead (hacc _), fun path => hw _⟩
    rw [isSemanticallyEquivalentTo, beq_iff_eq, hdec.semanticSignature_eq hlinks]

/-! ### A write root inside a `.git` directory -/

def nestedWriteEntries : List FileSystemSandboxEntry :=
  [⟨.path (.url none ["w".toList] (by decide)), .write, none⟩,
    ⟨.path (.url none ["w".toList, ".git".toList, "x".toList] (by decide)), .write, none⟩]

def plainContext : FileSystemSandboxPolicyContext :=
  ⟨.url none [[]] (by decide), [], none, none⟩

def oneWriteEntry : List FileSystemSandboxEntry :=
  [⟨.special .root, .read, none⟩, ⟨.path (.url none ["w".toList] (by decide)), .write, none⟩]

theorem one_write_entry_in_any_order : UrlOps.encoding.AppendsPlain ∧
    ∀ entries : List FileSystemSandboxEntry, entries.Perm oneWriteEntry →
      (∀ path,
        (restricted entries).resolveAccess .encoding path plainContext =
            (restricted oneWriteEntry).resolveAccess .encoding path plainContext ∧
          (restricted entries).canWritePath .encoding path plainContext =
            (restricted oneWriteEntry).canWritePath .encoding path plainContext) ∧
        ∀ cwd, localContext Host.empty cwd = plainContext →
          (restricted oneWriteEntry).isSemanticallyEquivalentTo .encoding
            Host.empty (.restricted entries) cwd = true := by
  refine ⟨UrlOps.encoding_appendsPlain, (@order_irrelevant_iff .encoding Host.empty
    (.restricted oneWriteEntry) plainContext UrlOps.encoding_appendsPlain Host.empty_followsLinks
    rfl (by decide)).2 ?_⟩
  rintro ⟨-, -, grants, hgrants, outer, i, r, n, h⟩
  -- Only one entry can protect anything, so the two protect the same directory.
  have hw : ∀ e ∈ oneWriteEntry, ∀ dir : List Text,
      entryProtectedDir .encoding plainContext (r ++ [n]) e = some dir →
        e = ⟨.path (.url none ["w".toList] (by decide)), .write, none⟩ := by
    intro e he dir hdir
    rcases mem_cons.1 he with rfl | he
    · cases hdir
    · exact mem_singleton.1 he
  obtain ⟨dir, hdir, hne⟩ := h.outerProtects
  have hout := hw outer h.outerMem dir hdir
  have hinn := hw i h.innerMem _ h.innerProtects
  have hsame := h.innerProtects
  rw [hinn, ← hout, hdir] at hsame
  exact hne (Option.some.inj hsame)

/-- Which of the two entries stands first decides whether `/w/.git/x/.git` may be written. -/
theorem nested_write_order_matters :
    nestedWriteEntries.reverse.Perm nestedWriteEntries ∧
      (restricted nestedWriteEntries).canWritePath .encoding
          (.url none ["w".toList, ".git".toList, "x".toList, ".git".toList] (by decide))
          plainContext = true ∧
      (restricted nestedWriteEntries.reverse).canWritePath .encoding
          (.url none ["w".toList, ".git".toList, "x".toList, ".git".toList] (by decide))
          plainContext = false := by
  refine ⟨reverse_perm _, ?_, ?_⟩ <;> decide

end SushiGpt.Permissions
