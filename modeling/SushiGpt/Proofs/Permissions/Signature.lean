/-
What the semantic signature of a policy keeps.

Without links the roots of a signature are entries of the policy that are in force at their own
path.  So the roots that may be read and the roots that may not be read say which of them lies
deepest above a path, and reading can be told from the signature (`reads_of_shared`).  Writing
cannot: a read-only subpath of a writable root is an entry of the policy or one of the metadata
directories that are read-only by default, and the signature does not say which.  This is the
only thing it leaves open (`reopens_of_shared`).
-/
import SushiGpt.Proofs.Permissions.FullDisk

namespace SushiGpt.Permissions

open MostSpecific FileSystemSandboxPolicy PathUri List

/-! ### Places -/

variable {u : UrlOps} {host : Host} {pol : FileSystemSandboxPolicy} {cwd : AbsolutePath}
  {g : List Grant}

section Places

variable {o : List Grant} {p root : List Text}

/-- What decides at a place below a root decides at the root, or lies below it. -/
theorem accessAt_root_or_below {d : Grant} {a : FileSystemAccessMode} (hmem : (root, a) ∈ g)
    (hcov : root <+: p) (hdec : Decides g p d) :
    accessAt (some g) root = d.2 ∨ root <+: d.1 ∧ d.1 ≠ root := by
  by_cases heq : d.1 = root
  · exact .inl (accessAt_of_decides (hdec.above hcov (heq ▸ prefix_rfl)))
  · exact .inr ⟨hdec.covers_le hmem hcov, heq⟩

/-- An entry in force at its own place does not lie strictly between a deciding one and the
place. -/
theorem not_mem_below {d : Grant} {b : List Text} {a : FileSystemAccessMode} (hdec : Decides g p d)
    (hcov : b <+: p) (hbel : d.1 <+: b ∧ b ≠ d.1) : (b, a) ∉ g := by
  intro hmem
  have hle := hdec.covers_le hmem hcov
  exact hbel.2 (hle.eq_of_length_le hbel.1.length_le)

/-- Reading, from the roots that may be read and those that may not. -/
theorem reads_of_shared
    (hrd : ∀ root a, (root, a) ∈ g → a ≠ .deny →
      accessAt (some g) root ≠ .deny → accessAt (some o) root ≠ .deny ∧ ∃ a, (root, a) ∈ o)
    (hunr : ∀ root, (root, .deny) ∈ o → accessAt (some o) root = .deny →
      root ≠ [] → (root, .deny) ∈ g)
    (h : accessAt (some g) p ≠ .deny) : accessAt (some o) p ≠ .deny := by
  intro hden
  obtain ⟨⟨root, a⟩, hdec, -⟩ := decides_of_accessAt rfl h
  have hacc : a ≠ .deny := by
    rw [accessAt_of_decides hdec] at h
    exact h
  have hr : accessAt (some g) root = a := accessAt_of_decides (hdec.above hdec.covers prefix_rfl)
  obtain ⟨hop, a', hmem⟩ := hrd root a hdec.mem hacc (hr ▸ hacc)
  obtain ⟨⟨i, d⟩, hinn⟩ := exists_decides o ⟨_, hmem, hdec.covers⟩
  obtain rfl : d = .deny := (accessAt_of_decides hinn).symm.trans hden
  -- The denial lies below the root, so it is a root of its own that the first policy has too.
  rcases accessAt_root_or_below hmem hdec.covers hinn with hsame | hbel
  · exact hop hsame
  · refine not_mem_below hdec hinn.covers hbel (hunr i hinn.mem
      (accessAt_of_decides (hinn.above hinn.covers prefix_rfl)) ?_)
    rintro rfl
    exact hbel.2 (prefix_nil.mp hbel.1).symm

/-- Writing, from the writable roots: where the one policy lets write and the other only read,
the other has an entry inside the root that decides. -/
theorem reopens_of_shared
    (hwr : ∀ root, (root, .write) ∈ g → CanWriteAt g root → (root, .write) ∈ o ∧ CanWriteAt o root)
    (h : accessAt (some g) p = .write) (hrd : accessAt (some o) p = .read) :
    ∃ root b, Decides g p (root, .write) ∧ Decides o p (b, .read) ∧ root <+: b ∧ b ≠ root := by
  obtain ⟨⟨root, a⟩, hdec, rfl⟩ := decides_of_accessAt h (by decide)
  obtain ⟨⟨b, a⟩, hbel, rfl⟩ := decides_of_accessAt hrd (by decide)
  obtain ⟨hmem, hcan⟩ := hwr root hdec.mem
    (canWriteAt_of_decides (hdec.above hdec.covers prefix_rfl))
  refine ⟨root, b, hdec, hbel, ?_⟩
  rcases accessAt_root_or_below hmem hdec.covers hbel with hsame | hins
  · rw [hcan.access] at hsame
    cases hsame
  · exact hins

end Places

variable {path : AbsolutePath}

/-! ### Entries -/

theorem agrees_slashTmp (hu : u.AppendsPlain) (hcwd : Lexical cwd)
    (htmp : host.isDir dirTmp = true) : Agrees u host cwd (.special .slashTmp) := by
  have hctx : PosixContext (localContext host cwd) := posixContext_local hcwd
  have hfix : fixedPlace .slashTmp = some dirTmp.names := rfl
  obtain ⟨uri, hpaths, hpl⟩ := entryPaths_of_fixedPlace hctx.cwd hu hfix
  have hnat : resolveEntryPath host (.special .slashTmp) cwd = some dirTmp := if_pos htmp
  have hlex : Lexical dirTmp := by
    unfold Lexical
    decide
  refine ⟨?_, fun uri' huri => ?_⟩
  · rw [hpaths, hnat]
    simp only [filterMap_cons, hpl, filterMap_nil, Option.toList_some, place_fromAbsPath hlex]
  · rw [hpaths, mem_singleton] at huri
    rw [huri]
    exact ⟨convention_of_place hpl, .inl (by rw [hpl]; rfl)⟩

theorem agrees_tmpdir : Agrees u host cwd (.special .tmpdir) := by
  have hloc : entryPaths u (localContext host cwd) (.special .tmpdir) =
      (resolveEntryPath host (.special .tmpdir) cwd).toList.map fromAbsPath := by
    show localTemporaryDirectories host = _
    unfold localTemporaryDirectories resolveEntryPath resolveFileSystemSpecialPath
    split <;> rfl
  refine ⟨?_, fun uri huri => ?_⟩
  · rw [hloc, filterMap_map]
    rfl
  · rw [hloc] at huri
    obtain ⟨path, -, rfl⟩ := mem_map.mp huri
    exact fromAbsPath_readable path

/-- The targets a signature is about: they mean the same as URIs and natively.  A subpath of the
workspace that is not plain need not: `~/x` is a name of the workspace in a URI, and natively a
path in the home directory. -/
inductive LocalTarget (u : UrlOps) (host : Host) (cwd : AbsolutePath) : FileSystemPath → Prop
  | path (path : AbsolutePath) : LocalTarget u host cwd (.path (PathUri.fromAbsPath path))
  | root : LocalTarget u host cwd (.special .root)
  | workspace : LocalTarget u host cwd (.special (.projectRoots none))
  | subpath {subpath : List FileName} (plain : PlainSubpath subpath) :
      LocalTarget u host cwd (.special (.projectRoots (some (AbsolutePath.relativeText subpath))))
  | inWorkspace {subpath : Text}
      (agrees : Agrees u host cwd (.special (.projectRoots (some subpath)))) :
      LocalTarget u host cwd (.special (.projectRoots (some subpath)))
  | slashTmp : LocalTarget u host cwd (.special .slashTmp)
  | tmpdir : LocalTarget u host cwd (.special .tmpdir)

theorem LocalTarget.agrees (hu : u.AppendsPlain) (hcwd : Lexical cwd)
    (htmp : host.isDir dirTmp = true) {t : FileSystemPath}
    (h : LocalTarget u host cwd t) : Agrees u host cwd t := by
  cases h with
  | path path => exact agrees_path path
  | root => exact agrees_root hcwd
  | workspace => exact agrees_workspace
  | subpath plain => exact agrees_subpath hu hcwd plain
  | inWorkspace agrees => exact agrees
  | slashTmp => exact agrees_slashTmp hu hcwd htmp
  | tmpdir => exact agrees_tmpdir

/-- A restricted policy with its native entries, by name. -/
structure Located (u : UrlOps) (host : Host) (pol : FileSystemSandboxPolicy)
    (cwd : AbsolutePath) (grants : List Grant) : Prop where
  kind : pol.kind = .restricted
  lexical : PathUri.Lexical cwd
  grants_eq : pol.grants u (localContext host cwd) = some grants
  mem : ∀ place access, (place, access) ∈ grants ↔
    ∃ path, PathUri.Lexical path ∧ place = path.names ∧
      ⟨path, access⟩ ∈ pol.resolvedEntriesWithCwd host cwd

namespace Located

variable (h : Located u host pol cwd g)

include h

theorem access (hp : Lexical path) :
    pol.resolveAccessForLocalPathWithCwd u host path cwd = accessAt (some g) path.names := by
  unfold resolveAccessForLocalPathWithCwd
  rw [resolveAccess_eq h.kind (posixContext_local h.lexical).cwd
    (place_fromAbsPath hp), h.grants_eq]

theorem canRead_iff :
    pol.canReadLocalPathWithCwd u host path cwd = true ↔
      Lexical path ∧ accessAt (some g) path.names ≠ .deny := by
  unfold canReadLocalPathWithCwd
  rw [FileSystemAccessMode.canRead_iff]
  by_cases hp : Lexical path
  · rw [h.access hp]
    exact ⟨fun hrd => ⟨hp, hrd⟩, And.right⟩
  · refine iff_of_false (fun hrd => hrd ?_) fun hrd => hp hrd.1
    exact resolveAccess_of_place_eq_none h.kind
      (convention_fromAbsPath cwd) (.inl (place_fromAbsPath_eq_none hp))

theorem mem_names {a : FileSystemAccessMode} (hp : Lexical path)
    (hmem : ⟨path, a⟩ ∈ pol.resolvedEntriesWithCwd host cwd) : (path.names, a) ∈ g :=
  (h.mem _ _).mpr ⟨path, hp, rfl, hmem⟩

end Located

/-! ### Roots -/

theorem NoLinks.mem_getReadableRoots (h : NoLinks host)
    (hdisk : pol.hasFullDiskReadAccess = false) :
    path ∈ pol.getReadableRootsWithCwd u host cwd ↔
      (∃ a, a ≠ .deny ∧ ⟨path, a⟩ ∈ pol.resolvedEntriesWithCwd host cwd) ∧
        pol.canReadLocalPathWithCwd u host path cwd = true := by
  unfold getReadableRootsWithCwd
  rw [hdisk, if_neg Bool.false_ne_true, dedupAbsolutePaths, mem_eraseDups]
  simp only [mem_map, mem_filter, h.effective_eq, FileSystemAccessMode.canRead_iff]
  constructor
  · rintro ⟨⟨path, a⟩, ⟨⟨hmem, hacc⟩, hcan⟩, rfl⟩
    exact ⟨⟨a, hacc, hmem⟩, hcan⟩
  · rintro ⟨⟨a, hacc, hmem⟩, hcan⟩
    exact ⟨⟨path, a⟩, ⟨⟨hmem, hacc⟩, hcan⟩, rfl⟩

theorem NoLinks.mem_getUnreadableRoots (h : NoLinks host) (hk : pol.kind = .restricted) :
    path ∈ pol.getUnreadableRootsWithCwd u host cwd ↔
      ⟨path, .deny⟩ ∈ pol.resolvedEntriesWithCwd host cwd ∧
        pol.canReadLocalPathWithCwd u host path cwd = false ∧ path ≠ [] := by
  unfold getUnreadableRootsWithCwd
  rw [if_neg (not_not.mpr hk), dedupAbsolutePaths, mem_eraseDups]
  simp only [mem_map, mem_filter, h.effective_eq, beq_iff_eq, bne_iff_ne, ne_eq, Bool.not_eq_true']
  constructor
  · rintro ⟨⟨path, a⟩, ⟨⟨⟨hmem, rfl⟩, hcan⟩, hne⟩, rfl⟩
    exact ⟨hmem, hcan, hne⟩
  · rintro ⟨hmem, hcan, hne⟩
    exact ⟨⟨path, .deny⟩, ⟨⟨⟨hmem, rfl⟩, hcan⟩, hne⟩, rfl⟩

/-! ### Equal signatures -/

theorem mem_of_sorted_eq {ps os : List AbsolutePath}
    (h : sortedAbsolutePaths ps = sortedAbsolutePaths os) (hp : path ∈ ps) : path ∈ os := by
  unfold sortedAbsolutePaths at h
  rw [← mem_insertionSort (· ≤ ·), h] at hp
  exact (mem_insertionSort _).mp hp

theorem exists_of_sortedRoots_eq {roots os : List WritableRoot}
    (h : sortedWritableRoots roots = sortedWritableRoots os) {w : WritableRoot} (hw : w ∈ roots) :
    ∃ w' ∈ os, w'.root = w.root ∧ ∀ sub ∈ w.readOnlySubpaths, sub ∈ w'.readOnlySubpaths := by
  have hsor : sortedWritableRoot w ∈ sortedWritableRoots os := by
    rw [← h]
    exact (mem_insertionSort _).mpr (mem_map_of_mem hw)
  obtain ⟨w', hw', heq⟩ := mem_map.mp ((mem_insertionSort _).mp hsor)
  have hr : (sortedWritableRoot w').root = (sortedWritableRoot w).root := by rw [heq]
  have hsubs : (sortedWritableRoot w).readOnlySubpaths =
      (sortedWritableRoot w').readOnlySubpaths := by rw [heq]
  exact ⟨w', hw', hr, fun sub hsub => mem_of_sorted_eq hsubs hsub⟩

/-- The path lies in a directory that a writable root of the policy keeps read-only by default. -/
def UnderDefault (u : UrlOps) (host : Host) (pol : FileSystemSandboxPolicy)
    (cwd path : AbsolutePath) : Prop :=
  ∃ w ∈ pol.getWritableRootsWithCwd u host cwd,
    ∃ sub ∈ defaultReadOnlySubpathsForWritableRoot host w.root (cwd == w.root),
      sub ∈ w.readOnlySubpaths ∧ sub <+: path

section Equal

variable {o : FileSystemSandboxPolicy} {os : List Grant}

open FileSystemSandboxPolicy

variable (hlinks : NoLinks host) (h : Located u host pol cwd g)
  (h' : Located u host o cwd os)
  (hsame : pol.semanticSignature u host cwd = o.semanticSignature u host cwd)

include hlinks h h' hsame

theorem reads_of_equal_signature {p : List Text}
    (hrd : accessAt (some g) p ≠ .deny) : accessAt (some os) p ≠ .deny := by
  have hctx : PosixContext (localContext host cwd) := posixContext_local h.lexical
  have hdisk : pol.hasFullDiskReadAccess = o.hasFullDiskReadAccess :=
    congrArg FileSystemSemanticSignature.hasFullDiskReadAccess hsame
  cases hfull : pol.hasFullDiskReadAccess with
  | true =>
    exact FileSystemAccessMode.canRead_iff.mp
      (accessAt_of_fullDiskRead hctx.cwd h'.grants_eq h'.kind (hdisk ▸ hfull) p)
  | false =>
    refine reads_of_shared (fun root a hmem hacc hop => ?_) (fun root hmem hden hne => ?_) hrd
    · obtain ⟨path, hp, rfl, he⟩ := (h.mem _ _).mp hmem
      have hr := (hlinks.mem_getReadableRoots hfull).mpr
        ⟨⟨a, hacc, he⟩, h.canRead_iff.mpr ⟨hp, hop⟩⟩
      obtain ⟨⟨a', -, he'⟩, hcan⟩ :=
        (hlinks.mem_getReadableRoots (hdisk ▸ hfull)).mp (mem_of_sorted_eq
          (congrArg FileSystemSemanticSignature.readableRoots hsame) hr)
      exact ⟨(h'.canRead_iff.mp hcan).2, a', h'.mem_names hp he'⟩
    · obtain ⟨path, hp, rfl, he⟩ := (h'.mem _ _).mp hmem
      have hcannot : o.canReadLocalPathWithCwd u host path cwd = false := by
        rw [Bool.eq_false_iff, ne_eq, h'.canRead_iff]
        exact fun hcan => hcan.2 hden
      have hr := (hlinks.mem_getUnreadableRoots h'.kind).mpr
        ⟨he, hcannot, fun hnil => hne (hnil ▸ rfl)⟩
      obtain ⟨he', -⟩ := (hlinks.mem_getUnreadableRoots h.kind).mp (mem_of_sorted_eq
        (congrArg FileSystemSemanticSignature.unreadableRoots hsame.symm) hr)
      exact h.mem_names hp he'

omit h h' in
/-- A writable root of the one policy is one of the other, with the same subpaths. -/
theorem writableRoot_of_equal_signature (hdisk : pol.hasFullDiskWriteAccess = false)
    (hdisk' : o.hasFullDiskWriteAccess = false) {root : AbsolutePath}
    (he : ⟨root, .write⟩ ∈ pol.resolvedEntriesWithCwd host cwd)
    (hr : pol.canWriteLocalPathWithCwd u host root cwd = true) :
    ⟨root, .write⟩ ∈ o.resolvedEntriesWithCwd host cwd ∧
      o.canWriteLocalPathWithCwd u host root cwd = true ∧
      ∀ sub ∈ (pol.writableRootAt u host .effective cwd root).readOnlySubpaths,
        sub ∈ (o.writableRootAt u host .effective cwd root).readOnlySubpaths := by
  obtain ⟨w', hw', hrootEq, hsubs⟩ := exists_of_sortedRoots_eq
    (congrArg FileSystemSemanticSignature.writableRoots hsame)
    ((hlinks.mem_getWritableRoots hdisk).mpr ⟨root, he, hr, rfl⟩)
  obtain ⟨root', he', hr', rfl⟩ := (hlinks.mem_getWritableRoots hdisk').mp hw'
  obtain rfl : root' = root := hrootEq
  exact ⟨he', hr', hsubs⟩

variable (hu : u.AppendsPlain)

include hu

/-- Only a default of a writable root can be writable under the one policy and read-only under
the other. -/
theorem default_of_equal_signature (hdisk : pol.hasFullDiskWriteAccess = false)
    (hdisk' : o.hasFullDiskWriteAccess = false) (hw : accessAt (some g) path.names = .write)
    (hrd : accessAt (some os) path.names = .read) : UnderDefault u host pol cwd path := by
  have hcan (p : AbsolutePath) : pol.canWriteLocalPathWithCwd u host p cwd = true ↔
      Lexical p ∧ CanWriteAt g p.names :=
    canWriteLocal_iff hu h.kind hdisk h.lexical h.grants_eq
  have hcan' (p : AbsolutePath) : o.canWriteLocalPathWithCwd u host p cwd = true ↔
      Lexical p ∧ CanWriteAt os p.names :=
    canWriteLocal_iff hu h'.kind hdisk' h.lexical h'.grants_eq
  have hwr (root : List Text) (hmem : (root, .write) ∈ g)
      (hr : CanWriteAt g root) : (root, .write) ∈ os ∧ CanWriteAt os root := by
    obtain ⟨path, hp, rfl, he⟩ := (h.mem _ _).mp hmem
    obtain ⟨he', hr', -⟩ := writableRoot_of_equal_signature hlinks hsame hdisk hdisk' he
      ((hcan path).mpr ⟨hp, hr⟩)
    exact ⟨h'.mem_names hp he', ((hcan' path).mp hr').2⟩
  obtain ⟨_, _, hdec, hbel, hins⟩ := reopens_of_shared hwr hw hrd
  obtain ⟨root, hlex, rfl, he⟩ := (h.mem _ _).mp hdec.mem
  obtain ⟨b, hlex', rfl, hentryBelow⟩ := (h'.mem _ _).mp hbel.mem
  have hr : pol.canWriteLocalPathWithCwd u host root cwd = true :=
    (hcan root).mpr ⟨hlex, canWriteAt_of_decides (hdec.above hdec.covers prefix_rfl)⟩
  have hcannot : o.canWriteLocalPathWithCwd u host b cwd = false := by
    rw [Bool.eq_false_iff, ne_eq, hcan']
    rintro ⟨-, hacc, -⟩
    rw [accessAt_of_decides (hbel.above hbel.covers prefix_rfl)] at hacc
    cases hacc
  -- The entry of the other policy is a read-only subpath of the root, hence of the same root here.
  obtain ⟨he', hr', -⟩ := writableRoot_of_equal_signature hlinks hsame hdisk hdisk' he hr
  have hsub : b ∈ (pol.writableRootAt u host .effective cwd root).readOnlySubpaths :=
    (writableRoot_of_equal_signature hlinks hsame.symm hdisk' hdisk he' hr').2.2 b
      (hlinks.mem_readOnlySubpaths.mpr (.inr ⟨⟨.read, by decide, hentryBelow⟩, hcannot,
        AbsolutePath.names_le_iff.mp hins.1,
        fun heq => hins.2 (congrArg AbsolutePath.names heq)⟩))
  refine ⟨_, (hlinks.mem_getWritableRoots hdisk).mpr ⟨root, he, hr, rfl⟩, b, ?_, hsub,
    AbsolutePath.names_le_iff.mp hbel.covers⟩
  rcases hlinks.mem_readOnlySubpaths.mp hsub with ⟨hdef, -⟩ | ⟨⟨a, -, hmem⟩, -⟩
  · exact hdef
  · -- An entry there would decide under the policy that lets write.
    exact absurd (h.mem_names hlex' hmem) (not_mem_below hdec hbel.covers hins)

omit hlinks h' hsame in
theorem accessAt_of_full {p : List Text} (hfull : pol.hasFullDiskWriteAccess = true) :
    accessAt (some g) p = .write := by
  have hctx : PosixContext (localContext host cwd) := posixContext_local h.lexical
  refine accessAt_of_fullDiskWrite hctx.cwd h.grants_eq hu h.kind ?_ p
  unfold hasFullDiskWriteAccessWithContext
  rw [hctx.convention]
  exact hfull

end Equal

/-- **Equivalent policies let the same paths be read, and give the same access to every path
outside of the directories that are read-only by default.** -/
theorem equivalent_policies_agree {u : UrlOps} {host : Host}
    {policy other : FileSystemSandboxPolicy} {cwd : AbsolutePath} (hu : u.AppendsPlain)
    (hlinks : NoLinks host) (htmp : host.isDir dirTmp = true)
    (hkind : policy.kind = .restricted) (hkind' : other.kind = .restricted)
    (hentries : ∀ e ∈ policy.entries, LocalTarget u host cwd e.path)
    (hentries' : ∀ e ∈ other.entries, LocalTarget u host cwd e.path)
    (hequivalent : policy.isSemanticallyEquivalentTo u host other cwd = true)
    (path : AbsolutePath) :
    policy.canReadLocalPathWithCwd u host path cwd = other.canReadLocalPathWithCwd u host path cwd ∧
      (¬ UnderDefault u host policy cwd path → ¬ UnderDefault u host other cwd path →
        policy.resolveAccessForLocalPathWithCwd u host path cwd =
          other.resolveAccessForLocalPathWithCwd u host path cwd) := by
  have hsame : policy.semanticSignature u host cwd = other.semanticSignature u host cwd :=
    beq_iff_eq.mp hequivalent
  by_cases hlex : Lexical path ∧ Lexical cwd
  · obtain ⟨hp, hcwd⟩ := hlex
    obtain ⟨g, hgr, hmem⟩ := exists_named fun e he => (hentries e he).agrees hu hcwd htmp
    obtain ⟨os, hoth, hmem'⟩ := exists_named fun e he => (hentries' e he).agrees hu hcwd htmp
    have h : Located u host policy cwd g := ⟨hkind, hcwd, hgr, hmem⟩
    have h' : Located u host other cwd os := ⟨hkind', hcwd, hoth, hmem'⟩
    have hreads : accessAt (some g) path.names ≠ .deny ↔ accessAt (some os) path.names ≠ .deny :=
      ⟨reads_of_equal_signature hlinks h h' hsame, reads_of_equal_signature hlinks h' h hsame.symm⟩
    refine ⟨?_, fun hdef hdef' => ?_⟩
    · rw [Bool.eq_iff_iff, h.canRead_iff, h'.canRead_iff, hreads]
    · rw [h.access hp, h'.access hp]
      have hflag : policy.hasFullDiskWriteAccess = other.hasFullDiskWriteAccess :=
        congrArg FileSystemSemanticSignature.hasFullDiskWriteAccess hsame
      cases hfull : policy.hasFullDiskWriteAccess with
      | true => rw [accessAt_of_full h hu hfull, accessAt_of_full h' hu (hflag ▸ hfull)]
      | false =>
        have hfull' : other.hasFullDiskWriteAccess = false := hflag ▸ hfull
        cases hacc : accessAt (some g) path.names <;>
          cases hacc' : accessAt (some os) path.names <;>
          rw [hacc, hacc'] at hreads
        case read.write =>
          exact absurd (default_of_equal_signature hlinks h' h hsame.symm hu hfull' hfull
            hacc' hacc) hdef'
        case write.read =>
          exact absurd (default_of_equal_signature hlinks h h' hsame hu hfull hfull'
            hacc hacc') hdef
        all_goals first | rfl | exact absurd hreads (by decide)
  · -- Without a place for the path and the directory both policies deny.
    have hpl : (fromAbsPath path).place = none ∨ (localContext host cwd).cwd.place = none := by
      rcases not_and_or.mp hlex with hp | hcwd
      · exact .inl (place_fromAbsPath_eq_none hp)
      · exact .inr (place_fromAbsPath_eq_none hcwd)
    have hdn {policy : FileSystemSandboxPolicy} (hkind : policy.kind = .restricted) :
        policy.resolveAccessForLocalPathWithCwd u host path cwd = .deny :=
      resolveAccess_of_place_eq_none hkind (convention_fromAbsPath cwd) hpl
    unfold canReadLocalPathWithCwd
    rw [hdn hkind, hdn hkind']
    exact ⟨rfl, fun _ _ => rfl⟩

/-! ### A repository in a writable root -/

def directories (dirs : List AbsolutePath) : Host where
  env := ⟨none, none⟩
  tmpdir := none
  symlinkMetadata path := if path ∈ dirs then some ⟨.dir, 0⟩ else none
  metadata path := if path ∈ dirs then some ⟨.dir, 0⟩ else none
  canonicalize path := if path ∈ dirs then some path else none
  readToString _ := none
  readDir path := if path ∈ dirs then some [] else none

theorem directories_noLinks {d : List AbsolutePath} (hr : [] ∈ d)
    (hpar : ∀ dir ∈ d, dir.dropLast ∈ d) : NoLinks (directories d) := by
  have hreal {path r : AbsolutePath}
      (h : (directories d).canonicalize path = some r) : path ∈ d ∧ path = r := by
    simpa [directories] using h
  have hn (path : AbsolutePath) : (directories d).isSymlink path = false := by
    unfold Host.isSymlink directories
    dsimp only
    split_ifs <;> rfl
  refine ⟨⟨if_pos hr, fun dir n r h => ?_, fun dir n r h => ?_,
    fun dir n r t h _ htgt => ?_, fun path r _ a _ => hn a⟩,
    hn⟩
  · have hdir : dir ∈ d := by simpa using hpar _ (hreal h).1
    exact Option.isSome_iff_exists.mpr ⟨dir, if_pos hdir⟩
  · rw [(hreal h).2]
  · rw [← (hreal h).2, (hreal htgt).2]

def dirGit : AbsolutePath := dirW ++ [fileNamed ".git".toList (by decide)]

def repository : Host := directories [[], dirTmp, dirW, dirGit]

theorem repository_noLinks : NoLinks repository := directories_noLinks (by decide) (by decide)

/-- `oneRoot` once more, with its root named from the workspace `/`. -/
def subpathRoot : FileSystemSandboxPolicy :=
  .restricted [⟨.special (.projectRoots (some (AbsolutePath.relativeText dirW))), .write, none⟩,
    rootEntry .read]

/-- `oneRoot` with the repository protected by an entry. -/
def protectedRoot : FileSystemSandboxPolicy :=
  .restricted [rootEntry .read, pathEntryAt dirW .write, pathEntryAt dirGit .read]

theorem dirW_plain : PlainSubpath dirW where
  ne_nil := by decide
  plain n hn := by
    obtain rfl := mem_singleton.mp hn
    exact ⟨all_eq_true.mp (by decide), by decide, by decide, by decide⟩
  not_home := by decide

theorem subpathRoot_agrees :
    oneRoot.canReadLocalPathWithCwd .encoding repository dirGit [] =
      subpathRoot.canReadLocalPathWithCwd .encoding repository dirGit [] := by
  refine (equivalent_policies_agree UrlOps.encoding_appendsPlain repository_noLinks (by decide)
    rfl rfl (fun e he => ?_) (fun e he => ?_) (by decide) dirGit).1
  · simp only [oneRoot, restricted, mem_cons, not_mem_nil, or_false] at he
    rcases he with rfl | rfl
    · exact .root
    · exact .path dirW
  · simp only [subpathRoot, restricted, mem_cons, not_mem_nil, or_false] at he
    rcases he with rfl | rfl
    · exact .subpath dirW_plain
    · exact .root

/-- An entry for what is protected anyway is not seen in the signature. -/
theorem protectedRoot_differs :
    NoLinks repository ∧ repository.isDir dirTmp = true ∧
      oneRoot.isSemanticallyEquivalentTo .encoding repository protectedRoot [] = true ∧
      oneRoot.resolveAccessForLocalPathWithCwd .encoding repository dirGit [] = .write ∧
      protectedRoot.resolveAccessForLocalPathWithCwd .encoding repository dirGit [] = .read :=
  ⟨repository_noLinks, by decide, by decide, by decide, by decide⟩

end SushiGpt.Permissions
