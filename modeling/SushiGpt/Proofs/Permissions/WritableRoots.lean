/-
The writable roots of a policy against the policy.

A policy decides about a path by its most specific entry and by one rule about metadata
directories for all write roots together.  Its writable roots decide one root at a time:
a path is let through if it lies below the root, below none of the read-only paths carved
out of it, and not under one of the root's protected names.

On a host without links the roots let through everything the policy does
(`letsThrough_of_canWriteAt`): the root that decides is among them.  The converse has one
gap.  A root does not know about the metadata directories of another root inside it, so a
path in `/w/sub/.git` is let through by `/w` although `/w/sub` protects it; this is the only
way for the two to differ (`writable_roots_agree_iff`).
-/
import SushiGpt.Permissions.Roots
import SushiGpt.Proofs.Paths.Host
import SushiGpt.Proofs.Paths.Native
import SushiGpt.Proofs.Permissions.Metadata

namespace SushiGpt.Permissions

open MostSpecific FileSystemSandboxPolicy PathUri AbsolutePath List Host FileSystemAccessMode

/-! ### Places -/

/-- What grants let be written under the metadata rule. -/
@[mk_iff] structure CanWriteAt (grants : List Grant) (place : List Text) : Prop where
  access : accessAt (some grants) place = .write
  metadata : ¬ MetadataDenied (writeRoots grants) place

/-- What a writable root lets through: what lies below it, outside the carve-outs of
entries that deny writing, and not under a name that cannot be written. -/
structure LetsThrough (grants : List Grant) (root place : List Text) : Prop where
  below : root <+: place
  outside : ∀ g ∈ grants, g.2 ≠ .write → ¬ CanWriteAt grants g.1 → root <+: g.1 → g.1 ≠ root →
    ¬ g.1 <+: place
  names : ∀ n ∈ protectedMetadataPathNames, root ++ [n] <+: place → CanWriteAt grants (root ++ [n])

/-- **A metadata directory of a root that another root does not know of.**  The write root
`inner` lies strictly below `outer` and closes its directory `name`; nothing carved out of
`outer` covers that directory. -/
structure Leaks (grants : List Grant) (outer inner : List Text) (n : Text) : Prop where
  outerRoot : outer ∈ writeRoots grants
  outerNotDenied : ∀ g ∈ grants, g.1 = outer → g.2 ≠ .deny
  innerRoot : inner ∈ writeRoots grants
  below : outer <+: inner ∧ outer ≠ inner
  nameMem : n ∈ protectedMetadataPathNames
  firstProtects : (writeRoots grants).findSome? (protectedDir · (inner ++ [n])) =
    some (inner ++ [n])
  nothingThere : ∀ g ∈ grants, g.1 ≠ inner ++ [n]
  notDenied : ∀ g ∈ grants, g.1 = inner → g.2 ≠ .deny
  passes : LetsThrough grants outer (inner ++ [n])

variable {u : UrlOps} {host : Host} {pol : FileSystemSandboxPolicy} {cwd r path : AbsolutePath}
  {w : WritableRoot} {grants : List Grant}

section Places

variable {r place : List Text} {n : Text}

/-- A write root opens every metadata directory it lies in. -/
theorem canWriteAt_of_decides (h : Decides grants r (r, .write)) : CanWriteAt grants r := by
  refine ⟨accessAt_of_decides h, ?_⟩
  rintro ⟨dir, hdir, hcl⟩
  obtain ⟨o, -, ho⟩ := List.exists_of_findSome?_eq_some hdir
  obtain ⟨-, -, -, hle⟩ := protectedDir_eq_some.1 ho
  exact hcl ⟨r, mem_writeRoots_iff.2 h.mem, hle, prefix_rfl⟩

/-- A write root can be written itself unless it is denied. -/
theorem canWriteAt_root_iff (hr : r ∈ writeRoots grants) :
    CanWriteAt grants r ↔ ∀ g ∈ grants, g.1 = r → g.2 ≠ .deny := by
  rw [mem_writeRoots_iff] at hr
  constructor
  · intro h g hg heq hdn
    obtain ⟨d, hd, hd2⟩ := decides_of_accessAt h.access (by decide)
    -- Whatever decides at the root lies there, and a denial would outrank it.
    have hlen : d.1.length = r.length :=
      le_antisymm hd.covers.length_le (hd.covers_le hr prefix_rfl).length_le
    refine hd.top g hg (heq ▸ prefix_rfl) (.inr ⟨by rw [heq, hlen], ?_⟩)
    rw [hd2, hdn]
    decide
  · intro hdn
    refine canWriteAt_of_decides (decides_self hr fun g hg heq => ?_)
    have hne := hdn g hg heq
    show g.2 ≤ .write
    revert hne
    cases g.2 <;> decide

/-- Below one of its names, a root that decides is asked about that name only. -/
theorem metadataDenied_below (hdec : Decides grants place (r, .write)) (hbel : r ++ [n] <+: place) :
    MetadataDenied (writeRoots grants) place ↔ MetadataDenied (writeRoots grants) (r ++ [n]) := by
  have hroots : ∀ o ∈ writeRoots grants, o <+: place → o <+: r :=
    fun o ho hle => hdec.covers_le (mem_writeRoots_iff.1 ho) hle
  have hsame : ∀ o ∈ writeRoots grants, protectedDir o place = protectedDir o (r ++ [n]) := by
    intro o ho
    cases hdir : protectedDir o (r ++ [n]) with
    | some dir =>
      obtain ⟨m, hm, rfl, hle⟩ := protectedDir_eq_some.1 hdir
      exact protectedDir_eq_some.2 ⟨m, hm, rfl, hle.trans hbel⟩
    | none =>
      rw [protectedDir_eq_none] at hdir ⊢
      intro m hm hle
      refine hdir m hm (prefix_of_prefix_length_le hle hbel ?_)
      have ho := (hroots o ho ((prefix_append _ _).trans hle)).length_le
      simp only [length_append, length_singleton]
      omega
  have hfind : (writeRoots grants).findSome? (protectedDir · place) =
      (writeRoots grants).findSome? (protectedDir · (r ++ [n])) :=
    Lists.findSome?_congr hsame
  unfold MetadataDenied
  rw [hfind]
  refine exists_congr fun dir => and_congr_right fun _ => not_congr ?_
  constructor
  · rintro ⟨opener, hop, hdir, hle⟩
    exact ⟨opener, hop, hdir, (hroots opener hop hle).trans (prefix_append _ _)⟩
  · rintro ⟨opener, hop, hdir, hle⟩
    exact ⟨opener, hop, hdir, hle.trans hbel⟩

theorem canWriteAt_below (hdec : Decides grants place (r, .write)) (hbel : r ++ [n] <+: place) :
    CanWriteAt grants place ↔ CanWriteAt grants (r ++ [n]) := by
  have hnm := hdec.above hbel (prefix_append _ _)
  rw [canWriteAt_iff, canWriteAt_iff, accessAt_of_decides hdec, accessAt_of_decides hnm,
    metadataDenied_below hdec hbel]

/-- **What the policy lets be written, the root that decides lets through.** -/
theorem letsThrough_of_canWriteAt (h : CanWriteAt grants place) :
    ∃ r ∈ writeRoots grants, CanWriteAt grants r ∧ LetsThrough grants r place := by
  obtain ⟨⟨r, access⟩, hdec, rfl⟩ := decides_of_accessAt h.access (by decide)
  refine ⟨r, mem_writeRoots_iff.2 hdec.mem,
    canWriteAt_of_decides (hdec.above hdec.covers prefix_rfl), hdec.covers, ?_, ?_⟩
  · intro g hg _ _ hle hne hcov
    exact hne ((hdec.covers_le hg hcov).eq_of_length_le hle.length_le)
  · intro n _ hbel
    exact (canWriteAt_below hdec hbel).1 h

/-- **What a root lets through beyond the policy is a metadata directory of a root inside
it.** -/
theorem leaks_of_letsThrough {o : List Text} (hout : o ∈ writeRoots grants)
    (hcan : CanWriteAt grants o) (hlets : LetsThrough grants o place)
    (hnot : ¬ CanWriteAt grants place) : ∃ i n, Leaks grants o i n ∧ i ++ [n] <+: place := by
  obtain ⟨⟨i, access⟩, hdec⟩ := exists_decides grants
    ⟨(o, .write), mem_writeRoots_iff.1 hout, hlets.below⟩
  have hle : o <+: i := hdec.covers_le (mem_writeRoots_iff.1 hout) hlets.below
  have hacc := hdec.above hdec.covers (prefix_rfl)
  -- An entry that denies writing would have been carved out.
  have hw : access = .write := by
    by_contra hne
    refine hlets.outside _ hdec.mem hne (fun h => ?_) hle (fun heq => ?_) hdec.covers
    · exact hne ((accessAt_of_decides hacc).symm.trans h.access)
    · obtain rfl : i = o := heq
      exact hne ((accessAt_of_decides hacc).symm.trans hcan.access)
  subst hw
  have hden : MetadataDenied (writeRoots grants) place := by
    by_contra hok
    exact hnot ⟨accessAt_of_decides hdec, hok⟩
  obtain ⟨dir, hfst, hcl⟩ := hden
  obtain ⟨r, hr, hdir⟩ := List.exists_of_findSome?_eq_some hfst
  obtain ⟨n, hnm, rfl, hbel⟩ := protectedDir_eq_some.1 hdir
  obtain rfl : r = i := (decides_of_closed (accessAt_of_decides hdec) hr hbel hcl).place_unique hdec
  obtain ⟨hnoth, hdn⟩ := unconfigured_of_decides hdec hbel
  refine ⟨r, n, ⟨hout, (canWriteAt_root_iff hout).1 hcan, hr, ⟨hle, ?_⟩, hnm,
    findSome?_protectedDir_above hbel prefix_rfl hfst, hnoth, hdn, ?_⟩, hbel⟩
  · rintro rfl
    exact hnot ((canWriteAt_below hdec hbel).2 (hlets.names n hnm hbel))
  · exact ⟨hle.trans (prefix_append _ _),
      fun g hg hne hcannot hund ho hcov =>
        hlets.outside g hg hne hcannot hund ho (hcov.trans hbel),
      fun m hm hund => hlets.names m hm (hund.trans hbel)⟩

end Places

/-! ### Roots on a host without links -/

/-- A host whose tree has no symbolic link. -/
structure NoLinks (host : Host) : Prop where
  follows : host.FollowsLinks
  none : ∀ path, host.isSymlink path = false

theorem NoLinks.effective_eq (h : NoLinks host) (path : AbsolutePath) :
    host.normalizeEffectiveAbsolutePath path = path := by
  rcases normalizeEffective_cases h.follows path with heq | ⟨top, -, -, -, hlink, -⟩
  · exact heq
  · rw [h.none [top]] at hlink
    cases hlink

theorem mem_effectiveEntries {e : ResolvedFileSystemEntry} :
    e ∈ pol.effectiveEntries u host cwd ↔
      e ∈ pol.resolvedEntriesWithCwd host cwd ∧
        e.access.canWrite = pol.canWriteLocalPathWithCwd u host e.path cwd := by
  rw [effectiveEntries, mem_filter, beq_iff_eq]

theorem NoLinks.mem_preparedEntries (h : NoLinks host) {p : PreparedFileSystemEntry} :
    p ∈ pol.preparedEntries u host .effective cwd ↔
      p.entry ∈ pol.effectiveEntries u host cwd ∧ p.effectivePath = p.entry.path := by
  unfold preparedEntries
  rw [mem_map]
  constructor
  · rintro ⟨e, he, rfl⟩
    exact ⟨he, h.effective_eq _⟩
  · rintro ⟨he, hp⟩
    refine ⟨p.entry, he, ?_⟩
    cases p
    rw [PreparedFileSystemEntry.mk.injEq]
    exact ⟨rfl, (h.effective_eq _).trans hp.symm⟩

/-- The roots are the write entries that the policy agrees with. -/
theorem NoLinks.mem_getWritableRoots (h : NoLinks host)
    (hdisk : pol.hasFullDiskWriteAccess = false) :
    w ∈ pol.getWritableRootsWithCwd u host cwd ↔
      ∃ r, ⟨r, .write⟩ ∈ pol.resolvedEntriesWithCwd host cwd ∧
        pol.canWriteLocalPathWithCwd u host r cwd = true ∧
        w = pol.writableRootAt u host .effective cwd r := by
  unfold getWritableRootsWithCwd getWritableRootsWithCwdImpl dedupAbsolutePaths
  rw [if_neg (by simp [hdisk]), mem_map]
  simp only [mem_eraseDups, mem_map, mem_filter, h.mem_preparedEntries, mem_effectiveEntries]
  constructor
  · rintro ⟨r, ⟨p, ⟨⟨⟨hmem, heff⟩, hp⟩, hw⟩, hr⟩, rfl⟩
    rw [hr] at hp
    have hacc : p.entry = ⟨r, .write⟩ := by
      rw [hp, ← canWrite_iff.1 hw]
    rw [hacc] at hmem heff
    exact ⟨r, hmem, heff.symm, rfl⟩
  · rintro ⟨r, hmem, hcan, rfl⟩
    exact ⟨r, ⟨⟨⟨r, .write⟩, r⟩, ⟨⟨⟨hmem, hcan.symm⟩, rfl⟩, rfl⟩, rfl⟩, rfl⟩

/-- Every root has one spelling, so what is carved out is what lies strictly below it. -/
theorem carveoutPath_eq {rr : List AbsolutePath} (hraw : ∀ raw ∈ rr, raw = r)
    {p : PreparedFileSystemEntry} (hp : p.effectivePath = p.entry.path) :
    carveoutPath host r rr p =
      if r <+: p.entry.path ∧ p.entry.path ≠ r then some p.entry.path else none := by
  have hsear : ¬ r <+: p.entry.path → (rr.findSome? fun rawRoot =>
      if rawRoot <+: p.entry.path ∧ rawRoot ≠ p.entry.path then
        some (r.join host.env (relativeText (p.entry.path.drop rawRoot.length)))
      else none) = none := by
    intro hnot
    rw [findSome?_eq_none_iff]
    intro raw hmem
    rw [hraw raw hmem]
    exact if_neg fun hle => hnot hle.1
  unfold carveoutPath
  rw [hp]
  by_cases hle : r <+: p.entry.path
  · by_cases heq : p.entry.path = r
    · simp [heq]
    · by_cases hr : r = []
      · simp [hr]
      · simp [hr, heq, hle]
  · rw [hsear hle]
    by_cases heq : p.entry.path = r
    · exact absurd (heq ▸ prefix_rfl) hle
    · simp [hle, heq]

theorem rawRoots_eq (h : NoLinks host) :
    ∀ raw ∈ ((pol.preparedEntries u host .effective cwd).filter fun p =>
      p.entry.access.canWrite && p.effectivePath == r).map fun p => p.entry.path,
      raw = r := by
  intro raw hraw
  obtain ⟨p, hp, rfl⟩ := mem_map.1 hraw
  obtain ⟨hmem, hp⟩ := mem_filter.1 hp
  rw [Bool.and_eq_true, beq_iff_eq] at hp
  exact (h.mem_preparedEntries.1 hmem).2.symm.trans hp.2

/-- The read-only paths of a root: the default ones without an entry of their own, and the
entries below it that cannot be written. -/
theorem NoLinks.mem_readOnlySubpaths (h : NoLinks host) {sub : AbsolutePath} :
    sub ∈ (pol.writableRootAt u host .effective cwd r).readOnlySubpaths ↔
      (sub ∈ defaultReadOnlySubpathsForWritableRoot host r (cwd == r) ∧
        hasExplicitResolvedPathEntry (pol.resolvedEntriesWithCwd host cwd) sub = false) ∨
      ((∃ access, access ≠ .write ∧ ⟨sub, access⟩ ∈ pol.resolvedEntriesWithCwd host cwd) ∧
        pol.canWriteLocalPathWithCwd u host sub cwd = false ∧ r <+: sub ∧ sub ≠ r) := by
  have hcwd : WritableRootPathResolution.effective.resolve host cwd = cwd := h.effective_eq cwd
  unfold writableRootAt dedupAbsolutePaths
  simp only [mem_eraseDups, mem_append, mem_filter, mem_filterMap, hcwd, Bool.not_eq_true']
  refine or_congr_right ?_
  constructor
  · rintro ⟨p, ⟨hmem, hrd⟩, hcar⟩
    obtain ⟨heff, hp⟩ := h.mem_preparedEntries.1 hmem
    obtain ⟨hres, hcan⟩ := mem_effectiveEntries.1 heff
    rw [carveoutPath_eq (rawRoots_eq h) hp, Option.ite_none_right_eq_some] at hcar
    obtain ⟨⟨hle, hne⟩, hsub⟩ := hcar
    obtain rfl := Option.some.inj hsub
    exact ⟨⟨p.entry.access, canWrite_eq_false_iff.1 hrd, hres⟩, hcan.symm.trans hrd, hle, hne⟩
  · rintro ⟨⟨access, hacc, hmem⟩, hcan, hle, hne⟩
    have hrd := canWrite_eq_false_iff.2 hacc
    refine ⟨⟨⟨sub, access⟩, sub⟩, ⟨h.mem_preparedEntries.2 ⟨mem_effectiveEntries.2
      ⟨hmem, hrd.trans hcan.symm⟩, rfl⟩, hrd⟩, ?_⟩
    rw [carveoutPath_eq (rawRoots_eq h) rfl]
    exact if_pos ⟨hle, hne⟩

theorem NoLinks.mem_protectedMetadataNames (h : NoLinks host) {n : Text} :
    n ∈ (pol.writableRootAt u host .effective cwd r).protectedMetadataNames ↔
      n ∈ protectedMetadataPathNames ∧
        pol.canWriteLocalPathWithCwd u host (r.join host.env n) cwd = false := by
  unfold writableRootAt protectedMetadataNamesForWritableRoot
  simp only [mem_filter, all_cons, Bool.and_eq_true, Bool.not_eq_true', all_eq_true]
  refine and_congr_right fun _ => ⟨fun hall => hall.1, fun hr => ⟨hr, ?_⟩⟩
  intro raw hraw
  rw [rawRoots_eq h raw hraw]
  exact hr

/-! ### Native entries and their URIs

The policy resolves an entry as a URI and the roots resolve it as a native path.  For
absolute paths, the root and the workspace itself the two agree; a subpath of the workspace
is text that the two read differently when it starts with `~`. -/

/-- As a URI and as a native path the entry means the same place. -/
structure Agrees (u : UrlOps) (host : Host) (cwd : AbsolutePath) (path : FileSystemPath) :
    Prop where
  places : (FileSystemSandboxPolicy.entryPaths u (localContext host cwd) path).filterMap
      PathUri.place =
    (resolveEntryPath host path cwd).toList.filterMap fun p => (PathUri.fromAbsPath p).place
  readable : ∀ uri ∈ FileSystemSandboxPolicy.entryPaths u (localContext host cwd) path,
    uri.inferPathConvention = some .posix ∧ (uri.place.isSome ∨ uri.isOpaque)

theorem fromAbsPath_readable (path : AbsolutePath) :
    (fromAbsPath path).inferPathConvention = some .posix ∧
      ((fromAbsPath path).place.isSome ∨ (fromAbsPath path).isOpaque) := by
  refine ⟨convention_fromAbsPath path, ?_⟩
  by_cases h : Lexical path
  · left
    rw [place_fromAbsPath h]
    rfl
  · right
    rw [fromAbsPath_of_not_lexical h]
    rfl

/-- An entry that resolves to the URI of its native path. -/
theorem agrees_of_fromAbsPath {path : FileSystemPath} {p : AbsolutePath}
    (huri : entryPaths u (localContext host cwd) path = [fromAbsPath p])
    (hnat : resolveEntryPath host path cwd = some p) : Agrees u host cwd path := by
  refine ⟨by rw [huri, hnat]; rfl, fun uri hmem => ?_⟩
  rw [huri, mem_singleton] at hmem
  rw [hmem]
  exact fromAbsPath_readable p

theorem agrees_path (p : AbsolutePath) : Agrees u host cwd (.path (fromAbsPath p)) :=
  agrees_of_fromAbsPath rfl (toAbsPath_fromAbsPath host.env p)

theorem agrees_workspace : Agrees u host cwd (.special (.projectRoots none)) :=
  agrees_of_fromAbsPath rfl rfl

theorem agrees_root (hcwd : Lexical cwd) : Agrees u host cwd (.special .root) := by
  have hpl := place_fromAbsPath hcwd
  have hr := lastAncestor_place hpl
  have hdep : (fromAbsPath cwd).lexicalDepth.isSome = true := by
    rw [lexicalDepth_eq (convention_of_place hpl), hpl]
    rfl
  have huri : entryPaths u (localContext host cwd) (.special .root) =
      [(fromAbsPath cwd).lastAncestor] := by
    show (fileSystemRoot (localContext host cwd)).toList = _
    unfold fileSystemRoot localContext
    rw [if_pos hdep]
    rfl
  refine ⟨?_, fun uri hmem => ?_⟩
  · rw [huri]
    simp only [filterMap_cons, hr, filterMap_nil]
    rfl
  · rw [huri, mem_singleton] at hmem
    rw [hmem]
    exact ⟨convention_of_place hr, .inl (by rw [hr]; rfl)⟩

/-- A relative path of plain names that does not start at the home directory. -/
structure PlainSubpath (subpath : List FileName) : Prop where
  ne_nil : subpath ≠ []
  plain : ∀ name ∈ subpath, PlainName name.text
  not_home : (AbsolutePath.relativeText subpath).head? ≠ some '~'

/-- **A plain subpath of the workspace means the same as a URI and natively.** -/
theorem agrees_subpath (hu : u.AppendsPlain) (hcwd : Lexical cwd) {subpath : List FileName}
    (h : PlainSubpath subpath) :
    Agrees u host cwd (.special (.projectRoots (some (relativeText subpath)))) := by
  have hplain : ∀ n ∈ names subpath, PlainName n := forall_mem_map.2 h.plain
  obtain ⟨uri, hjoin, hpl⟩ := join_place hu (by simpa [names] using h.ne_nil) hplain
    (place_fromAbsPath hcwd)
  have huri : entryPaths u (localContext host cwd)
      (.special (.projectRoots (some (relativeText subpath)))) = [uri] := by
    show [fromAbsPath cwd].filterMap
      (fun root => (root.join u (relativeText subpath)).toOption) = [uri]
    rw [filterMap_cons, show (fromAbsPath cwd).join u (relativeText subpath) = .ok uri from hjoin]
    rfl
  have hnat : resolveEntryPath host (.special (.projectRoots (some (relativeText subpath)))) cwd =
      some (cwd ++ subpath) :=
    congrArg some (join_relativeText host.env cwd h.ne_nil h.not_home)
  have hnames : names (cwd ++ subpath) = names cwd ++ names subpath := map_append
  refine ⟨?_, fun uri' hmem => ?_⟩
  · rw [huri, hnat]
    simp only [filterMap_cons, hpl, filterMap_nil, Option.toList_some,
      place_fromAbsPath (hcwd.append h.plain), hnames]
  · rw [huri, mem_singleton] at hmem
    rw [hmem]
    exact ⟨convention_of_place hpl, .inl (by rw [hpl]; rfl)⟩

theorem mem_resolvedEntriesWithCwd {access : FileSystemAccessMode} :
    (⟨path, access⟩ : ResolvedFileSystemEntry) ∈ pol.resolvedEntriesWithCwd host cwd ↔
      ∃ e ∈ pol.entries, resolveEntryPath host e.path cwd = some path ∧ e.access = access := by
  unfold resolvedEntriesWithCwd
  simp only [mem_filterMap, Option.map_eq_some_iff, ResolvedFileSystemEntry.mk.injEq]
  constructor
  · rintro ⟨e, he, p, hp, rfl, rfl⟩
    exact ⟨e, he, hp, rfl⟩
  · rintro ⟨e, he, hp, rfl⟩
    exact ⟨e, he, path, hp, rfl, rfl⟩

/-- **The grants of a policy are its native entries, by name.** -/
structure Named (u : UrlOps) (host : Host) (pol : FileSystemSandboxPolicy) (cwd : AbsolutePath)
    (grants : List Grant) : Prop where
  eq : pol.grants u (localContext host cwd) = some grants
  mem : ∀ place access, (place, access) ∈ grants ↔ ∃ path, PathUri.Lexical path ∧
    place = path.names ∧ ⟨path, access⟩ ∈ pol.resolvedEntriesWithCwd host cwd

theorem exists_named (hents : ∀ e ∈ pol.entries, Agrees u host cwd e.path) :
    ∃ grants, Named u host pol cwd grants := by
  have hcv : (localContext host cwd).cwd.inferPathConvention = some .posix :=
    convention_fromAbsPath cwd
  have hmem : ∀ uri access, (uri, access) ∈ pol.resolvedEntries u (localContext host cwd) ↔
      ∃ e ∈ pol.entries, uri ∈ entryPaths u (localContext host cwd) e.path ∧ e.access = access := by
    intro uri access
    simp only [resolvedEntries, mem_flatMap, mem_map, mem_filter, hcv, beq_iff_eq, Prod.mk.injEq]
    constructor
    · rintro ⟨e, he, uri', ⟨huri, -⟩, rfl, hacc⟩
      exact ⟨e, he, huri, hacc⟩
    · rintro ⟨e, he, huri, hacc⟩
      exact ⟨e, he, uri, ⟨huri, ((hents e he).readable uri huri).1⟩, rfl, hacc⟩
  refine ⟨_, placed_eq_some_iff.2 ⟨?_, rfl⟩, ?_⟩
  · rintro ⟨uri, access⟩ he
    obtain ⟨e, he, huri, -⟩ := (hmem uri access).1 he
    exact ((hents e he).readable uri huri).2
  · intro place access
    rw [mem_placesOf]
    -- Both sides ask whether some entry's list of places has this one.
    have hpl : ∀ e ∈ pol.entries,
        (∃ uri ∈ entryPaths u (localContext host cwd) e.path, uri.place = some place) ↔
        ∃ path, resolveEntryPath host e.path cwd = some path ∧ Lexical path ∧
          place = path.names := by
      intro e he
      rw [← mem_filterMap, (hents e he).places, mem_filterMap]
      refine exists_congr fun path => ?_
      rw [Option.mem_toList]
      refine and_congr_right fun _ => ?_
      by_cases hlex : Lexical path
      · rw [place_fromAbsPath hlex, Option.some.injEq]
        exact ⟨fun h => ⟨hlex, h.symm⟩, fun h => h.2.symm⟩
      · rw [place_fromAbsPath_eq_none hlex]
        exact ⟨nofun, fun h => absurd h.1 hlex⟩
    constructor
    · rintro ⟨⟨uri, access'⟩, hres, huri, rfl⟩
      obtain ⟨e, he, hp, rfl⟩ := (hmem uri access').1 hres
      obtain ⟨path, hp, hlex, rfl⟩ := (hpl e he).1 ⟨uri, hp, huri⟩
      exact ⟨path, hlex, rfl, mem_resolvedEntriesWithCwd.2 ⟨e, he, hp, rfl⟩⟩
    · rintro ⟨path, hlex, rfl, hres⟩
      obtain ⟨e, he, hp, rfl⟩ := mem_resolvedEntriesWithCwd.1 hres
      obtain ⟨uri, huri, hpl⟩ := (hpl e he).2 ⟨path, hp, hlex, rfl⟩
      exact ⟨(uri, e.access), (hmem uri e.access).2 ⟨e, he, huri, rfl⟩, hpl, rfl⟩

/-! ### What the roots let through -/

def codexName : FileName := ⟨".codex".toList, by decide⟩

theorem exists_metadataFileName {n : Text} (h : n ∈ protectedMetadataPathNames) :
    ∃ fn : FileName, fn.text = n := by
  have hvd : isFileName n = true := by
    revert n
    decide
  exact ⟨⟨n, hvd⟩, rfl⟩

theorem join_metadata (env : PathEnv) (r : AbsolutePath) {n : FileName}
    (h : n.text ∈ protectedMetadataPathNames) : r.join env n.text = r ++ [n] := by
  have hhome : n.text.head? ≠ some '~' := by
    generalize n.text = t at h
    revert t
    decide
  have htext : relativeText [n] = n.text := Text.join_singleton '/' n.text
  have hjoin := @join_relativeText env r [n] (cons_ne_nil n []) (by rwa [htext])
  rwa [htext] at hjoin

/-- A metadata directory of a lexical path is lexical. -/
theorem lexical_metadata {n : FileName} (h : Lexical r)
    (hnm : n.text ∈ protectedMetadataPathNames) : Lexical (r ++ [n]) :=
  h.append (forall_mem_singleton.2 (protectedMetadataPathNames_plain _ hnm))

/-- The name that follows a root on the way to a path. -/
theorem head?_drop_eq_some (hle : r <+: path) {n : FileName} :
    (path.drop r.length).head? = some n ↔ r ++ [n] <+: path := by
  obtain ⟨rest, rfl⟩ := hle
  rw [drop_left, prefix_append_right_inj]
  cases rest with
  | nil => simp
  | cons first m => simp [eq_comm (a := first)]

theorem isPathWritable_iff :
    w.isPathWritable path = true ↔
      w.root <+: path ∧ (∀ sub ∈ w.readOnlySubpaths, ¬ sub <+: path) ∧
        ∀ n : FileName, w.root ++ [n] <+: path → n.text ∉ w.protectedMetadataNames := by
  unfold WritableRoot.isPathWritable WritableRoot.pathContainsProtectedMetadataName
  simp only [Bool.and_eq_true, decide_eq_true_eq, Bool.not_eq_true', any_eq_false, and_assoc]
  refine and_congr_right fun hle => and_congr_right fun _ => ?_
  cases hhead : (path.drop w.root.length).head? with
  | none =>
    refine iff_of_true rfl fun n hnm => ?_
    rw [(head?_drop_eq_some hle).2 hnm] at hhead
    cases hhead
  | some first =>
    rw [Option.any_some, contains_eq_mem, decide_eq_false_iff_not]
    constructor
    · intro hnot n hnm
      rw [(head?_drop_eq_some hle).2 hnm] at hhead
      rw [Option.some.inj hhead]
      exact hnot
    · intro h
      exact h first ((head?_drop_eq_some hle).1 hhead)

theorem canWriteLocal_iff (hu : u.AppendsPlain) (hk : pol.kind = .restricted)
    (hdisk : pol.hasFullDiskWriteAccess = false) (hcwd : Lexical cwd)
    (hgrants : pol.grants u (localContext host cwd) = some grants) :
    pol.canWriteLocalPathWithCwd u host path cwd = true ↔
      Lexical path ∧ CanWriteAt grants path.names := by
  have hcv : (localContext host cwd).cwd.inferPathConvention = some .posix :=
    convention_fromAbsPath cwd
  have hpl : (localContext host cwd).cwd.place.isSome = true := by
    show (fromAbsPath cwd).place.isSome = true
    rw [place_fromAbsPath hcwd]
    rfl
  have hfull : pol.hasFullDiskWriteAccessWithContext (localContext host cwd) = false := by
    unfold hasFullDiskWriteAccessWithContext
    rw [hcv]
    exact hdisk
  unfold canWriteLocalPathWithCwd
  by_cases hlex : Lexical path
  · rw [canWritePath_iff hu hk hpl (place_fromAbsPath hlex) hgrants, writable_iff, hfull,
      and_iff_right hlex, canWriteAt_iff, or_iff_right Bool.false_ne_true]
  · rw [canWritePath_eq_false hk hcv (.inl (place_fromAbsPath_eq_none hlex))]
    exact iff_of_false (by decide) fun h => hlex h.1

/-- The host has no metadata directory anywhere. -/
def NoMetadata (host : Host) : Prop :=
  ∀ (dir : AbsolutePath) (n : FileName), n.text ∈ protectedMetadataPathNames →
    host.metadata (dir ++ [n]) = none

theorem defaultReadOnlySubpaths_eq (h : NoMetadata host) (r : AbsolutePath) (pm : Bool) :
    defaultReadOnlySubpathsForWritableRoot host r pm = if pm then [r ++ [codexName]] else [] := by
  have hmiss : ∀ n ∈ protectedMetadataPathNames, host.metadata (r.join host.env n) = none := by
    intro n hnm
    obtain ⟨fn, rfl⟩ := exists_metadataFileName hnm
    rw [join_metadata host.env r hnm]
    exact h r fn hnm
  have hdir : ∀ n ∈ protectedMetadataPathNames, host.isDir (r.join host.env n) = false := by
    intro n hnm
    rw [isDir, hmiss n hnm]
    rfl
  have hgit : host.isFile (r.join host.env ".git".toList) = false := by
    rw [isFile, hmiss _ (by decide)]
    rfl
  have hcod : r.join host.env ".codex".toList = r ++ [codexName] :=
    @join_metadata host.env r codexName (by decide)
  unfold defaultReadOnlySubpathsForWritableRoot dedupAbsolutePaths
  dsimp only
  rw [hdir ".git".toList (by decide), hdir ".agents".toList (by decide),
    hdir ".codex".toList (by decide), hgit, hcod]
  cases pm <;> rfl

/-- The paths below `.codex` of a writable workspace for which there is no entry: they are
read-only by default although nothing is there yet. -/
def DefaultCodex (u : UrlOps) (host : Host) (pol : FileSystemSandboxPolicy)
    (cwd path : AbsolutePath) : Prop :=
  (∃ w ∈ pol.getWritableRootsWithCwd u host cwd, w.root = cwd) ∧
    hasExplicitResolvedPathEntry (pol.resolvedEntriesWithCwd host cwd) (cwd ++ [codexName]) =
      false ∧ cwd ++ [codexName] <+: path

/-- What the projection is about: a restricted policy on a host without links and metadata
directories, whose entries mean the same as URIs and natively.  Of a subpath of the workspace
this is asked only if it is not plain. -/
structure Setting (u : UrlOps) (host : Host) (pol : FileSystemSandboxPolicy)
    (cwd : AbsolutePath) : Prop where
  appends : u.AppendsPlain
  noLinks : NoLinks host
  noMetadata : NoMetadata host
  kind : pol.kind = .restricted
  notFullDisk : pol.hasFullDiskWriteAccess = false
  entries : PathUri.Lexical cwd → ∀ e ∈ pol.entries,
    (∃ p, e.path = .path (PathUri.fromAbsPath p)) ∨ e.path = .special .root ∨
      e.path = .special (.projectRoots none) ∨
      (∃ subpath, PlainSubpath subpath ∧
        e.path = .special (.projectRoots (some (relativeText subpath)))) ∨
      ∃ subpath, e.path = .special (.projectRoots (some subpath)) ∧ Agrees u host cwd e.path

namespace Setting

theorem exists_named (h : Setting u host pol cwd) (hcwd : Lexical cwd) :
    ∃ grants, Named u host pol cwd grants := by
  refine Permissions.exists_named fun e he => ?_
  rcases h.entries hcwd e he with ⟨p, hp⟩ | hp | hp | ⟨s, hplain, hp⟩ | ⟨s, -, hp⟩
  · rw [hp]
    exact agrees_path p
  · rw [hp]
    exact agrees_root hcwd
  · rw [hp]
    exact agrees_workspace
  · rw [hp]
    exact agrees_subpath h.appends hcwd hplain
  · exact hp

variable (h : Setting u host pol cwd) (hcwd : PathUri.Lexical cwd)
  (hnamed : Named u host pol cwd grants)
include h hcwd hnamed

theorem canWrite_iff (path : AbsolutePath) : pol.canWriteLocalPathWithCwd u host path cwd = true ↔
    Lexical path ∧ CanWriteAt grants path.names :=
  canWriteLocal_iff h.appends h.kind h.notFullDisk hcwd hnamed.eq

theorem cannotWrite_iff (hlex : Lexical path) :
    pol.canWriteLocalPathWithCwd u host path cwd = false ↔ ¬ CanWriteAt grants path.names := by
  rw [Bool.eq_false_iff, Ne, h.canWrite_iff hcwd hnamed, and_iff_right hlex]

/-- A root lets a path through as its place says, except below its default `.codex`. -/
theorem isPathWritable_iff (hp : Lexical path) :
    (pol.writableRootAt u host .effective cwd r).isPathWritable path = true ↔
      LetsThrough grants r.names path.names ∧
        ¬ (cwd = r ∧ hasExplicitResolvedPathEntry (pol.resolvedEntriesWithCwd host cwd)
          (r ++ [codexName]) = false ∧ r ++ [codexName] <+: path) := by
  have hiff {path} := @h.cannotWrite_iff _ _ _ _ path _ hcwd hnamed
  rw [Permissions.isPathWritable_iff]
  constructor
  · rintro ⟨hle, hsub, hnam⟩
    refine ⟨⟨names_le_iff.2 hle, ?_, ?_⟩, ?_⟩
    · rintro ⟨place, access⟩ hg hrd hcannot hund hne hcov
      obtain ⟨p, hlex, rfl, hres⟩ := (hnamed.mem place access).1 hg
      exact hsub p (h.noLinks.mem_readOnlySubpaths.2 (.inr ⟨⟨access, hrd, hres⟩,
        (hiff hlex).2 hcannot, names_le_iff.1 hund, fun heq => hne (congrArg names heq)⟩))
        (names_le_iff.1 hcov)
    · intro n hnm hund
      obtain ⟨fn, rfl⟩ := exists_metadataFileName hnm
      rw [← names_concat] at hund ⊢
      have hle' := names_le_iff.1 hund
      by_contra hcannot
      refine hnam fn hle' (h.noLinks.mem_protectedMetadataNames.2 ⟨hnm, ?_⟩)
      rw [join_metadata host.env r hnm]
      exact (hiff (hp.above hle')).2 hcannot
    · rintro ⟨rfl, hexp, hund⟩
      refine hsub (cwd ++ [codexName]) (h.noLinks.mem_readOnlySubpaths.2 (.inl ⟨?_, hexp⟩)) hund
      rw [defaultReadOnlySubpaths_eq h.noMetadata, beq_self_eq_true, if_pos rfl]
      exact mem_singleton_self _
  · rintro ⟨hlets, hcod⟩
    have hle := names_le_iff.1 hlets.below
    refine ⟨hle, fun sub hsub hcov => ?_, fun n hund hprot => ?_⟩
    · rcases h.noLinks.mem_readOnlySubpaths.1 hsub with
        ⟨hdef, hexp⟩ | ⟨⟨access, hrd, hres⟩, hcannot, hund, hne⟩
      · rw [defaultReadOnlySubpaths_eq h.noMetadata] at hdef
        by_cases heq : cwd = r
        · rw [heq, beq_self_eq_true, if_pos rfl, mem_singleton] at hdef
          rw [hdef] at hexp hcov
          exact hcod ⟨heq, hexp, hcov⟩
        · rw [beq_eq_false_iff_ne.2 heq] at hdef
          cases hdef
      · have hlex := hp.above hcov
        exact hlets.outside (sub.names, access) ((hnamed.mem _ _).2 ⟨sub, hlex, rfl, hres⟩) hrd
          ((hiff hlex).1 hcannot) (names_le_iff.2 hund)
          (fun heq => hne (names_injective heq)) (names_le_iff.2 hcov)
    · obtain ⟨hnm, hcannot⟩ := h.noLinks.mem_protectedMetadataNames.1 hprot
      rw [join_metadata host.env r hnm] at hcannot
      have hw := hlets.names n.text hnm (by
        rw [← names_concat]
        exact names_le_iff.2 hund)
      rw [← names_concat] at hw
      exact (hiff (hp.above hund)).1 hcannot hw

/-- A root is a native entry that the policy lets be written. -/
theorem exists_root {place : List Text} (hr : place ∈ writeRoots grants)
    (hw : CanWriteAt grants place) :
    ∃ r : AbsolutePath, place = r.names ∧
      pol.writableRootAt u host .effective cwd r ∈ pol.getWritableRootsWithCwd u host cwd := by
  obtain ⟨r, hlex, rfl, hres⟩ := (hnamed.mem _ _).1 (mem_writeRoots_iff.1 hr)
  refine ⟨r, rfl, (h.noLinks.mem_getWritableRoots h.notFullDisk).2 ⟨r, hres, ?_, rfl⟩⟩
  exact (h.canWrite_iff hcwd hnamed r).2 ⟨hlex, hw⟩

end Setting

section

variable {u : UrlOps} {host : Host} {policy : FileSystemSandboxPolicy} {cwd : AbsolutePath}
  {grants : List Grant}

/-- **The writable roots grant what the policy grants, except for metadata directories of
roots inside other roots.** -/
theorem writable_roots_agree_iff (h : Setting u host policy cwd) :
    (∀ path, PathUri.Lexical path → ¬ DefaultCodex u host policy cwd path →
      ((∃ w ∈ policy.getWritableRootsWithCwd u host cwd, w.isPathWritable path = true) ↔
        policy.canWriteLocalPathWithCwd u host path cwd = true)) ↔
      ¬ (PathUri.Lexical cwd ∧ ∃ grants, policy.grants u (localContext host cwd) = some grants ∧
        ∃ (outer inner : AbsolutePath) (name : FileName),
          Leaks grants outer.names inner.names name.text ∧
            ¬ DefaultCodex u host policy cwd (inner ++ [name])) := by
  by_cases hcwd : Lexical cwd
  · obtain ⟨grants, hnamed⟩ := h.exists_named hcwd
    have hcan := h.canWrite_iff hcwd hnamed
    constructor
    · rintro hagr ⟨-, grants', hgr', outer, inner, name, hleaks, hcod⟩
      obtain rfl := Option.some.inj (hnamed.eq.symm.trans hgr')
      -- The outer root lets the inner metadata directory through.
      have hinn : Lexical (inner ++ [name]) := by
        obtain ⟨r, hlex, heq, -⟩ := (hnamed.mem _ _).1 (mem_writeRoots_iff.1 hleaks.innerRoot)
        rw [names_injective heq]
        exact lexical_metadata hlex hleaks.nameMem
      obtain ⟨r, heq, hr⟩ := h.exists_root hcwd hnamed hleaks.outerRoot
        ((canWriteAt_root_iff hleaks.outerRoot).2 hleaks.outerNotDenied)
      obtain rfl := names_injective heq
      have hpas := hleaks.passes
      have hnot : ¬ CanWriteAt grants _ := fun hcan => hcan.metadata
        ⟨_, hleaks.firstProtects, not_opened_of_unconfigured hleaks.nothingThere⟩
      rw [← names_concat] at hpas hnot
      refine hnot ((hcan _).1 ((hagr _ hinn hcod).1 ⟨_, hr, ?_⟩)).2
      refine (h.isPathWritable_iff hcwd hnamed hinn).2 ⟨hpas, ?_⟩
      rintro ⟨rfl, hexp, hund⟩
      exact hcod ⟨⟨_, hr, rfl⟩, hexp, hund⟩
    · intro hnol path hp hcod
      constructor
      · rintro ⟨w, hw, hacc⟩
        obtain ⟨r, hres, hrootCan, rfl⟩ := (h.noLinks.mem_getWritableRoots h.notFullDisk).1 hw
        obtain ⟨hlex, hrootWrite⟩ := (h.canWrite_iff hcwd hnamed r).1 hrootCan
        have hr := mem_writeRoots_iff.2 ((hnamed.mem _ _).2 ⟨r, hlex, rfl, hres⟩)
        obtain ⟨hlets, -⟩ := (h.isPathWritable_iff hcwd hnamed hp).1 hacc
        rw [hcan]
        refine ⟨hp, ?_⟩
        by_contra hnot
        obtain ⟨inner, name, hleaks, hbel⟩ := leaks_of_letsThrough hr hrootWrite hlets hnot
        obtain ⟨ip, -, rfl, -⟩ := (hnamed.mem _ _).1 (mem_writeRoots_iff.1 hleaks.innerRoot)
        obtain ⟨fn, rfl⟩ := exists_metadataFileName hleaks.nameMem
        rw [← names_concat, names_le_iff] at hbel
        refine hnol ⟨hcwd, grants, hnamed.eq, r, ip, fn, hleaks, ?_⟩
        rintro ⟨hcwdRoot, hexp, hund⟩
        exact hcod ⟨hcwdRoot, hexp, hund.trans hbel⟩
      · intro hwr
        obtain ⟨place, hr, hrootWrite, hlets⟩ := letsThrough_of_canWriteAt ((hcan path).1 hwr).2
        obtain ⟨r, rfl, hmemRoot⟩ := h.exists_root hcwd hnamed hr hrootWrite
        refine ⟨_, hmemRoot, (h.isPathWritable_iff hcwd hnamed hp).2 ⟨hlets, ?_⟩⟩
        rintro ⟨rfl, hexp, hund⟩
        exact hcod ⟨⟨_, hmemRoot, rfl⟩, hexp, hund⟩
  · -- Without a lexical directory nothing can be written, and there are no roots.
    have hcannot (p) : policy.canWriteLocalPathWithCwd u host p cwd = false :=
      canWritePath_eq_false h.kind (convention_fromAbsPath cwd)
        (.inr (.inl (place_fromAbsPath_eq_none hcwd)))
    refine iff_of_true (fun path _ _ => ?_) fun hleak => hcwd hleak.1
    refine iff_of_false ?_ (by rw [hcannot]; decide)
    rintro ⟨w, hw, -⟩
    obtain ⟨r, -, hcan, -⟩ := (h.noLinks.mem_getWritableRoots h.notFullDisk).1 hw
    rw [hcannot] at hcan
    cases hcan

end

/-! ### A root inside a root -/

def fileNamed (text : Text) (valid : isFileName text = true) : FileName := ⟨text, valid⟩

def dirW : AbsolutePath := [fileNamed "w".toList (by decide)]

def dirSub : AbsolutePath := dirW ++ [fileNamed "sub".toList (by decide)]

def pathEntryAt (path : AbsolutePath) (access : FileSystemAccessMode) : FileSystemSandboxEntry :=
  ⟨.path (PathUri.fromAbsPath path), access, none⟩

def rootEntry (access : FileSystemAccessMode) : FileSystemSandboxEntry :=
  ⟨.special .root, access, none⟩

def oneRoot : FileSystemSandboxPolicy := .restricted [rootEntry .read, pathEntryAt dirW .write]

theorem one_root_agrees : Setting .encoding empty oneRoot [] ∧ ∀ path, PathUri.Lexical path →
    ¬ DefaultCodex .encoding empty oneRoot [] path →
      ((∃ w ∈ oneRoot.getWritableRootsWithCwd .encoding empty [], w.isPathWritable path = true) ↔
        oneRoot.canWriteLocalPathWithCwd .encoding empty path [] = true) := by
  have hset : Setting .encoding empty oneRoot [] := by
    refine ⟨UrlOps.encoding_appendsPlain, ⟨empty_followsLinks, fun path => by cases path <;> rfl⟩,
      fun dir n _ => if_neg (by simp), rfl, by decide, fun _ e he => ?_⟩
    rcases mem_cons.1 he with rfl | he
    · exact .inr (.inl rfl)
    · obtain rfl := mem_singleton.1 he
      exact .inl ⟨dirW, rfl⟩
  refine ⟨hset, (writable_roots_agree_iff hset).2 ?_⟩
  rintro ⟨-, grants, hgrants, o, i, name, hleaks, -⟩
  -- There is one write root, which does not lie below itself.
  have hroots : writeRoots grants = [dirW.names] := by
    have hgr' : oneRoot.grants .encoding (localContext empty []) =
        some [([], .read), (dirW.names, .write)] := by decide
    rw [Option.some.inj (hgrants.symm.trans hgr')]
    decide
  have hout := hleaks.outerRoot
  have hinn := hleaks.innerRoot
  rw [hroots, mem_singleton] at hout hinn
  exact hleaks.below.2 (hout.trans hinn.symm)

def nestedRoots : FileSystemSandboxPolicy :=
  .restricted [pathEntryAt dirW .write, pathEntryAt dirSub .write]

def allButW : FileSystemSandboxPolicy := .restricted [rootEntry .write, pathEntryAt dirW .read]

/-- Below `/w/sub/.git` the policy refuses what the root `/w` lets through.  A path that
starts like a drive is refused by the policy and let through by the root `/`. -/
theorem nested_root_leaks :
    nestedRoots.hasFullDiskWriteAccess = false ∧
      ((nestedRoots.getWritableRootsWithCwd .encoding empty []).any fun w =>
        w.isPathWritable (dirSub ++ [fileNamed ".git".toList (by decide)])) = true ∧
      nestedRoots.canWriteLocalPathWithCwd .encoding empty
        (dirSub ++ [fileNamed ".git".toList (by decide)]) [] = false ∧
      allButW.hasFullDiskWriteAccess = false ∧
      ((allButW.getWritableRootsWithCwd .encoding empty []).any fun w =>
        w.isPathWritable [fileNamed "C:".toList (by decide)]) = true ∧
      allButW.canWriteLocalPathWithCwd .encoding empty
        [fileNamed "C:".toList (by decide)] [] = false := by
  decide

end SushiGpt.Permissions
