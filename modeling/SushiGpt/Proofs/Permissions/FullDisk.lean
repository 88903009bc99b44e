/-
Access to the whole disk.

Two predicates answer for every path at once by looking at the entries of a policy, without
resolving them.  An entry that does not let be written is harmless when a write entry has the
very same target: at one place the stronger access decides.  So what has to be shown is that
entries with the same target have the same places (`exists_override`); the rest is the rule of
the most specific entry.
-/
import SushiGpt.Proofs.Paths.Join
import SushiGpt.Proofs.Permissions.WritableRoots

namespace SushiGpt.Permissions

open MostSpecific FileSystemSandboxPolicy PathUri List FileSystemAccessMode
open Option hiding any_eq_true

variable {u : UrlOps} {pol : FileSystemSandboxPolicy}
  {ctx : FileSystemSandboxPolicyContext} {path : PathUri} {p : List Text}
  {g : List Grant} {e : FileSystemSandboxEntry}

/-- A context of POSIX paths.  Bytes that are no URL are passed over. -/
structure PosixContext (ctx : FileSystemSandboxPolicyContext) : Prop where
  cwd : ctx.cwd.place.isSome = true
  workspaceRoots : ∀ root ∈ ctx.workspaceRoots,
    root.inferPathConvention = some .posix ∧ root.Readable
  temporaryDirectories : ∀ dir ∈ ctx.temporaryDirectories.getD [], dir.Readable

theorem PosixContext.convention (h : PosixContext ctx) :
    ctx.cwd.inferPathConvention = some .posix :=
  convention_of_isSome h.cwd

theorem posixContext_local {host : Host} {cwd : AbsolutePath} (hcwd : Lexical cwd) :
    PosixContext (localContext host cwd) where
  cwd := by
    show (fromAbsPath cwd).place.isSome = true
    rw [place_fromAbsPath hcwd]
    rfl
  workspaceRoots root hr := by
    rw [mem_singleton.mp hr]
    exact ⟨(fromAbsPath_readable cwd).1, fun _ => (fromAbsPath_readable cwd).2⟩
  temporaryDirectories dir hdir := by
    have hdir : dir ∈ localTemporaryDirectories host := hdir
    unfold localTemporaryDirectories at hdir
    split at hdir
    · cases hdir
    · cases hdir
    · obtain ⟨path, -, rfl⟩ := mem_map.mp hdir
      exact fun _ => (fromAbsPath_readable path).2

/-- The paths of the entries have a lexical depth. -/
def LexicalEntries (pol : FileSystemSandboxPolicy) : Prop :=
  ∀ entry ∈ pol.entries, ∀ path, entry.path = .path path → path.lexicalDepth.isSome = true

/-! ### The grants of a policy -/

/-- What the entries stand for in the context can be compared. -/
theorem readable_entryPaths (hu : u.AppendsNames) (hctx : PosixContext ctx)
    {target : FileSystemPath}
    (htgt : ∀ path, target = .path path → path.lexicalDepth.isSome = true) :
    ∀ uri ∈ entryPaths u ctx target, uri.Readable := by
  intro uri huri
  have hjoin {root : PathUri} {text : Text} (hcv : root.inferPathConvention = some .posix)
      (hr : root.Readable) (h : (root.join u text).toOption = some uri) : uri.Readable :=
    readable_join hu hcv hr (eq_ok_of_toOption h)
  cases target with
  | path path =>
    rw [mem_singleton.mp huri]
    exact readable_of_lexicalDepth (htgt path rfl)
  | globPattern pattern => cases huri
  | special value =>
    cases value with
    | root =>
      obtain ⟨root, hr, hpl⟩ := fileSystemRoot_place hctx.cwd
      unfold entryPaths at huri
      rw [hr] at huri
      rw [mem_singleton.mp huri]
      exact fun _ => .inl (by rw [hpl]; rfl)
    | minimal | unknown path subpath => cases huri
    | projectRoots subpath =>
      obtain ⟨root, hr, hmap⟩ := mem_filterMap.mp huri
      obtain ⟨hcv, hrd⟩ := hctx.workspaceRoots root hr
      cases subpath with
      | none => exact Option.some.inj hmap ▸ hrd
      | some subpath => exact hjoin hcv hrd hmap
    | tmpdir => exact hctx.temporaryDirectories uri huri
    | slashTmp =>
      unfold entryPaths at huri
      rw [if_pos hctx.convention] at huri
      exact hjoin hctx.convention (fun _ => .inl hctx.cwd) (mem_toList.mp huri)

theorem grants_isSome (hu : u.AppendsNames) (hctx : PosixContext ctx)
    (hents : LexicalEntries pol) : ∃ g, pol.grants u ctx = some g := by
  refine ⟨_, placed_eq_some_iff.mpr ⟨?_, rfl⟩⟩
  rintro ⟨uri, a⟩ hmem
  obtain ⟨e, he, -, huri, hcv⟩ := mem_resolvedEntries_iff.mp hmem
  exact readable_entryPaths hu hctx (hents e he) uri huri (hcv.trans hctx.convention)

theorem mem_grants (hcv : ctx.cwd.inferPathConvention = some .posix)
    (hgr : pol.grants u ctx = some g) {a : FileSystemAccessMode} :
    (p, a) ∈ g ↔
      ∃ e ∈ pol.entries, e.access = a ∧ ∃ uri ∈ entryPaths u ctx e.path, uri.place = some p := by
  obtain ⟨-, rfl⟩ := placed_eq_some_iff.mp hgr
  rw [mem_placesOf]
  constructor
  · rintro ⟨⟨uri, a'⟩, hmem, hpl, rfl⟩
    obtain ⟨e, he, hacc, huri, -⟩ := mem_resolvedEntries_iff.mp hmem
    exact ⟨e, he, hacc, uri, huri, hpl⟩
  · rintro ⟨e, he, hacc, uri, huri, hpl⟩
    exact ⟨(uri, a), mem_resolvedEntries_iff.mpr
      ⟨e, he, hacc, huri, (convention_of_place hpl).trans hcv.symm⟩,
      hpl, rfl⟩

/-! ### Entries with the same target -/

theorem same_of_posix {uri o : PathUri} (hcv : o.inferPathConvention = some .posix)
    (h : uri.same o = true) : uri = o := by
  unfold same at h
  rw [Bool.or_eq_true, windowsIdentity_of_posix hcv] at h
  rcases h with h | h
  · exact beq_iff_eq.mp h
  · cases hbyt : uri.windowsIdentityPathBytes <;> rw [hbyt] at h <;> cases h

/-- The special paths that stand for one place whatever the context. -/
def fixedPlace : FileSystemSpecialPath → Option (List Text)
  | .root => some []
  | .slashTmp => some ["tmp".toList]
  | _ => none

theorem place_of_matches {v : FileSystemSpecialPath} (hcv : path.inferPathConvention = some .posix)
    (h : specialPathMatchesPathUri v path = true) :
    ∃ p, fixedPlace v = some p ∧ path.place = some p := by
  have hpl {d : Nat} (hdep : path.lexicalDepth = some d) : ∃ p, path.place = some p := by
    rw [lexicalDepth_eq hcv] at hdep
    obtain ⟨p, hpl, -⟩ := map_eq_some_iff.mp hdep
    exact ⟨p, hpl⟩
  cases v with
  | root =>
    simp only [specialPathMatchesPathUri, Bool.and_eq_true] at h
    obtain ⟨d, hdep⟩ := isSome_iff_exists.mp h.1
    obtain ⟨p, hpl⟩ := hpl hdep
    exact ⟨[], rfl, place_of_parent_isNone hpl h.2 ▸ hpl⟩
  | slashTmp =>
    simp only [specialPathMatchesPathUri, Bool.and_eq_true, beq_iff_eq] at h
    obtain ⟨p, hpl⟩ := hpl h.1.2
    exact ⟨_, rfl, place_of_basename hpl h.1.2 h.2 (by decide) ▸ hpl⟩
  | _ => cases h

section

variable (hcwd : ctx.cwd.place.isSome = true)

include hcwd

theorem entryPaths_of_fixedPlace (hu : u.AppendsPlain)
    {value : FileSystemSpecialPath} (h : fixedPlace value = some p) :
    ∃ uri, entryPaths u ctx (.special value) = [uri] ∧ uri.place = some p := by
  cases value with
  | root =>
    obtain ⟨root, hr, hpl⟩ := fileSystemRoot_place hcwd
    exact ⟨root, congrArg Option.toList hr, hpl.trans h⟩
  | slashTmp =>
    have hcv := convention_of_isSome hcwd
    obtain ⟨uri, huri, hpl⟩ := join_slashTmp hu hcv
    refine ⟨uri, ?_, hpl.trans h⟩
    unfold entryPaths
    rw [if_pos hcv, huri]
    rfl
  | _ => cases h

/-- A place of one entry is a place of every entry with the same target. -/
theorem exists_shared_place (hu : u.AppendsPlain)
    {left right : FileSystemPath} (hshare : fileSystemPathsShareTarget left right .posix = true)
    {uri : PathUri} (huri : uri ∈ entryPaths u ctx right) (hpl : uri.place = some p) :
    ∃ o ∈ entryPaths u ctx left, o.place = some p := by
  have hspec {v : FileSystemSpecialPath} {path : PathUri}
      (h : (path.inferPathConvention == some .posix && specialPathMatchesPathUri v path) = true) :
      ∃ p uri, path.place = some p ∧ uri.place = some p ∧
        entryPaths u ctx (.special v) = [uri] := by
    rw [Bool.and_eq_true, beq_iff_eq] at h
    obtain ⟨f, hfix, hp⟩ := place_of_matches h.1 h.2
    obtain ⟨uri, hpaths, huri⟩ := entryPaths_of_fixedPlace hcwd hu hfix
    exact ⟨f, uri, hp, huri, hpaths⟩
  cases right with
  | path right =>
    obtain rfl := mem_singleton.mp huri
    cases left with
    | path left =>
      obtain rfl := same_of_posix (convention_of_place hpl) hshare
      exact ⟨left, mem_singleton_self left, hpl⟩
    | globPattern pat => cases hshare
    | special v =>
      obtain ⟨f, o, hfix, ho, hpaths⟩ := hspec hshare
      refine ⟨o, hpaths ▸ mem_singleton_self o, ?_⟩
      rw [ho, ← hfix, hpl]
  | globPattern pat => cases huri
  | special v =>
    cases left with
    | path left =>
      obtain ⟨f, o, hfix, ho, hpaths⟩ := hspec hshare
      rw [hpaths, mem_singleton] at huri
      refine ⟨left, mem_singleton_self left, ?_⟩
      rw [hfix, ← ho, ← huri, hpl]
    | globPattern pat => cases hshare
    | special o =>
      have hsame : o = v := by
        revert hshare
        cases o <;> cases v <;> simp [fileSystemPathsShareTarget, specialPathsShareTarget]
      exact ⟨uri, hsame ▸ huri, hpl⟩

/-! ### Writing -/

variable (hgr : pol.grants u ctx = some g)

include hgr

theorem mem_of_hasRootAccess {pre : FileSystemAccessMode → Bool}
    (h : pol.hasRootAccess pre = true) : ∃ a, pre a = true ∧ ([], a) ∈ g := by
  unfold hasRootAccess at h
  rw [Bool.and_eq_true, any_eq_true] at h
  obtain ⟨-, e, he, h⟩ := h
  rw [Bool.and_eq_true, beq_iff_eq] at h
  obtain ⟨r, hr, hpl⟩ := fileSystemRoot_place hcwd
  refine ⟨e.access, h.2, (mem_grants (convention_of_isSome hcwd) hgr).mpr ⟨e, he, rfl, r, ?_, hpl⟩⟩
  rw [h.1]
  exact mem_toList.mpr hr

/-- With access to the root every place is decided by some entry. -/
theorem exists_entry_decides {pre : FileSystemAccessMode → Bool}
    (h : pol.hasRootAccess pre = true) (p : List Text) :
    ∃ r, ∃ e ∈ pol.entries, Decides g p (r, e.access) ∧
      ∃ uri ∈ entryPaths u ctx e.path, uri.place = some r := by
  obtain ⟨a, -, hmem⟩ := mem_of_hasRootAccess hcwd hgr h
  obtain ⟨⟨r, d⟩, hdec⟩ := exists_decides g ⟨_, hmem, List.nil_prefix (l := p)⟩
  obtain ⟨e, he, rfl, huri⟩ := (mem_grants (convention_of_isSome hcwd) hgr).mp hdec.mem
  exact ⟨r, e, he, hdec, huri⟩

/-- An entry that takes nothing away from a grant of the whole disk is weaker than a write entry
at each of its places. -/
theorem exists_override (hu : u.AppendsPlain) (hr : pol.hasRootAccess canWrite = true)
    (hw : e.access ≠ .write) (hnar : pol.narrowsWrite .posix e = false) {uri : PathUri}
    (huri : uri ∈ entryPaths u ctx e.path) (hpl : uri.place = some p) :
    e.access < .write ∧ (p, .write) ∈ g := by
  have hover (h : pol.hasSameTargetWriteOverride e .posix = true) :
      e.access < .write ∧ (p, .write) ∈ g := by
    obtain ⟨candidate, hcan, h⟩ := any_eq_true.mp h
    simp only [Bool.and_eq_true, decide_eq_true_eq, canWrite_iff] at h
    obtain ⟨⟨hacc, hlt⟩, hshare⟩ := h
    obtain ⟨other, ho, hotherPlace⟩ := exists_shared_place hcwd hu hshare huri hpl
    rw [hacc] at hlt
    exact ⟨hlt, (mem_grants (convention_of_isSome hcwd) hgr).mpr
      ⟨candidate, hcan, hacc, other, ho, hotherPlace⟩⟩
  have hcannot : e.access.canWrite = false := canWrite_eq_false_iff.mpr hw
  unfold narrowsWrite at hnar
  rw [hcannot, if_neg Bool.false_ne_true] at hnar
  cases htgt : e.path with
  | path path =>
    rw [htgt] at hnar
    exact hover (by simpa using hnar)
  | globPattern pattern =>
    rw [htgt] at huri
    cases huri
  | special value =>
    rw [htgt] at hnar huri
    cases value with
    | root =>
      have hrd : e.access < .write := by
        have hdn : e.access ≠ .deny := by simpa using hnar
        revert hw hdn
        cases e.access <;> decide
      obtain ⟨root, hfix, hrootPlace⟩ := entryPaths_of_fixedPlace hcwd hu
        (show fixedPlace .root = some [] from rfl)
      rw [hfix, mem_singleton] at huri
      obtain ⟨access, hacc, hmem⟩ := mem_of_hasRootAccess hcwd hgr hr
      rw [huri, hrootPlace] at hpl
      rw [← Option.some.inj hpl]
      exact ⟨hrd, canWrite_iff.mp hacc ▸ hmem⟩
    | minimal | unknown path subpath => cases huri
    | slashTmp | projectRoots subpath | tmpdir => exact hover (by simpa using hnar)

omit hcwd hgr in
theorem fullDiskWrite_iff (hk : pol.kind = .restricted)
    (hcv : ctx.cwd.inferPathConvention = some .posix) :
    pol.hasFullDiskWriteAccessWithContext ctx = true ↔ pol.hasRootAccess canWrite = true ∧
      ∀ e ∈ pol.entries, pol.narrowsWrite .posix e = false := by
  unfold hasFullDiskWriteAccessWithContext hasFullDiskWriteAccessForConvention
  rw [hk, hcv]
  simp only [Bool.and_eq_true, Bool.not_eq_true', hasWriteNarrowingEntries, hk,
    beq_self_eq_true, Bool.true_and, List.any_eq_false, Bool.not_eq_true]

/-- Full access for writing is what the grants give everywhere. -/
theorem accessAt_of_fullDiskWrite (hu : u.AppendsPlain) (hki : pol.kind = .restricted)
    (h : pol.hasFullDiskWriteAccessWithContext ctx = true) (p : List Text) :
    accessAt (some g) p = .write := by
  obtain ⟨hr, hents⟩ := (fullDiskWrite_iff hki (convention_of_isSome hcwd)).mp h
  obtain ⟨r, e, he, hdec, uri, huri, hpl⟩ := exists_entry_decides hcwd hgr hr p
  refine (accessAt_of_decides hdec).trans ?_
  by_contra hne
  obtain ⟨hlt, hw⟩ := exists_override hcwd hgr hu hr hne (hents e he) huri hpl
  exact hdec.top _ hw hdec.covers (.inr ⟨rfl, hlt⟩)

/-! ### Reading -/

omit hcwd hgr in
theorem fullDiskRead_cases (hk : pol.kind = .restricted) (h : pol.hasFullDiskReadAccess = true) :
    pol.hasRootAccess canRead = true ∧ ∀ e ∈ pol.entries, e.access ≠ .deny := by
  unfold hasFullDiskReadAccess hasFullDiskReadAccessForConvention at h
  simp only [Bool.and_eq_true, Bool.not_eq_true',
    hasDeniedReadRestrictionsForConvention, hk, beq_self_eq_true,
    Bool.true_and] at h
  refine ⟨h.1, fun e he hdn => ?_⟩
  have := any_eq_false.mp h.2 e he
  simp [hdn] at this

theorem accessAt_of_fullDiskRead (hk : pol.kind = .restricted)
    (h : pol.hasFullDiskReadAccess = true) (p : List Text) :
    (accessAt (some g) p).canRead = true := by
  obtain ⟨hr, hents⟩ := fullDiskRead_cases hk h
  obtain ⟨r, e, he, hdec, -⟩ := exists_entry_decides hcwd hgr hr p
  rw [accessAt_of_decides hdec, canRead_iff]
  exact hents e he

end

/-- A policy that denies nothing matches no deny rule. -/
theorem not_matchesPreparedReadDeny (gs : GlobOps) (hctx : PosixContext ctx)
    (hp : path.place.isSome = true) (hents : ∀ e ∈ pol.entries, e.access ≠ .deny) :
    matchesPreparedReadDeny u path ctx (pol.prepareDenyReadMatcher u gs ctx) = false := by
  obtain ⟨k, hk⟩ := isSome_iff_exists.mp hp
  obtain ⟨c, hc⟩ := isSome_iff_exists.mp hctx.cwd
  have hroots : pol.deniedRoots u ctx = [] := by
    unfold deniedRoots
    rw [map_eq_nil_iff, List.filter_filter, filter_eq_nil_iff]
    rintro ⟨uri, a⟩ hmem hdn
    obtain ⟨e, he, hacc, -⟩ := mem_resolvedEntries_iff.mp hmem
    exact hents e he (hacc.trans (beq_iff_eq.mp (Bool.and_eq_true_iff.mp hdn).2))
  have hpats : pol.denyReadPatterns = [] := by
    unfold denyReadPatterns
    rw [filterMap_eq_nil_iff]
    intro e he
    cases e.path with
    | path path | special v => rfl
    | globPattern pat => exact if_neg (by simpa using hents e he)
  rw [matchesPreparedReadDeny_of_no_globs hc hk hpats, hroots, any_nil]

section

variable {u : UrlOps} {policy : FileSystemSandboxPolicy} {context : FileSystemSandboxPolicyContext}
  {path : PathUri} {g : List Grant}

/-- **Access to the whole disk is access to every path.** -/
theorem fullDiskAccess_sound (hu : u.AppendsPlain) (hnames : u.AppendsNames) (globs : GlobOps)
    (hkind : policy.kind = .restricted) (hentries : LexicalEntries policy)
    (hcontext : PosixContext context) (hconv : path.inferPathConvention = some .posix)
    (hdepth : path.lexicalDepth.isSome = true) :
    (policy.hasFullDiskWriteAccessWithContext context = true →
      policy.resolveAccess u path context = .write) ∧
    (policy.hasFullDiskReadAccess = true →
      (policy.resolveAccess u path context).canRead = true ∧
        FileSystemSandboxPolicy.matchesPreparedReadDeny u path context
          (policy.prepareDenyReadMatcher u globs context) = false) := by
  rw [lexicalDepth_eq hconv, isSome_map] at hdepth
  obtain ⟨k, hk⟩ := isSome_iff_exists.mp hdepth
  obtain ⟨g, hgr⟩ := grants_isSome hnames hcontext hentries
  rw [resolveAccess_eq hkind hcontext.cwd hk, hgr]
  constructor
  · exact fun h => accessAt_of_fullDiskWrite hcontext.cwd hgr hu hkind h k
  · intro h
    exact ⟨accessAt_of_fullDiskRead hcontext.cwd hgr hkind h k,
      not_matchesPreparedReadDeny globs hcontext hdepth (fullDiskRead_cases hkind h).2⟩

end

def dirTmp : AbsolutePath := [fileNamed "tmp".toList (by decide)]

/-- Everything may be written; `/tmp` is read-only and, under its other name, writable. -/
def shadowedTmp : FileSystemSandboxPolicy :=
  .restricted [rootEntry .write, pathEntryAt dirTmp .read, ⟨.special .slashTmp, .write, none⟩]

theorem shadowedTmp_fullDisk :
    shadowedTmp.hasFullDiskWriteAccessWithContext (localContext Host.empty []) = true ∧
      shadowedTmp.resolveAccess .encoding (PathUri.fromAbsPath dirTmp)
        (localContext Host.empty []) = .write := by
  have hents : LexicalEntries shadowedTmp := by
    intro e he path hp
    simp only [shadowedTmp, restricted, mem_cons, not_mem_nil, or_false] at he
    rcases he with rfl | rfl | rfl
    · cases hp
    · cases hp
      decide
    · cases hp
  exact ⟨by decide, (fullDiskAccess_sound UrlOps.encoding_appendsPlain
    UrlOps.encoding_appendsNames ⟨fun _ _ _ => none⟩ rfl hents
    (posixContext_local lexical_nil) (by decide) (by decide)).1 (by decide)⟩

end SushiGpt.Permissions
