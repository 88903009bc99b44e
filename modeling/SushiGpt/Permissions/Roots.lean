/-
What a policy comes to on the local host: `protocol/src/permissions.rs`.

A sandbox needs directories rather than a decision procedure, so the entries of a policy
are projected onto roots of the local file system: those that may be read, those that
may not, and those that may be written, each of the last with the paths below it that
stay read-only and the names that must not be created in it.  Resolving an entry here is
done with native paths, whereas deciding about a path goes through URIs; the two meet in
the local adapters, which ask the policy about the URI of a native path.

Two policies count as equivalent when their projections agree up to order.

Directories and paths are passed to the adapters as absolute paths.
-/
import SushiGpt.Paths.Host
import SushiGpt.Permissions.Policy
import Mathlib.Data.List.Destutter

namespace SushiGpt.Permissions

/-! ### The local context -/

variable (host : Host)

def localTemporaryDirectories : List PathUri :=
  match host.tmpdir with
  | none | some [] => []
  | some tmpdir => (AbsolutePath.fromAbsolutePath host.env tmpdir).toList.map PathUri.fromAbsPath

/-- The context of `with_local_policy_context`. -/
def localContext (cwd : AbsolutePath) : FileSystemSandboxPolicyContext where
  cwd := PathUri.fromAbsPath cwd
  workspaceRoots := [PathUri.fromAbsPath cwd]
  userHomeDir := (AbsolutePath.fromAbsolutePathChecked host.env ['~']).map PathUri.fromAbsPath
  temporaryDirectories := some (localTemporaryDirectories host)

def resolveFileSystemSpecialPath (value : FileSystemSpecialPath) (cwd : AbsolutePath) :
    Option AbsolutePath :=
  match value with
  | .root | .minimal | .unknown _ _ => none
  | .projectRoots (some subpath) =>
    some (AbsolutePath.resolvePathAgainstBase host.env subpath cwd)
  | .projectRoots none => some cwd
  | .tmpdir =>
    match host.tmpdir with
    | none | some [] => none
    | some tmpdir => AbsolutePath.fromAbsolutePath host.env tmpdir
  | .slashTmp =>
    (FileName.ofText? "tmp".toList).bind fun tmp => if host.isDir [tmp] then some [tmp] else none

def resolveEntryPath (path : FileSystemPath) (cwd : AbsolutePath) : Option AbsolutePath :=
  match path with
  | .special .root => some []
  | .path path => path.toAbsPath host.env
  | .globPattern _ => none
  | .special value => resolveFileSystemSpecialPath host value cwd

structure ResolvedFileSystemEntry where
  path : AbsolutePath
  access : FileSystemAccessMode

structure PreparedFileSystemEntry where
  entry : ResolvedFileSystemEntry
  effectivePath : AbsolutePath

/-! ### Writable roots -/

/-- A directory that may be written below, except in its read-only subpaths and under
its protected names. -/
structure WritableRoot where
  root : AbsolutePath
  readOnlySubpaths : List AbsolutePath
  protectedMetadataNames : List Text
  deriving DecidableEq

namespace WritableRoot

/-- The first component below the root is a protected name. -/
def pathContainsProtectedMetadataName (w : WritableRoot) (path : AbsolutePath) : Bool :=
  (path.drop w.root.length).head?.any fun first => w.protectedMetadataNames.contains first.text

def isPathWritable (w : WritableRoot) (path : AbsolutePath) : Bool :=
  decide (w.root <+: path) &&
    !(w.readOnlySubpaths.any fun subpath => decide (subpath <+: path)) &&
    !w.pathContainsProtectedMetadataName path

end WritableRoot

inductive WritableRootPathResolution where
  | effective
  | preserveMutableComponents

def WritableRootPathResolution.resolve : WritableRootPathResolution → AbsolutePath → AbsolutePath
  | effective => host.normalizeEffectiveAbsolutePath
  | preserveMutableComponents => host.normalizeTrustedTopLevelAlias

/-- `dedup_absolute_paths`: the first of equal paths stays. -/
def dedupAbsolutePaths (paths : List AbsolutePath) : List AbsolutePath := paths.eraseDups

/-- The metadata directories that are read-only below a root without any entry for them. -/
def defaultReadOnlySubpathsForWritableRoot (writableRoot : AbsolutePath)
    (protectMissingDotCodex : Bool) : List AbsolutePath :=
  let topLevelGit := writableRoot.join host.env ".git".toList
  let gitdir :=
    if host.isFile topLevelGit && host.isGitPointerFile topLevelGit then
      (host.resolveGitdirFromFile topLevelGit).toList
    else []
  let git :=
    if host.isDir topLevelGit || host.isFile topLevelGit then gitdir ++ [topLevelGit] else []
  let topLevelAgents := writableRoot.join host.env ".agents".toList
  let agents := if host.isDir topLevelAgents then [topLevelAgents] else []
  let topLevelCodex := writableRoot.join host.env ".codex".toList
  let codex :=
    if protectMissingDotCodex || host.isDir topLevelCodex then [topLevelCodex] else []
  dedupAbsolutePaths (git ++ agents ++ codex)

def hasExplicitResolvedPathEntry (entries : List ResolvedFileSystemEntry) (path : AbsolutePath) :
    Bool :=
  entries.any fun entry => entry.path == path

/-- Where a read-only entry cuts into a writable root.  The configured spelling is kept
where it lies below the root, directly or through one of the spellings of the root. -/
def carveoutPath (root : AbsolutePath) (rawWritableRoots : List AbsolutePath)
    (prepared : PreparedFileSystemEntry) : Option AbsolutePath :=
  let rawCarveoutPath :=
    if root = [] then none
    else if prepared.entry.path = root then none
    else if root <+: prepared.entry.path then some prepared.entry.path
    else
      rawWritableRoots.findSome? fun rawRoot =>
        if rawRoot <+: prepared.entry.path ∧ rawRoot ≠ prepared.entry.path then
          some (root.join host.env
            (AbsolutePath.relativeText (prepared.entry.path.drop rawRoot.length)))
        else none
  match rawCarveoutPath with
  | some path => some path
  | none =>
    if prepared.effectivePath = root ∨ ¬ root <+: prepared.effectivePath then none
    else some prepared.effectivePath

namespace FileSystemSandboxPolicy

/-! ### The local adapters -/

section Local

variable (u : UrlOps) (host : Host) (policy : FileSystemSandboxPolicy)

def resolveAccessForLocalPathWithCwd (path cwd : AbsolutePath) : FileSystemAccessMode :=
  policy.resolveAccess u (PathUri.fromAbsPath path) (localContext host cwd)

def canReadLocalPathWithCwd (path cwd : AbsolutePath) : Bool :=
  (policy.resolveAccessForLocalPathWithCwd u host path cwd).canRead

def canWriteLocalPathWithCwd (path cwd : AbsolutePath) : Bool :=
  policy.canWritePath u (PathUri.fromAbsPath path) (localContext host cwd)

def hasFullDiskReadAccess : Bool := policy.hasFullDiskReadAccessForConvention (some .posix)

def hasFullDiskWriteAccess : Bool := policy.hasFullDiskWriteAccessForConvention (some .posix)

def includePlatformDefaults : Bool :=
  !policy.hasFullDiskReadAccess && policy.kind == .restricted &&
    policy.entries.any fun entry => entry.path == .special .minimal && entry.access.canRead

variable (cwd : AbsolutePath)

def resolvedEntriesWithCwd : List ResolvedFileSystemEntry :=
  policy.entries.filterMap fun entry =>
    (resolveEntryPath host entry.path cwd).map fun path => ⟨path, entry.access⟩

/-! ### Roots -/

def getReadableRootsWithCwd : List AbsolutePath :=
  if policy.hasFullDiskReadAccess then []
  else
    dedupAbsolutePaths
      ((((policy.resolvedEntriesWithCwd host cwd).filter fun entry => entry.access.canRead).filter
        fun entry => policy.canReadLocalPathWithCwd u host entry.path cwd).map
          fun entry => host.normalizeEffectiveAbsolutePath entry.path)

/-- The names of metadata directories that cannot be written under any spelling of the
root. -/
def protectedMetadataNamesForWritableRoot (root : AbsolutePath)
    (rawWritableRoots : List AbsolutePath) (cwd : AbsolutePath) : List Text :=
  protectedMetadataPathNames.filter fun name =>
    (root :: rawWritableRoots).all fun base =>
      !policy.canWriteLocalPathWithCwd u host (base.join host.env name) cwd

/-- The entries whose access is also what the policy decides at their path. -/
def effectiveEntries : List ResolvedFileSystemEntry :=
  (policy.resolvedEntriesWithCwd host cwd).filter fun entry =>
    entry.access.canWrite == policy.canWriteLocalPathWithCwd u host entry.path cwd

def preparedEntries (resolution : WritableRootPathResolution) (cwd : AbsolutePath) :
    List PreparedFileSystemEntry :=
  (policy.effectiveEntries u host cwd).map fun entry => ⟨entry, resolution.resolve host entry.path⟩

def writableRootAt (resolution : WritableRootPathResolution) (cwd root : AbsolutePath) :
    WritableRoot :=
  let prepared := policy.preparedEntries u host resolution cwd
  let rawWritableRoots :=
    (prepared.filter fun p => p.entry.access.canWrite && p.effectivePath == root).map
      fun p => p.entry.path
  let protectMissingDotCodex := resolution.resolve host cwd == root
  let defaults :=
    (defaultReadOnlySubpathsForWritableRoot host root protectMissingDotCodex).filter fun path =>
      !hasExplicitResolvedPathEntry (policy.resolvedEntriesWithCwd host cwd) path
  let carveouts :=
    (prepared.filter fun p => !p.entry.access.canWrite).filterMap
      (carveoutPath host root rawWritableRoots)
  { root := root
    readOnlySubpaths := dedupAbsolutePaths (defaults ++ carveouts)
    protectedMetadataNames :=
      policy.protectedMetadataNamesForWritableRoot u host root rawWritableRoots cwd }

def getWritableRootsWithCwdImpl (resolution : WritableRootPathResolution) (cwd : AbsolutePath) :
    List WritableRoot :=
  if policy.hasFullDiskWriteAccess then []
  else
    (dedupAbsolutePaths
      (((policy.preparedEntries u host resolution cwd).filter fun p =>
        p.entry.access.canWrite).map fun p => p.effectivePath)).map
          (policy.writableRootAt u host resolution cwd)

def getWritableRootsWithCwd : List WritableRoot :=
  policy.getWritableRootsWithCwdImpl u host .effective cwd

def getWritableRootsWithCwdPreservingMutablePaths : List WritableRoot :=
  policy.getWritableRootsWithCwdImpl u host .preserveMutableComponents cwd

/-- The denied roots.  A denial of `/` is what a restricted policy starts from. -/
def getUnreadableRootsWithCwd : List AbsolutePath :=
  if policy.kind ≠ .restricted then []
  else
    dedupAbsolutePaths
      (((((policy.resolvedEntriesWithCwd host cwd).filter fun entry =>
        entry.access == .deny).filter fun entry =>
          !policy.canReadLocalPathWithCwd u host entry.path cwd).filter fun entry =>
            entry.path != []).map fun entry => host.normalizeEffectiveAbsolutePath entry.path)

def getUnreadableGlobsWithCwd : List Text :=
  if policy.kind ≠ .restricted then []
  else
    let patterns := (policy.entries.filter fun entry => entry.access == .deny).filterMap
      fun entry =>
        match entry.path with
        | .globPattern pattern =>
          some (AbsolutePath.resolvePathAgainstBase host.env pattern cwd).toText
        | _ => none
    (patterns.insertionSort (· ≤ ·)).destutter (· ≠ ·)

end Local

/-! ### Additional roots -/

/-- The policy with one more entry, for a native path. -/
def pushPath (policy : FileSystemSandboxPolicy) (path : AbsolutePath)
    (access : FileSystemAccessMode) : FileSystemSandboxPolicy :=
  { policy with entries := policy.entries ++ [⟨.path (PathUri.fromAbsPath path), access, none⟩] }

section AdditionalRoots

variable (u : UrlOps) (host : Host)

def addReadableRoot (cwd : AbsolutePath) (policy : FileSystemSandboxPolicy)
    (path : AbsolutePath) : FileSystemSandboxPolicy :=
  if policy.canReadLocalPathWithCwd u host path cwd then policy else policy.pushPath path .read

def addWritableRoot (cwd : AbsolutePath) (policy : FileSystemSandboxPolicy)
    (path : AbsolutePath) : FileSystemSandboxPolicy :=
  if policy.canWriteLocalPathWithCwd u host path cwd then policy else policy.pushPath path .write

variable (policy : FileSystemSandboxPolicy)

def withAdditionalReadableRoots (cwd : AbsolutePath) (additionalReadableRoots : List AbsolutePath) :
    FileSystemSandboxPolicy :=
  if policy.hasFullDiskReadAccess then policy
  else additionalReadableRoots.foldl (addReadableRoot u host cwd) policy

def withAdditionalWritableRoots (cwd : AbsolutePath) (additionalWritableRoots : List AbsolutePath) :
    FileSystemSandboxPolicy :=
  additionalWritableRoots.foldl (addWritableRoot u host cwd) policy

end AdditionalRoots

end FileSystemSandboxPolicy

/-! ### Equivalent policies -/

structure FileSystemSemanticSignature where
  hasFullDiskReadAccess : Bool
  hasFullDiskWriteAccess : Bool
  includePlatformDefaults : Bool
  readableRoots : List AbsolutePath
  writableRoots : List WritableRoot
  unreadableRoots : List AbsolutePath
  unreadableGlobs : List Text
  deriving DecidableEq

def sortedAbsolutePaths (paths : List AbsolutePath) : List AbsolutePath :=
  paths.insertionSort (· ≤ ·)

def sortedWritableRoot (w : WritableRoot) : WritableRoot where
  root := w.root
  readOnlySubpaths := sortedAbsolutePaths w.readOnlySubpaths
  protectedMetadataNames := (w.protectedMetadataNames.insertionSort (· ≤ ·)).destutter (· ≠ ·)

def sortedWritableRoots (roots : List WritableRoot) : List WritableRoot :=
  (roots.map sortedWritableRoot).insertionSort fun left right => left.root ≤ right.root

namespace FileSystemSandboxPolicy

variable (u : UrlOps) (host : Host) (policy : FileSystemSandboxPolicy)

def semanticSignature (cwd : AbsolutePath) : FileSystemSemanticSignature where
  hasFullDiskReadAccess := policy.hasFullDiskReadAccess
  hasFullDiskWriteAccess := policy.hasFullDiskWriteAccess
  includePlatformDefaults := policy.includePlatformDefaults
  readableRoots := sortedAbsolutePaths (policy.getReadableRootsWithCwd u host cwd)
  writableRoots := sortedWritableRoots (policy.getWritableRootsWithCwd u host cwd)
  unreadableRoots := sortedAbsolutePaths (policy.getUnreadableRootsWithCwd u host cwd)
  unreadableGlobs := policy.getUnreadableGlobsWithCwd host cwd

def isSemanticallyEquivalentTo (other : FileSystemSandboxPolicy) (cwd : AbsolutePath) : Bool :=
  policy.semanticSignature u host cwd == other.semanticSignature u host cwd

end FileSystemSandboxPolicy

end SushiGpt.Permissions
