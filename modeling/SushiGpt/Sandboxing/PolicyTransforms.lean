/-
Intersecting permission profiles: `sandboxing/src/policy_transforms.rs`.

A command asks for additional permissions and the user grants some.  What it gets is the
intersection: of the granted entries those are accepted that the request covers at their
own path, and of both sides those denials are retained that touch an accepted entry.
-/
import SushiGpt.Permissions.ReadDeny

namespace SushiGpt.Sandboxing

open Permissions

structure NetworkPermissions where
  enabled : Option Bool

/-- The scan depth of globs is positive when there is one. -/
structure FileSystemPermissions where
  entries : List FileSystemSandboxEntry
  globScanMaxDepth : Option Nat

structure AdditionalPermissionProfile where
  network : Option NetworkPermissions
  fileSystem : Option FileSystemPermissions

/-! ### Scan depths -/

inductive GlobScanDepth where
  | bounded (depth : Nat)
  | unbounded

def effectiveGlobScanDepth (entries : List FileSystemSandboxEntry) (depth : Option Nat) :
    Option GlobScanDepth :=
  let hasDenyGlob := entries.any fun entry =>
    entry.access == .deny &&
      match entry.path with
      | .globPattern _ => true
      | _ => false
  if hasDenyGlob then
    some (match depth with
      | some depth => .bounded depth
      | none => .unbounded)
  else none

def mergeGlobScanMaxDepth (leftEntries : List FileSystemSandboxEntry) (leftDepth : Option Nat)
    (rightEntries : List FileSystemSandboxEntry) (rightDepth : Option Nat) : Option Nat :=
  match effectiveGlobScanDepth leftEntries leftDepth,
      effectiveGlobScanDepth rightEntries rightDepth with
  | some .unbounded, _ | _, some .unbounded => none
  | some (.bounded left), some (.bounded right) => some (max left right)
  | some (.bounded depth), none | none, some (.bounded depth) => some depth
  | none, none => none

/-! ### Paths of entries -/

variable (u : UrlOps) (entry : FileSystemSandboxEntry) (context : FileSystemSandboxPolicyContext)

def isRootEntry : Bool := entry.path == .special .root

/-- Whether the requested access includes the granted one. -/
def accessCovers (requested : FileSystemAccessMode) : FileSystemAccessMode → Bool
  | .read => requested.canRead
  | .write => requested.canWrite
  | .deny => false

/-- The one path an entry is about, where there is one. -/
def resolvePermissionPath (path : FileSystemPath) (context : FileSystemSandboxPolicyContext) :
    Option PathUri :=
  match path with
  | .path path => some path
  | .globPattern _ => none
  | .special .root => fileSystemRoot context
  | .special (.projectRoots subpath) => do
    let root ← context.workspaceRoots.head?
    match subpath with
    | some subpath => (root.join u subpath).toOption
    | none => some root
  | .special .tmpdir => do
    let directories ← context.temporaryDirectories
    directories.head?
  | .special .slashTmp =>
    if context.cwd.inferPathConvention = some .posix then
      (context.cwd.join u "/tmp".toList).toOption
    else none
  | .special .minimal | .special (.unknown _ _) => none

/-- Home-relative glob text after `~` and its separator. -/
def homeRelativePattern (isWindows : Bool) : Text → Option Text
  | ['~'] => some []
  | '~' :: '/' :: rest => some rest
  | '~' :: '\\' :: rest => if isWindows then some rest else none
  | _ => none

def materializeCwdDependentEntry : Option FileSystemSandboxEntry :=
  match entry.path with
  | .globPattern pattern => do
    let isWindows := context.cwd.inferPathConvention == some .windows
    let (root, pattern) ← match homeRelativePattern isWindows pattern with
      | some suffix => do
        let home ← context.userHomeDir
        pure (home, suffix.dropWhile fun c => c == '/' || (isWindows && c == '\\'))
      | none => some (context.cwd, pattern)
    let path ← (root.join u pattern).toOption
    pure { entry with path := .globPattern (u.nativeString path) }
  | _ => some entry

def materializedPathEntry (path : PathUri) : FileSystemSandboxEntry :=
  { entry with path := .path path }

/-- The path of one entry below each workspace root.  A denial must have one for every
root. -/
def materializeForRoots (u : UrlOps) (entry : FileSystemSandboxEntry)
    (context : FileSystemSandboxPolicyContext) :
    List PathUri → Option (List FileSystemSandboxEntry)
  | [] => some []
  | root :: rest =>
    match resolvePermissionPath u entry.path { context with workspaceRoots := [root] } with
    | some path =>
      (materializeForRoots u entry context rest).map (materializedPathEntry entry path :: ·)
    | none =>
      if entry.access == .deny then none else materializeForRoots u entry context rest

/-- The entries one entry becomes in the context. -/
def materializeEntry : Option (List FileSystemSandboxEntry) :=
  match entry.path with
  | .special (.projectRoots _) => do
    let resolved ← materializeForRoots u entry context context.workspaceRoots
    if entry.access == .deny && resolved.isEmpty then none else some resolved
  | .special .tmpdir =>
    match context.temporaryDirectories with
    | none => if entry.access == .deny then none else some [entry]
    | some directories => some (directories.map (materializedPathEntry entry))
  | .special .root =>
    if (resolvePermissionPath u entry.path context).isSome then some [entry] else none
  | _ =>
    match materializeCwdDependentEntry u entry context with
    | some entry => some [entry]
    | none => if entry.access == .deny then none else some []

def materializeContextDependentEntries (u : UrlOps) (context : FileSystemSandboxPolicyContext) :
    List FileSystemSandboxEntry → Option (List FileSystemSandboxEntry)
  | [] => some []
  | entry :: rest => do
    let made ← materializeEntry u entry context
    let more ← materializeContextDependentEntries u context rest
    pure (made ++ more)

/-! ### Accepting grants and retaining denials -/

def grantedFileSystemEntryWithinRequest (requested : FileSystemPermissions)
    (requestedPolicy : FileSystemSandboxPolicy)
    (requestedReadDenyMatcher : Option PreparedReadDenyMatcher)
    (grantedEntry : FileSystemSandboxEntry) (context : FileSystemSandboxPolicyContext) : Bool :=
  if !grantedEntry.access.canRead ||
      (grantedEntry.path == .special .slashTmp &&
        context.cwd.inferPathConvention != some .posix) then false
  else if context.cwd.inferPathConvention == some .windows && isRootEntry grantedEntry &&
      !requested.entries.any (fun requestedEntry =>
        isRootEntry requestedEntry && accessCovers requestedEntry.access grantedEntry.access)
    then false
  else match resolvePermissionPath u grantedEntry.path context with
    | some path =>
      if path.inferPathConvention ≠ context.cwd.inferPathConvention ∨
          requestedReadDenyMatcher.any
            (FileSystemSandboxPolicy.matchesPreparedReadDeny u path context) then false
      else accessCovers (requestedPolicy.resolveAccess u path context) grantedEntry.access
    | none =>
      requested.entries.any fun requestedEntry =>
        accessCovers requestedEntry.access grantedEntry.access &&
          requestedEntry.path.same grantedEntry.path

def pathsOverlap (left right : PathUri) : Bool := (left.overlaps right).getD true

/-- The directory the wildcard part of a glob starts in. -/
def globStaticPrefixPath (pattern : Text) (context : FileSystemSandboxPolicyContext) :
    Option PathUri := do
  let isWindows := context.cwd.inferPathConvention == some .windows
  let isWildcard := fun c => c == '*' || c == '?' || c == '[' || c == ']'
  let staticPart := pattern.takeWhile fun c => !isWildcard c
  if staticPart = [] ∧ pattern.any isWildcard then none
  else
    let path ← (context.cwd.join u staticPart).toOption
    let wildcardInSegment := pattern.any isWildcard &&
      !(staticPart.getLast? == some '/' || (isWindows && staticPart.getLast? == some '\\'))
    if wildcardInSegment then path.parent else some path

/-- The denial is about something inside or around an accepted grant. -/
def denyEntryConstrainsAcceptedGrant (denyEntry : FileSystemSandboxEntry)
    (acceptedEntries : List FileSystemSandboxEntry) (context : FileSystemSandboxPolicyContext) :
    Bool :=
  (acceptedEntries.filter fun entry => entry.access.canRead).any fun entry =>
    if isRootEntry entry then true
    else match resolvePermissionPath u entry.path context with
      | none => true
      | some grantPath =>
        match denyEntry.path with
        | .globPattern pattern =>
          match globStaticPrefixPath u pattern context with
          | none => true
          | some staticPath => pathsOverlap staticPath grantPath
        | path =>
          match resolvePermissionPath u path context with
          | none => true
          | some denyPath => pathsOverlap denyPath grantPath

/-- `contains` on a vector of entries. -/
def containsEntry (entries : List FileSystemSandboxEntry) (entry : FileSystemSandboxEntry) : Bool :=
  entries.any (·.same entry)

def pushIfMissing (entries : List FileSystemSandboxEntry) (entry : FileSystemSandboxEntry) :
    List FileSystemSandboxEntry :=
  if containsEntry entries entry then entries else entries ++ [entry]

/-- The denials of one side that constrain what was accepted. -/
def retainedDenyEntries (sourceEntries acceptedEntries : List FileSystemSandboxEntry)
    (context : FileSystemSandboxPolicyContext) : List FileSystemSandboxEntry :=
  (sourceEntries.filter fun entry => entry.access == .deny).filter fun entry =>
    denyEntryConstrainsAcceptedGrant u entry acceptedEntries context

/-- The granted entries within the request, each once. -/
def acceptedEntries (globs : GlobOps) (requested : FileSystemPermissions)
    (requestedEntries grantedEntries : List FileSystemSandboxEntry)
    (context : FileSystemSandboxPolicyContext) : List FileSystemSandboxEntry :=
  let requestedPolicy := FileSystemSandboxPolicy.restricted requestedEntries
  let matcher := requestedPolicy.readDenyMatcher u globs context
  (grantedEntries.filter fun entry =>
    grantedFileSystemEntryWithinRequest u requested requestedPolicy matcher entry
      context).foldl pushIfMissing []

def intersectFileSystem (globs : GlobOps) (requested granted : FileSystemPermissions)
    (context : FileSystemSandboxPolicyContext) : Option FileSystemPermissions := do
  let requestedEntries ← materializeContextDependentEntries u context requested.entries
  let grantedEntries ← materializeContextDependentEntries u context granted.entries
  let accepted := acceptedEntries u globs requested requestedEntries grantedEntries context
  let requestedRetained := retainedDenyEntries u requestedEntries accepted context
  let grantedRetained := retainedDenyEntries u grantedEntries accepted context
  pure {
    entries :=
      grantedRetained.foldl pushIfMissing (requestedRetained.foldl pushIfMissing accepted)
    globScanMaxDepth := (mergeGlobScanMaxDepth requestedRetained requested.globScanMaxDepth
      grantedRetained granted.globScanMaxDepth).filter (0 < ·) }

def intersectPermissionProfilesWithContext (globs : GlobOps)
    (requested granted : AdditionalPermissionProfile) (context : FileSystemSandboxPolicyContext) :
    AdditionalPermissionProfile where
  network :=
    match requested.network, granted.network with
    | some ⟨some true⟩, some ⟨some true⟩ => some ⟨some true⟩
    | _, _ => none
  fileSystem :=
    (requested.fileSystem.bind fun requestedFileSystem =>
      intersectFileSystem u globs requestedFileSystem (granted.fileSystem.getD ⟨[], none⟩)
        context).filter fun fileSystem => !fileSystem.entries.isEmpty

end SushiGpt.Sandboxing
