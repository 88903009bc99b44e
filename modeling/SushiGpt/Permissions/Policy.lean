/-
Filesystem permissions: `protocol/src/permissions.rs`.

A restricted policy is a list of entries, each of which gives one access mode to a path
and to everything below it.  Where entries overlap the most specific one decides, and
between equally specific ones the access mode that comes last in the order read, write,
deny.  Paths are URIs, because the policy may be about another machine; symbolic paths
(the root, the workspace roots, the temporary directories) are looked up in a context.

Writes are narrowed once more: below a writable root the directories `.git`, `.agents`
and `.codex` stay protected unless some write entry reaches into them.
-/
import SushiGpt.Paths.PathUri
import Mathlib.Order.Lattice.Nat

namespace SushiGpt.Permissions

inductive FileSystemAccessMode where
  | read
  | write
  | deny
  deriving DecidableEq

namespace FileSystemAccessMode

/-- The place in the order by which equally specific entries are settled. -/
def precedence : FileSystemAccessMode → Nat
  | read => 0
  | write => 1
  | deny => 2

instance : LinearOrder FileSystemAccessMode := LinearOrder.lift' precedence <| by
  intro a b h
  cases a <;> cases b <;> first | rfl | cases h

def canRead : FileSystemAccessMode → Bool
  | deny => false
  | _ => true

def canWrite : FileSystemAccessMode → Bool
  | write => true
  | _ => false

end FileSystemAccessMode

inductive FileSystemSpecialPath where
  | root
  | minimal
  | projectRoots (subpath : Option Text)
  | tmpdir
  | slashTmp
  | unknown (path : Text) (subpath : Option Text)
  deriving DecidableEq

inductive FileSystemPath where
  | path (path : PathUri)
  | globPattern (pattern : Text)
  | special (value : FileSystemSpecialPath)
  deriving DecidableEq

/-- Equality of paths as the source derives it from equality of URIs. -/
def FileSystemPath.same : FileSystemPath → FileSystemPath → Bool
  | path left, path right => left.same right
  | left, right => left == right

inductive MissingPathBehavior where
  | skip
  deriving DecidableEq

structure FileSystemSandboxEntry where
  path : FileSystemPath
  access : FileSystemAccessMode
  missingPathBehavior : Option MissingPathBehavior
  deriving DecidableEq

def FileSystemSandboxEntry.same (left right : FileSystemSandboxEntry) : Bool :=
  left.path.same right.path && left.access == right.access &&
    left.missingPathBehavior == right.missingPathBehavior

inductive FileSystemSandboxKind where
  | restricted
  | unrestricted
  | externalSandbox
  deriving DecidableEq

structure FileSystemSandboxPolicy where
  kind : FileSystemSandboxKind
  globScanMaxDepth : Option Nat
  entries : List FileSystemSandboxEntry

/-- The paths of the machine the policy is about. -/
structure FileSystemSandboxPolicyContext where
  cwd : PathUri
  workspaceRoots : List PathUri
  userHomeDir : Option PathUri
  temporaryDirectories : Option (List PathUri)

/-- The directories that stay protected below a writable root. -/
def protectedMetadataPathNames : List Text :=
  [".git".toList, ".agents".toList, ".codex".toList]

/-- The root of the file system the context's directory lies in. -/
def fileSystemRoot (context : FileSystemSandboxPolicyContext) : Option PathUri :=
  if context.cwd.lexicalDepth.isSome then some context.cwd.lastAncestor else none

/-! ### Entries with one target

Whether two entries are about the very same place, before anything is resolved. -/

def specialPathMatchesPathUri (value : FileSystemSpecialPath) (path : PathUri) : Bool :=
  match value with
  | .root => path.lexicalDepth.isSome && path.parent.isNone
  | .slashTmp =>
    path.inferPathConvention == some .posix && path.lexicalDepth == some 1 &&
      path.basename == some "tmp".toList
  | _ => false

def specialPathsShareTarget : FileSystemSpecialPath → FileSystemSpecialPath → Bool
  | .root, .root | .minimal, .minimal | .tmpdir, .tmpdir | .slashTmp, .slashTmp => true
  | .projectRoots left, .projectRoots right => left == right
  | .unknown left leftSubpath, .unknown right rightSubpath =>
    left == right && leftSubpath == rightSubpath
  | _, _ => false

def fileSystemPathsShareTarget (left right : FileSystemPath) (convention : PathConvention) : Bool :=
  match left, right with
  | .path left, .path right => left.same right
  | .special left, .special right => specialPathsShareTarget left right
  | .path path, .special value | .special value, .path path =>
    path.inferPathConvention == some convention && specialPathMatchesPathUri value path
  | .globPattern left, .globPattern right => left == right
  | _, _ => false

namespace FileSystemSandboxPolicy

def restricted (entries : List FileSystemSandboxEntry) : FileSystemSandboxPolicy :=
  ⟨.restricted, none, entries⟩

/-! ### Access to the whole disk -/

variable (policy : FileSystemSandboxPolicy)

def hasRootAccess (predicate : FileSystemAccessMode → Bool) : Bool :=
  policy.kind == .restricted &&
    policy.entries.any fun entry => entry.path == .special .root && predicate entry.access

/-- A write entry settles the very target of `entry` against it. -/
def hasSameTargetWriteOverride (entry : FileSystemSandboxEntry) (convention : PathConvention) :
    Bool :=
  policy.entries.any fun candidate =>
    candidate.access.canWrite && decide (entry.access < candidate.access) &&
      fileSystemPathsShareTarget candidate.path entry.path convention

/-- The entry takes something away from a grant of the whole disk. -/
def narrowsWrite (convention : PathConvention) (entry : FileSystemSandboxEntry) : Bool :=
  if entry.access.canWrite then false
  else match entry.path with
    | .path _ => !policy.hasSameTargetWriteOverride entry convention
    | .globPattern _ => true
    | .special .root => entry.access == .deny
    | .special .minimal | .special (.unknown _ _) => false
    | .special .slashTmp =>
      if convention = .windows then false
      else !policy.hasSameTargetWriteOverride entry convention
    | .special _ => !policy.hasSameTargetWriteOverride entry convention

def hasWriteNarrowingEntries (convention : PathConvention) : Bool :=
  policy.kind == .restricted && policy.entries.any (policy.narrowsWrite convention)

def hasDeniedReadRestrictionsForConvention (convention : Option PathConvention) : Bool :=
  policy.kind == .restricted &&
    policy.entries.any fun entry =>
      entry.access == .deny && !(entry.path == .special .slashTmp && convention == some .windows)

def hasFullDiskReadAccessForConvention (convention : Option PathConvention) : Bool :=
  match policy.kind with
  | .unrestricted | .externalSandbox => true
  | .restricted =>
    policy.hasRootAccess FileSystemAccessMode.canRead &&
      !policy.hasDeniedReadRestrictionsForConvention convention

def hasFullDiskWriteAccessForConvention (convention : Option PathConvention) : Bool :=
  match policy.kind with
  | .unrestricted | .externalSandbox => true
  | .restricted =>
    match convention with
    | none => false
    | some convention =>
      policy.hasRootAccess FileSystemAccessMode.canWrite &&
        !policy.hasWriteNarrowingEntries convention

def hasFullDiskWriteAccessWithContext (context : FileSystemSandboxPolicyContext) : Bool :=
  policy.hasFullDiskWriteAccessForConvention context.cwd.inferPathConvention

/-! ### Resolving entries in a context -/

def entryPaths (u : UrlOps) (context : FileSystemSandboxPolicyContext) :
    FileSystemPath → List PathUri
  | .path path => [path]
  | .globPattern _ => []
  | .special .root => (fileSystemRoot context).toList
  | .special (.projectRoots subpath) =>
    context.workspaceRoots.filterMap fun root =>
      match subpath with
      | some subpath => (root.join u subpath).toOption
      | none => some root
  | .special .tmpdir => context.temporaryDirectories.getD []
  | .special .slashTmp =>
    if context.cwd.inferPathConvention = some .posix then
      (context.cwd.join u "/tmp".toList).toOption.toList
    else []
  | .special .minimal | .special (.unknown _ _) => []

/-- Entries with their URIs.  Those that follow another convention than the context's
directory are dropped. -/
def resolvedEntries (u : UrlOps) (policy : FileSystemSandboxPolicy)
    (context : FileSystemSandboxPolicyContext) : List (PathUri × FileSystemAccessMode) :=
  policy.entries.flatMap fun entry =>
    ((entryPaths u context entry.path).filter fun path =>
      path.inferPathConvention == context.cwd.inferPathConvention).map fun path =>
        (path, entry.access)

/-- The resolved entries with their depths.  An opaque path is skipped; another path
without a depth makes the policy unreadable. -/
def entryDepths : List (PathUri × FileSystemAccessMode) →
    Option (List (PathUri × FileSystemAccessMode × Nat))
  | [] => some []
  | (root, access) :: rest =>
    match root.lexicalDepth with
    | some depth => (entryDepths rest).map ((root, access, depth) :: ·)
    | none => if root.isOpaque then entryDepths rest else none

/-- `max_by_key` of depth and access: of equal entries the last one. -/
def betterEntry (best : Option (PathUri × FileSystemAccessMode × Nat))
    (entry : PathUri × FileSystemAccessMode × Nat) :
    Option (PathUri × FileSystemAccessMode × Nat) :=
  match best with
  | none => some entry
  | some best =>
    if entry.2.2 < best.2.2 ∨ (entry.2.2 = best.2.2 ∧ entry.2.1 < best.2.1) then some best
    else some entry

def resolveAccess (u : UrlOps) (policy : FileSystemSandboxPolicy) (path : PathUri)
    (context : FileSystemSandboxPolicyContext) : FileSystemAccessMode :=
  match policy.kind with
  | .unrestricted | .externalSandbox => .write
  | .restricted =>
    match context.cwd.inferPathConvention with
    | none => .deny
    | some convention =>
      if path.inferPathConvention ≠ some convention ∨ path.lexicalDepth.isNone ∨
          context.cwd.lexicalDepth.isNone then .deny
      else match entryDepths (policy.resolvedEntries u context) with
        | none => .deny
        | some entries =>
          match (entries.filter fun entry => path.startsWith entry.1).foldl betterEntry none with
          | some entry => entry.2.1
          | none => .deny

/-! ### Writing -/

/-- The first protected directory of the root that the path lies in. -/
def protectedBelow (u : UrlOps) (path root : PathUri) : Option (PathUri × Text) :=
  protectedMetadataPathNames.findSome? fun name =>
    match root.joinDescendant u name with
    | .ok metadataPath => if path.startsWith metadataPath then some (metadataPath, name) else none
    | .error _ => none

/-- The protected directory a write would go to, unless a write entry reaches into it. -/
def metadataWriteDenial (u : UrlOps) (policy : FileSystemSandboxPolicy) (path : PathUri)
    (context : FileSystemSandboxPolicyContext) : Option Text :=
  if policy.kind ≠ .restricted then none
  else
    let writes := (policy.resolvedEntries u context).filter fun entry => entry.2.canWrite
    match writes.findSome? fun entry => protectedBelow u path entry.1 with
    | none => none
    | some (metadataPath, name) =>
      if writes.any fun entry =>
          path.startsWith entry.1 && entry.1.startsWith metadataPath
      then none
      else some name

def canWritePath (u : UrlOps) (policy : FileSystemSandboxPolicy) (path : PathUri)
    (context : FileSystemSandboxPolicyContext) : Bool :=
  (policy.resolveAccess u path context).canWrite &&
    (policy.hasFullDiskWriteAccessWithContext context ||
      (policy.metadataWriteDenial u path context).isNone)

end FileSystemSandboxPolicy

end SushiGpt.Permissions
