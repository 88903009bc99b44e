/-
Materializing workspace roots: `try_materialize_project_roots_with_path_uris` in
`protocol/src/permissions.rs`.

An entry for `:workspace_roots` is replaced by one entry for each root.  A subpath is
taken only if it stays inside its root; otherwise a write is dropped and anything else
denies the whole root.  A denial below the user's home, which the materializer cannot
resolve, clears the policy.
-/
import SushiGpt.Permissions.Policy

namespace SushiGpt.Permissions

def projectRootsGlobPatternPrefix : Text := "codex-project-roots://".toList

/-- The path below a workspace root, if the text names one without leaving it. -/
def resolveScopedWorkspacePath (u : UrlOps) (root : PathUri) (subpath : Text) : Option PathUri := do
  let convention ← root.inferPathConvention
  let segments := convention.pathSegments subpath
  if subpath.head? = some '/' ∨ (convention = .windows ∧ subpath.head? = some '\\') ∨
      segments.any (fun s => s == ['.'] || s == ['.', '.']) ∨
      (convention = .windows ∧ segments.any fun s => s.contains ':') then none
  else
    let path ← (root.join u subpath).toOption
    if path.startsWith root then some path else none

/-- The subpath of a path that is about the workspace roots, and whether it is a glob. -/
def projectRootsSubpath : FileSystemPath → Option (Option Text × Bool)
  | .special (.projectRoots subpath) => some (subpath, false)
  | .globPattern pattern =>
    if projectRootsGlobPatternPrefix.isPrefixOf pattern then
      some (some (pattern.drop projectRootsGlobPatternPrefix.length), true)
    else none
  | _ => none

/-- The path an entry with this subpath gets below one root. -/
def scopedPath (u : UrlOps) (subpath : Option Text) (isGlob : Bool) (root : PathUri) :
    Option PathUri :=
  -- A root that cannot stand in a glob unchanged is no directory for one.
  if isGlob && !(root.inferPathConvention.any fun convention =>
      (u.validateGlobDirectory root convention).isOk) then none
  else match subpath with
    | none => some root
    | some subpath => resolveScopedWorkspacePath u root subpath

def materializeForRoot (u : UrlOps) (entry : FileSystemSandboxEntry) (subpath : Option Text)
    (isGlob : Bool) (root : PathUri) : Option FileSystemSandboxEntry :=
  match scopedPath u subpath isGlob root with
  | some path =>
    some { entry with path := if isGlob then .globPattern (u.nativeString path) else .path path }
  | none =>
    if entry.access.canWrite then none
    else some { entry with path := .path root, access := .deny }

/-- A denial whose subpath starts at the user's home. -/
def isHomeRelativeDenial (workspaceRoots : List PathUri) (access : FileSystemAccessMode)
    (subpath : Option Text) : Bool :=
  access == .deny && subpath.any fun subpath =>
    workspaceRoots.any fun root =>
      root.inferPathConvention.any fun convention =>
        (convention.homeRelativeSuffix subpath).isSome

def materializeEntries (u : UrlOps) (workspaceRoots : List PathUri) :
    List FileSystemSandboxEntry → Option (List FileSystemSandboxEntry)
  | [] => some []
  | entry :: rest =>
    match projectRootsSubpath entry.path with
    | none => (materializeEntries u workspaceRoots rest).map (entry :: ·)
    | some (subpath, isGlob) =>
      if isHomeRelativeDenial workspaceRoots entry.access subpath then none
      else (materializeEntries u workspaceRoots rest).map
        (workspaceRoots.filterMap (materializeForRoot u entry subpath isGlob) ++ ·)

namespace FileSystemSandboxPolicy

def tryMaterializeProjectRootsWithPathUris (u : UrlOps) (policy : FileSystemSandboxPolicy)
    (workspaceRoots : List PathUri) : Option FileSystemSandboxPolicy :=
  (materializeEntries u workspaceRoots policy.entries).map fun entries =>
    { policy with entries }

def materializeProjectRootsWithPathUris (u : UrlOps) (policy : FileSystemSandboxPolicy)
    (workspaceRoots : List PathUri) : FileSystemSandboxPolicy :=
  (policy.tryMaterializeProjectRootsWithPathUris u workspaceRoots).getD (restricted [])

end FileSystemSandboxPolicy

end SushiGpt.Permissions
