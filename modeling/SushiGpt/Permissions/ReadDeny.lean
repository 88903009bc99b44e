/-
Denied reads: `ReadDenyMatcher` in `protocol/src/permissions.rs`.

A matcher holds the denied roots of a policy and its compiled deny globs.  It is asked
about one path at a time and fails closed: a path that cannot be compared is denied, and
so is every path once a glob could not be resolved or compiled.  What a glob matches is
the business of the `globset` crate and a parameter here.
-/
import SushiGpt.Permissions.Policy

namespace SushiGpt.Permissions

/-- `GlobBuilder` with literal separators and unclosed classes allowed.  The two options
are `backslash_escape` and `case_insensitive`; the matcher takes the bytes of a path. -/
structure GlobOps where
  build : Bool → Bool → Text → Option (Text → Bool)

structure PreparedReadDenyMatcher where
  deniedRoots : List PathUri
  denyReadMatchers : List (Text → Bool)
  invalidPattern : Bool

def slashForBackslash (text : Text) : Text := text.map fun c => if c = '\\' then '/' else c

def buildGlobMatcher (globs : GlobOps) (convention : PathConvention) (pattern : Text) :
    Option (Text → Bool) :=
  globs.build (convention == .posix) (convention == .windows)
    (if convention = .windows then slashForBackslash pattern else pattern)

/-- Glob text after `~` and a separator. -/
def homeRelativeGlob (convention : PathConvention) : Text → Option Text
  | '~' :: separator :: suffix => if convention.isSeparator separator then some suffix else none
  | _ => none

/-- The native spelling of one deny glob, read from the home or the working directory. -/
def denyReadGlob (u : UrlOps) (context : FileSystemSandboxPolicyContext) (pattern : Text) :
    Except Text Text := do
  let convention :=
    if context.cwd.inferPathConvention = some .windows then PathConvention.windows else .posix
  let unable := "unable to resolve deny-read glob pattern `".toList
  let (root, pattern) ← match homeRelativeGlob convention pattern, context.userHomeDir with
    | some suffix, some home => pure (home, suffix.dropWhile convention.isSeparator)
    | some _, none => throw (unable ++ pattern ++ "` without executor home".toList)
    | none, _ => pure (context.cwd, pattern)
  -- Relative text is matched below the root as the root is spelled.
  if (PathUri.fromAbsoluteNativePath u pattern convention).isNone then
    u.validateGlobDirectory root convention
  match root.join u pattern with
  | .ok path => pure (u.nativeString path)
  | .error _ => throw (unable ++ pattern ++ "`".toList)

namespace FileSystemSandboxPolicy

def denyReadPatterns (policy : FileSystemSandboxPolicy) : List Text :=
  policy.entries.filterMap fun entry =>
    match entry.path with
    | .globPattern pattern => if entry.access == .deny then some pattern else none
    | _ => none

def denyReadGlobs (u : UrlOps) (policy : FileSystemSandboxPolicy)
    (context : FileSystemSandboxPolicyContext) : Except Text (List Text) :=
  policy.denyReadPatterns.mapM (denyReadGlob u context)

/-- The roots denied by name.  A denial of the whole file system is left to the policy
itself. -/
def deniedRoots (u : UrlOps) (policy : FileSystemSandboxPolicy)
    (context : FileSystemSandboxPolicyContext) : List PathUri :=
  (((policy.resolvedEntries u context).filter fun entry => entry.2 == .deny).filter
    fun entry =>
      !(fileSystemRoot context).any fun root =>
        entry.1.startsWith root && root.startsWith entry.1).map Prod.fst

/-- `prepare_deny_read_matcher`, failing closed. -/
def prepareDenyReadMatcher (u : UrlOps) (globs : GlobOps) (policy : FileSystemSandboxPolicy)
    (context : FileSystemSandboxPolicyContext) : PreparedReadDenyMatcher :=
  let deniedRoots := policy.deniedRoots u context
  match context.cwd.inferPathConvention, policy.denyReadGlobs u context with
  | some convention, .ok patterns =>
    { deniedRoots
      denyReadMatchers := patterns.filterMap (buildGlobMatcher globs convention)
      invalidPattern :=
        patterns.any fun pattern => (buildGlobMatcher globs convention pattern).isNone }
  | _, _ => ⟨deniedRoots, [], true⟩

def matchesPreparedReadDeny (u : UrlOps) (path : PathUri)
    (context : FileSystemSandboxPolicyContext) (prepared : PreparedReadDenyMatcher) : Bool :=
  match context.cwd.inferPathConvention with
  | none => true
  | some convention =>
    if path.inferPathConvention ≠ some convention ∨ path.lexicalDepth.isNone ∨
        context.cwd.lexicalDepth.isNone then true
    else
      prepared.invalidPattern || prepared.deniedRoots.any (path.startsWith ·) ||
        prepared.denyReadMatchers.any fun isMatch =>
          isMatch (match convention with
            | .posix => path.decodedPathBytes u
            | .windows => slashForBackslash (u.nativeString path))

/-- `ReadDenyMatcher::from_context`: a policy that denies nothing needs no matcher. -/
def readDenyMatcher (u : UrlOps) (globs : GlobOps) (policy : FileSystemSandboxPolicy)
    (context : FileSystemSandboxPolicyContext) : Option PreparedReadDenyMatcher :=
  if policy.entries.any fun entry => entry.access == .deny then
    some (policy.prepareDenyReadMatcher u globs context)
  else none

end FileSystemSandboxPolicy

end SushiGpt.Permissions
