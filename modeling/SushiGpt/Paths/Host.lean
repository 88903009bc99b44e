/-
What the code asks the host's file system.

Reading the tree, following links and reading the environment are the operating system's
business and parameters of the model.  Two things the code does with the answers matter
to permissions.  A configured path is brought into its *effective* form by resolving the
deepest ancestor that exists; but a path that goes through a symbolic link below the top
level keeps its own spelling, so that in effect only links such as `/tmp -> /private/tmp`
are followed.  And a `.git` file points to the directory that holds the repository.
-/
import SushiGpt.Paths.PathUri

namespace SushiGpt

inductive FileType where
  | file
  | dir
  | symlink
  | other
  deriving DecidableEq

structure Metadata where
  fileType : FileType
  len : Nat

/-- The host: its environment and the answers of its file system. -/
structure Host where
  env : PathEnv
  /-- The variable `TMPDIR`. -/
  tmpdir : Option Text
  /-- `symlink_metadata`, which does not follow a link at the end of the path. -/
  symlinkMetadata : AbsolutePath → Option Metadata
  /-- `metadata`, which does. -/
  metadata : AbsolutePath → Option Metadata
  canonicalize : AbsolutePath → Option AbsolutePath
  readToString : AbsolutePath → Option Text
  readDir : AbsolutePath → Option (List FileName)

namespace Host

variable (host : Host) (path : AbsolutePath)

def pathExists : Bool := (host.metadata path).isSome

def isDir : Bool :=
  (host.metadata path).any fun metadata => metadata.fileType == .dir

def isFile : Bool :=
  (host.metadata path).any fun metadata => metadata.fileType == .file

def isSymlink : Bool :=
  (host.symlinkMetadata path).any fun metadata => metadata.fileType == .symlink

/-- The path and the directories above it, the deepest first. -/
def ancestors : List AbsolutePath := path.inits.reverse

/-! ### Effective paths -/

/-- A link below the top level, at the path or above it. -/
def shouldPreserveLogicalPath (logical : AbsolutePath) : Bool :=
  (ancestors logical).any fun ancestor => host.isSymlink ancestor && 2 ≤ ancestor.length

def canonicalizePreservingSymlinks : AbsolutePath :=
  match host.canonicalize path with
  | some canonical =>
    if host.shouldPreserveLogicalPath path && canonical != path then path else canonical
  | none => path

def normalizeEffectiveAbsolutePath : AbsolutePath :=
  match (ancestors path).find? fun ancestor => (host.symlinkMetadata ancestor).isSome with
  | some ancestor =>
    host.canonicalizePreservingSymlinks ancestor ++ path.drop ancestor.length
  | none => path

/-- Only a link at the top level is followed. -/
def normalizeTrustedTopLevelAlias : AbsolutePath :=
  match path with
  | [] => []
  | top :: suffix =>
    if host.isSymlink [top] then
      match host.canonicalize [top] with
      | some canonical => canonical ++ suffix
      | none => path
    else path

/-! ### Git directories -/

def isGitPointerFile : Bool :=
  host.isFile path && AbsolutePath.fileName path == some ".git".toList

/-- `str::split_once` at a colon. -/
def splitOnceColon (text : Text) : Option (Text × Text) :=
  if ':' ∈ text then some (text.takeWhile (· != ':'), (text.dropWhile (· != ':')).drop 1)
  else none

/-- The directory a `.git` file of the form `gitdir: <path>` names, if it exists. -/
def resolveGitdirFromFile (dotGit : AbsolutePath) : Option AbsolutePath := do
  let contents ← host.readToString dotGit
  let (label, gitdirRaw) ← splitOnceColon (Text.trim contents)
  if Text.trim label ≠ "gitdir".toList then none
  else if Text.trim gitdirRaw = [] then none
  else if dotGit = [] then none
  else
    let gitdirPath :=
      AbsolutePath.resolvePathAgainstBase host.env (Text.utf8 (Text.trim gitdirRaw)) dotGit.dropLast
    if host.pathExists gitdirPath then some gitdirPath else none

end Host

end SushiGpt
