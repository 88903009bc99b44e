/-
The data of a patch: hunks, changes, deltas and errors.

These are the types of `apply-patch/src/lib.rs` and `parser.rs` that verifying and
applying a patch pass around.  Paths come in two forms.  A hunk holds the text of
a path as the patch spells it; everything done to a file goes through a resolved
path, and the model keeps that type abstract: `PathOps` lists the operations the
code uses on it.
-/
import SushiGpt.ApplyPatch.FileUpdate

namespace SushiGpt.ApplyPatch

/-- A path text that could not be joined onto a base path. -/
structure PathUriParseError where
  message : Text
  deriving DecidableEq

/-- The operations on resolved paths that the patch code uses. -/
structure PathOps (K : Type) where
  join : K → Text → Except PathUriParseError K
  parent : K → Option K
  /-- The path itself and every directory above it. -/
  ancestors : K → List K
  inferredNativePathString : K → Text

inductive Hunk where
  | addFile (path : Text) (contents : Text)
  | deleteFile (path : Text)
  | updateFile (path : Text) (movePath : Option Text) (chunks : List UpdateFileChunk)

namespace Hunk

/-- The path the hunk reads from. -/
def source : Hunk → Text
  | .addFile path _ => path
  | .deleteFile path => path
  | .updateFile path _ _ => path

/-- The path reported to the user: for a rename, its destination. -/
def path : Hunk → Text
  | .updateFile _ (some new) _ => new
  | hunk => hunk.source

variable {K : Type}

def resolvePath (paths : PathOps K) (cwd : K) (hunk : Hunk) : Except PathUriParseError K :=
  paths.join cwd hunk.source

end Hunk

/-! ### Errors -/

inductive IoErrorKind where
  | notFound
  | invalidInput
  | invalidData
  | other
  deriving DecidableEq

structure IoError where
  kind : IoErrorKind
  message : Text
  deriving DecidableEq

inductive ParseError where
  | invalidPatchError (message : Text)
  | invalidHunkError (message : Text) (lineNumber : Nat)
  deriving DecidableEq

inductive ApplyPatchError where
  | parseError (e : ParseError)
  | ioError (context : Text) (source : IoError)
  | computeReplacements (e : ComputeReplacementsError)
  | pathUri (e : PathUriParseError)
  | implicitInvocation
  deriving DecidableEq

/-- What applying a patch stops with: a message, a patch error, a path error, or an
I/O error together with what was being done. -/
inductive ApplyError where
  | message (text : Text)
  | patch (e : ApplyPatchError)
  | pathUri (e : PathUriParseError)
  | io (context : Text) (source : IoError)
  deriving DecidableEq

/-! ### What a patch did -/

inductive AppliedPatchFileChange (K : Type) where
  | add (content : Text) (overwrittenContent : Option Text)
  | delete (content : Text)
  | update (movePath : Option K) (oldContent : Text) (overwrittenMoveContent : Option Text)
      (newContent : Text)

structure AppliedPatchChange (K : Type) where
  path : K
  change : AppliedPatchFileChange K

structure AppliedPatchDelta (K : Type) where
  changes : List (AppliedPatchChange K)
  exact : Bool

def AppliedPatchDelta.empty {K : Type} : AppliedPatchDelta K := ⟨[], true⟩

structure AffectedPaths where
  added : List Text
  modified : List Text
  deleted : List Text
  deriving DecidableEq

/-! ### What a patch is going to do -/

inductive ApplyPatchFileChange (K : Type) where
  | add (content : Text)
  | delete (content : Text)
  | update (unifiedDiff : Text) (movePath : Option K) (newContent : Text)
  deriving DecidableEq

structure ApplyPatchArgs where
  patch : Text
  hunks : List Hunk
  workdir : Option Text

/-- A verified patch.  The changes are keyed by path, each path at most once. -/
structure ApplyPatchAction (K : Type) where
  changes : List (K × ApplyPatchFileChange K)
  updateFileMode : UpdateMode
  patch : Text
  cwd : K
  deriving DecidableEq

end SushiGpt.ApplyPatch
