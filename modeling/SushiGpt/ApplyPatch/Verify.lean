/-
Verifying a patch: `try_verify_apply_patch_args` in `apply-patch/src/invocation.rs`.

Verification computes what the patch is going to do, for the user to approve, before
anything is touched.  Every hunk is looked at against the files as they are, and a
patch with two hunks for one path is refused.
-/
import SushiGpt.ApplyPatch.Apply

namespace SushiGpt.ApplyPatch

variable {K : Type}

/-- The change one hunk stands for.  `unifiedDiff` is the line diff of the two texts,
which a library computes. -/
def verifyHunk (paths : PathOps K) (mode : UpdateMode) (unifiedDiff : Text → Text → Text)
    (cwd path : K) (w : World K) :
    Hunk → World K × Except ApplyPatchError (ApplyPatchFileChange K)
  | .addFile _ contents => (w, .ok (.add contents))
  | .deleteFile _ =>
    match w.readFileText path with
    | (w, .ok content) => (w, .ok (.delete content))
    | (w, .error source) =>
      (w, .error (.ioError
        ("Failed to read ".toList ++ paths.inferredNativePathString path) source))
  | .updateFile _ movePath chunks =>
    match deriveNewContentsFromChunks paths mode w path chunks with
    | (w, .error e) => (w, .error e)
    | (w, .ok (original, new)) =>
      let unified := unifiedDiff original new
      match movePath with
      | none => (w, .ok (.update unified none new))
      | some dest =>
        match paths.join cwd dest with
        | .error e => (w, .error (.pathUri e))
        | .ok destUri => (w, .ok (.update unified (some destUri) new))

def multipleOperations (paths : PathOps K) (path : K) : ApplyPatchError :=
  .parseError (.invalidPatchError
    ("multiple operations target ".toList ++ paths.inferredNativePathString path))

variable [DecidableEq K]

/-- The loop over the hunks, with the changes collected so far. -/
def verifyHunks (paths : PathOps K) (mode : UpdateMode) (unifiedDiff : Text → Text → Text)
    (cwd : K) : List Hunk → List (K × ApplyPatchFileChange K) → World K →
      World K × Except ApplyPatchError (List (K × ApplyPatchFileChange K))
  | [], changes, w => (w, .ok changes)
  | hunk :: rest, changes, w =>
    match hunk.resolvePath paths cwd with
    | .error e => (w, .error (.pathUri e))
    | .ok path =>
      if path ∈ changes.map Prod.fst then (w, .error (multipleOperations paths path))
      else
        match verifyHunk paths mode unifiedDiff cwd path w hunk with
        | (w, .error e) => (w, .error e)
        | (w, .ok change) =>
          verifyHunks paths mode unifiedDiff cwd rest (changes ++ [(path, change)]) w

/-- The directory the patch is relative to. -/
def effectiveCwd (paths : PathOps K) (cwd : K) : Option Text → Except PathUriParseError K
  | none => .ok cwd
  | some dir => paths.join cwd dir

def tryVerifyApplyPatchArgs (paths : PathOps K) (mode : UpdateMode)
    (unifiedDiff : Text → Text → Text) (args : ApplyPatchArgs) (cwd : K) (w : World K) :
    World K × Except ApplyPatchError (ApplyPatchAction K) :=
  match effectiveCwd paths cwd args.workdir with
  | .error e => (w, .error (.pathUri e))
  | .ok effective =>
    match verifyHunks paths mode unifiedDiff effective args.hunks [] w with
    | (w, .error e) => (w, .error e)
    | (w, .ok changes) => (w, .ok ⟨changes, mode, args.patch, effective⟩)

end SushiGpt.ApplyPatch
