/-
Applying a patch: `apply_hunks_to_files` and its helpers in `apply-patch/src/lib.rs`.

The hunks are applied in order and the first failure stops the patch where it
stands.  What was done up to there is the delta: the changes in the order they were
committed, and a flag saying whether that list is the whole story.  The flag starts
true and every doubt clears it.
-/
import SushiGpt.ApplyPatch.FileSystem
import SushiGpt.Lib.Journal

namespace SushiGpt.ApplyPatch

variable {K : Type}

/-! ### Looking before touching -/

def noteExistingPathDeltaSupport (w : World K) (path : K) (exact : Bool) : World K × Bool :=
  match w.getMetadata path with
  | (w, .ok metadata) => (w, if metadata.isFile && !metadata.isSymlink then exact else false)
  | (w, .error source) => (w, if source.kind = .notFound then exact else false)

def readOptionalFileTextForDelta (w : World K) (path : K) (exact : Bool) :
    World K × Bool × Option Text :=
  let (w, exact) := noteExistingPathDeltaSupport w path exact
  match w.readFileText path with
  | (w, .ok content) => (w, exact, some content)
  | (w, .error source) => (w, if source.kind = .notFound then exact else false, none)

def pathIsDirectory : IoError := ⟨.invalidInput, "path is a directory".toList⟩

def ensureNotDirectory (w : World K) (path : K) : World K × Except IoError Unit :=
  match w.getMetadata path with
  | (w, .error e) => (w, .error e)
  | (w, .ok metadata) => (w, if metadata.isDirectory then .error pathIsDirectory else .ok ())

def removeFailureWasSideEffectFree (w : World K) (path : K) (expected : Option Text) :
    World K × Bool :=
  match expected with
  | none => (w, false)
  | some expected =>
    match w.readFileText path with
    | (w, .ok content) => (w, decide (content = expected))
    | (w, .error _) => (w, false)

/-- Reads the file and computes what the chunks make of it. -/
def deriveNewContentsFromChunks (paths : PathOps K) (mode : UpdateMode) (w : World K) (path : K)
    (chunks : List UpdateFileChunk) : World K × Except ApplyPatchError (Text × Text) :=
  let pathText := paths.inferredNativePathString path
  match w.readFileText path with
  | (w, .error source) =>
    (w, .error (.ioError ("Failed to read file to update ".toList ++ pathText) source))
  | (w, .ok original) =>
    match newContents mode pathText chunks original with
    | .error e => (w, .error (.computeReplacements e))
    | .ok new => (w, .ok (original, new))

variable [DecidableEq K] (paths : PathOps K) (w : World K)

def failedToWrite (path : K) (source : IoError) : ApplyError :=
  .io ("Failed to write file ".toList ++ paths.inferredNativePathString path) source

/-- The second attempt, after the parent directories were made. -/
def retryWrite (path : K) (contents : Text) : World K × Except ApplyError Unit :=
  match w.writeFile path contents with
  | (w, .ok _) => (w, .ok ())
  | (w, .error e) => (w, .error (failedToWrite paths path e))

def writeFileWithMissingParentRetry (path : K) (contents : Text) :
    World K × Except ApplyError Unit :=
  match w.writeFile path contents with
  | (w, .ok _) => (w, .ok ())
  | (w, .error e) =>
    if e.kind = .notFound then
      match paths.parent path with
      | none => retryWrite paths w path contents
      | some parent =>
        match w.createDirectory (paths.ancestors parent) with
        | (w, .error e) =>
          (w, .error (.io ("Failed to create parent directories for ".toList ++
            paths.inferredNativePathString path) e))
        | (w, .ok _) => retryWrite paths w path contents
    else (w, .error (failedToWrite paths path e))

/-! ### One hunk -/

/-- The state the loop over the hunks carries. -/
structure ApplyState (K : Type) where
  world : World K
  delta : AppliedPatchDelta K
  affected : AffectedPaths

/-- What one hunk does to the state, and whether it stops the patch. -/
abbrev ApplyStep (K : Type) := ApplyState K × Except ApplyError Unit

namespace ApplyState

/-- The hunk stops the patch: the world is as it was left, the delta as it stands. -/
def fail (s : ApplyState K) (w : World K) (exact : Bool) (e : ApplyError) : ApplyStep K :=
  ({ s with world := w, delta := { s.delta with exact := exact } }, .error e)

/-- The hunk is done and its changes are recorded. -/
def commit (s : ApplyState K) (w : World K) (exact : Bool)
    (changes : List (AppliedPatchChange K)) (affected : AffectedPaths) : ApplyStep K :=
  ({ world := w, delta := ⟨s.delta.changes ++ changes, exact⟩, affected := affected }, .ok ())

end ApplyState

def applyAddFile (s : ApplyState K) (pathUri : K) (affectedPath : Text) (contents : Text) :
    ApplyStep K :=
  let (w, exact, overwritten) :=
    readOptionalFileTextForDelta s.world pathUri s.delta.exact
  match writeFileWithMissingParentRetry paths w pathUri contents with
  | (w, .error e) => s.fail w false e
  | (w, .ok _) =>
    s.commit w exact [⟨pathUri, .add contents overwritten⟩]
      { s.affected with added := s.affected.added ++ [affectedPath] }

def applyDeleteFile (s : ApplyState K) (pathUri : K) (affectedPath : Text) : ApplyStep K :=
  let context := "Failed to delete file ".toList ++ paths.inferredNativePathString pathUri
  let (w, exact) := noteExistingPathDeltaSupport s.world pathUri s.delta.exact
  let (w, deletedContent) := match w.readFileText pathUri with
    | (w, .ok content) => (w, some content)
    | (w, .error _) => (w, none)
  let exact := if deletedContent.isNone then false else exact
  match ensureNotDirectory w pathUri with
  | (w, .error e) => s.fail w exact (.io context e)
  | (w, .ok _) =>
    match w.remove pathUri with
    | (w, .error e) =>
      let (w, free) := removeFailureWasSideEffectFree w pathUri deletedContent
      s.fail w (exact && free) (.io context e)
    | (w, .ok _) =>
      s.commit w exact
        (match deletedContent with
          | some content => [⟨pathUri, .delete content⟩]
          | none => [])
        { s.affected with deleted := s.affected.deleted ++ [affectedPath] }

/-- The half of an update that writes in place. -/
def applyUpdateInPlace (s : ApplyState K) (w : World K) (exact : Bool) (pathUri : K)
    (affectedPath : Text) (original new : Text) : ApplyStep K :=
  match w.writeFile pathUri new with
  | (w, .error e) => s.fail w false (failedToWrite paths pathUri e)
  | (w, .ok _) =>
    s.commit w exact [⟨pathUri, .update none original none new⟩]
      { s.affected with modified := s.affected.modified ++ [affectedPath] }

/-- The half of an update that moves.  The destination is recorded as added before the
source is removed, and the entry is replaced by the whole move once it is. -/
def applyUpdateMove (s : ApplyState K) (w : World K) (exact : Bool) (pathUri destUri : K)
    (affectedPath : Text) (original new : Text) : ApplyStep K :=
  let context := "Failed to remove original ".toList ++ paths.inferredNativePathString pathUri
  let (w, exact, overwritten) := readOptionalFileTextForDelta w destUri exact
  match writeFileWithMissingParentRetry paths w destUri new with
  | (w, .error e) => s.fail w false e
  | (w, .ok _) =>
    let written : ApplyState K :=
      { s with delta := { s.delta with
          changes := s.delta.changes ++ [⟨destUri, .add new overwritten⟩] } }
    match ensureNotDirectory w pathUri with
    | (w, .error e) => written.fail w exact (.io context e)
    | (w, .ok _) =>
      match w.remove pathUri with
      | (w, .error e) =>
        let (w, free) := removeFailureWasSideEffectFree w pathUri (some original)
        written.fail w (exact && free) (.io context e)
      | (w, .ok _) =>
        s.commit w exact [⟨pathUri, .update (some destUri) original overwritten new⟩]
          { s.affected with modified := s.affected.modified ++ [affectedPath] }

def applyUpdateFile (mode : UpdateMode) (cwd : K) (s : ApplyState K) (pathUri : K)
    (affectedPath : Text) (movePath : Option Text) (chunks : List UpdateFileChunk) : ApplyStep K :=
  let (w, exact) := noteExistingPathDeltaSupport s.world pathUri s.delta.exact
  match deriveNewContentsFromChunks paths mode w pathUri chunks with
  | (w, .error e) => s.fail w exact (.patch e)
  | (w, .ok (original, new)) =>
    match movePath with
    | none => applyUpdateInPlace paths s w exact pathUri affectedPath original new
    | some dest =>
      match paths.join cwd dest with
      | .error e => s.fail w exact (.pathUri e)
      | .ok destUri =>
        applyUpdateMove paths s w exact pathUri destUri affectedPath original new

def applyHunk (mode : UpdateMode) (cwd : K) (s : ApplyState K) (hunk : Hunk) : ApplyStep K :=
  match hunk.resolvePath paths cwd with
  | .error e => s.fail s.world s.delta.exact (.pathUri e)
  | .ok pathUri =>
    match hunk with
    | .addFile _ contents => applyAddFile paths s pathUri hunk.path contents
    | .deleteFile _ => applyDeleteFile paths s pathUri hunk.path
    | .updateFile _ movePath chunks =>
      applyUpdateFile paths mode cwd s pathUri hunk.path movePath chunks

/-! ### The whole patch -/

def ApplyState.start : ApplyState K := ⟨w, .empty, ⟨[], [], []⟩⟩

def noFilesModified : ApplyError := .message "No files were modified.".toList

/-- The world and the delta are there whether or not the patch went through. -/
def applyHunksToFiles (mode : UpdateMode) (cwd : K) (hunks : List Hunk) (w : World K) :
    ApplyState K × Except ApplyError AffectedPaths :=
  if hunks.isEmpty then (.start w, .error noFilesModified)
  else
    match Loop.run (applyHunk paths mode cwd) hunks (.start w) with
    | (s, .ok _) => (s, .ok s.affected)
    | (s, .error e) => (s, .error e)

end SushiGpt.ApplyPatch
