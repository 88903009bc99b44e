/-
The net change of a turn: `core/src/turn_diff_tracker.rs`.

The tracker never reads the file system.  It follows the deltas of the patches that were applied
and keeps, for each path they name, what it held before the turn and what it holds now.
Rendering the diff reads these maps and does not change them; of it only the pairing of renamed
files is here.
-/
import Mathlib.Data.Finmap
import SushiGpt.ApplyPatch.Patch

namespace SushiGpt.TurnDiff

open ApplyPatch

structure TrackedContent where
  content : Text
  revision : Nat

structure TrackedPath (K : Type) where
  environmentId : Text
  path : K
  deriving DecidableEq

structure TurnDiffTracker (K : Type) where
  valid : Bool
  baselineByPath : AList fun _ : TrackedPath K => TrackedContent
  currentByPath : AList fun _ : TrackedPath K => TrackedContent
  originByCurrentPath : AList fun _ : TrackedPath K => TrackedPath K
  nextRevision : Nat

namespace TurnDiffTracker

variable {K : Type}

def new : TurnDiffTracker K := ⟨true, ∅, ∅, ∅, 0⟩

def invalidate (tracker : TurnDiffTracker K) : TurnDiffTracker K := { tracker with valid := false }

/-- The content under the next revision. -/
def trackedContent (tracker : TurnDiffTracker K) (content : Text) :
    TrackedContent × TurnDiffTracker K :=
  (⟨content, tracker.nextRevision⟩, { tracker with nextRevision := tracker.nextRevision + 1 })

variable [DecidableEq K] (tracker : TurnDiffTracker K) (path : TrackedPath K)

def insertBaseline (content : Text) : TurnDiffTracker K :=
  let (tracked, tracker) := tracker.trackedContent content
  { tracker with baselineByPath := tracker.baselineByPath.insert path tracked }

def insertCurrent (content : Text) : TurnDiffTracker K :=
  let (tracked, tracker) := tracker.trackedContent content
  { tracker with currentByPath := tracker.currentByPath.insert path tracked }

/-- Neither map holds the path. -/
def isUntracked : Bool :=
  (tracker.currentByPath.lookup path).isNone && (tracker.baselineByPath.lookup path).isNone

/-- What an untracked path held before a change, if it existed. -/
def noteBaseline (previous : Option Text) : TurnDiffTracker K :=
  if tracker.isUntracked path then
    match previous with
    | some content => tracker.insertBaseline path content
    | none => tracker
  else tracker

def applyAdd (content : Text) (overwrittenContent : Option Text) : TurnDiffTracker K :=
  let tracker :=
    { tracker with originByCurrentPath := tracker.originByCurrentPath.erase path }
  (tracker.noteBaseline path overwrittenContent).insertCurrent path content

def applyDelete (content : Text) : TurnDiffTracker K :=
  let removed := tracker.currentByPath.lookup path
  let tracker := { tracker with currentByPath := tracker.currentByPath.erase path }
  let tracker :=
    if removed.isNone && (tracker.baselineByPath.lookup path).isNone then
      tracker.insertBaseline path content
    else tracker
  { tracker with originByCurrentPath := tracker.originByCurrentPath.erase path }

/-- The file and where it came from go to the destination. -/
def moveCurrent (sourcePath destPath : TrackedPath K) (newContent : Text) : TurnDiffTracker K :=
  let origin := (tracker.originByCurrentPath.lookup sourcePath).getD sourcePath
  let tracker :=
    { tracker with
      originByCurrentPath := tracker.originByCurrentPath.erase sourcePath
      currentByPath := tracker.currentByPath.erase sourcePath }
  let tracker := tracker.insertCurrent destPath newContent
  let origins := tracker.originByCurrentPath.erase destPath
  { tracker with
    originByCurrentPath := if destPath ≠ origin then origins.insert destPath origin else origins }

def applyUpdate (sourcePath : TrackedPath K) (movePath : Option (TrackedPath K)) (oldContent : Text)
    (overwrittenMoveContent : Option Text) (newContent : Text) : TurnDiffTracker K :=
  let tracker := tracker.noteBaseline sourcePath (some oldContent)
  match movePath with
  | some destPath =>
    (tracker.noteBaseline destPath overwrittenMoveContent).moveCurrent sourcePath destPath
      newContent
  | none => tracker.insertCurrent sourcePath newContent

def applyChange (environmentId : Text) (tracker : TurnDiffTracker K)
    (change : AppliedPatchChange K) : TurnDiffTracker K :=
  let sourcePath : TrackedPath K := ⟨environmentId, change.path⟩
  match change.change with
  | .add content overwrittenContent => tracker.applyAdd sourcePath content overwrittenContent
  | .delete content => tracker.applyDelete sourcePath content
  | .update movePath oldContent overwrittenMoveContent newContent =>
    tracker.applyUpdate sourcePath (movePath.map fun path => ⟨environmentId, path⟩) oldContent
      overwrittenMoveContent newContent

def trackDelta (environmentId : Text) (delta : AppliedPatchDelta K) : TurnDiffTracker K :=
  if !tracker.valid then tracker
  else if !delta.exact then tracker.invalidate
  else delta.changes.foldl (applyChange environmentId) tracker

/-- The rename an entry of `origin_by_current_path` stands for. -/
def renamePair (destPath originPath : TrackedPath K) : Option (TrackedPath K × TrackedPath K) :=
  if destPath = originPath || (tracker.currentByPath.lookup originPath).isSome ||
      (tracker.currentByPath.lookup destPath).isNone ||
      (tracker.baselineByPath.lookup originPath).isNone ||
      (tracker.baselineByPath.lookup destPath).isSome then none
  else some (originPath, destPath)

/-- The destination of each renamed path, where `entries` are the entries of
`origin_by_current_path` in the order of the iteration: a later pair replaces an earlier one. -/
def renamePairs (entries : List ((_ : TrackedPath K) × TrackedPath K)) :
    Finmap fun _ : TrackedPath K => TrackedPath K :=
  (entries.filterMap fun entry => tracker.renamePair entry.1 entry.2).foldl
    (fun pairs pair => pairs.insert pair.1 pair.2) ∅

end TurnDiffTracker

end SushiGpt.TurnDiff
