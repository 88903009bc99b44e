/-
The diff that a turn shows: `refresh_unified_diff` of `core/src/turn_diff_tracker.rs`.

A diff is rendered for each path, or for each pair of a renamed path and its destination, and kept
under the revisions of the two contents.  How a path is displayed, the object ids and the line
diffs of two texts come from elsewhere; so do the orders in which the hash maps are iterated.
-/
import Mathlib.Data.Char
import Mathlib.Data.List.Lex
import SushiGpt.Core.TurnDiffTracker

namespace SushiGpt.TurnDiff

open ApplyPatch

variable {K : Type}

structure DiffCacheKey (K : Type) where
  leftPath : TrackedPath K
  leftRevision : Option Nat
  rightPath : TrackedPath K
  rightRevision : Option Nat
  deriving DecidableEq

structure Rendering (K : Type) where
  displayPath : TrackedPath K → Text
  gitBlobOid : Text → Text
  /-- The unified diff of two texts, with the headers of the two. -/
  unifiedDiff : Text → Text → Text → Text → Text
  /-- `origin_by_current_path` in the order of its iteration. -/
  originEntries : TurnDiffTracker K → List ((_ : TrackedPath K) × TrackedPath K)
  /-- The keys of the two maps in the order of their iteration. -/
  paths : TurnDiffTracker K → List (TrackedPath K)

namespace Rendering

def renderDiff (rendering : Rendering K) (leftPath : TrackedPath K) (leftContent : Option Text)
    (rightPath : TrackedPath K) (rightContent : Option Text) : Option Text :=
  if leftContent = rightContent then none
  else
    let zeroOid := List.replicate 40 '0'
    let devNull := "/dev/null".toList
    let display path := (rendering.displayPath path).map fun c => if c = '\\' then '/' else c
    let leftDisplay := display leftPath
    let rightDisplay := display rightPath
    let leftOid := leftContent.elim zeroOid rendering.gitBlobOid
    let rightOid := rightContent.elim zeroOid rendering.gitBlobOid
    let mode := match leftContent, rightContent with
      | none, some _ => "new file mode 100644\n".toList
      | some _, none => "deleted file mode 100644\n".toList
      | _, _ => []
    let oldHeader := if leftContent.isSome then "a/".toList ++ leftDisplay else devNull
    let newHeader := if rightContent.isSome then "b/".toList ++ rightDisplay else devNull
    some ("diff --git a/".toList ++ leftDisplay ++ " b/".toList ++ rightDisplay ++ ['\n'] ++ mode ++
      "index ".toList ++ leftOid ++ "..".toList ++ rightOid ++ ['\n'] ++
      rendering.unifiedDiff (leftContent.getD []) (rightContent.getD []) oldHeader newHeader)

end Rendering

structure RenderedTracker (K : Type) extends TurnDiffTracker K where
  renderedDiffs : AList fun _ : DiffCacheKey K => Option Text
  unifiedDiff : Option Text

/-- The variables of the loop that renders. -/
structure Refresh (K : Type) where
  handled : List (TrackedPath K)
  previousDiffs : AList fun _ : DiffCacheKey K => Option Text
  renderedDiffs : AList fun _ : DiffCacheKey K => Option Text
  aggregated : Text

/-- A diff is added, and a line end if it has none. -/
def pushDiff (aggregated : Text) : Option Text → Text
  | none => aggregated
  | some diff =>
    let aggregated := aggregated ++ diff
    if aggregated.getLast? = some '\n' then aggregated else aggregated ++ ['\n']

variable [DecidableEq K]

namespace TurnDiffTracker

def diffCacheKey (tracker : TurnDiffTracker K) (leftPath rightPath : TrackedPath K) :
    DiffCacheKey K :=
  ⟨leftPath, (tracker.baselineByPath.lookup leftPath).map (·.revision), rightPath,
    (tracker.currentByPath.lookup rightPath).map (·.revision)⟩

def renderPair (rendering : Rendering K) (tracker : TurnDiffTracker K)
    (leftPath rightPath : TrackedPath K) : Option Text :=
  rendering.renderDiff leftPath ((tracker.baselineByPath.lookup leftPath).map (·.content))
    rightPath ((tracker.currentByPath.lookup rightPath).map (·.content))

def refreshPath (rendering : Rendering K) (tracker : TurnDiffTracker K)
    (pairs : Finmap fun _ : TrackedPath K => TrackedPath K) (refresh : Refresh K)
    (path : TrackedPath K) : Refresh K :=
  if path ∈ refresh.handled then refresh
  else
    let refresh := { refresh with handled := path :: refresh.handled }
    if pairs.any fun _ dest => dest = path then refresh
    else
      let rightPath := (pairs.lookup path).getD path
      let key := tracker.diffCacheKey path rightPath
      let rendered := (refresh.previousDiffs.lookup key).getD
        (tracker.renderPair rendering path rightPath)
      { handled := (pairs.lookup path).toList ++ refresh.handled
        previousDiffs := refresh.previousDiffs.erase key
        renderedDiffs := refresh.renderedDiffs.insert key rendered
        aggregated := pushDiff refresh.aggregated rendered }

end TurnDiffTracker

namespace RenderedTracker

def new : RenderedTracker K := ⟨.new, ∅, none⟩

def invalidate (tracker : RenderedTracker K) : RenderedTracker K :=
  ⟨tracker.toTurnDiffTracker.invalidate, ∅, none⟩

def refreshUnifiedDiff (rendering : Rendering K) (tracker : RenderedTracker K) :
    RenderedTracker K :=
  let state := tracker.toTurnDiffTracker
  let pairs := state.renamePairs (rendering.originEntries state)
  let paths := ((rendering.paths state).mergeSort fun path other =>
    rendering.displayPath path ≤ rendering.displayPath other).destutter (· ≠ ·)
  let refresh := paths.foldl (state.refreshPath rendering pairs)
    ⟨[], tracker.renderedDiffs, ∅, []⟩
  { tracker with
    renderedDiffs := refresh.renderedDiffs
    unifiedDiff := if refresh.aggregated.isEmpty then none else some refresh.aggregated }

def trackDelta (rendering : Rendering K) (tracker : RenderedTracker K) (environmentId : Text)
    (delta : AppliedPatchDelta K) : RenderedTracker K :=
  if !tracker.valid then tracker
  else if !delta.exact then tracker.invalidate
  else
    refreshUnifiedDiff rendering { tracker with
      toTurnDiffTracker := delta.changes.foldl (TurnDiffTracker.applyChange environmentId)
        tracker.toTurnDiffTracker }

end RenderedTracker

end SushiGpt.TurnDiff
