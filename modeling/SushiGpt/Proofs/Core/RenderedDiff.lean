/-
The cache of rendered diffs changes nothing that is shown.

Every content that the tracker takes in gets a revision of its own, so the contents taken in, in
their order, say what each revision stands for.  The two maps and the cache agree with that list,
and the list only grows.
-/
import SushiGpt.Core.RenderedDiff

namespace SushiGpt.TurnDiff

open ApplyPatch TurnDiffTracker List

section Maps

variable {α : Type} {β : α → Type} [DecidableEq α] {P : Sigma β → Prop} {map : AList β} {a : α}

theorem forall_entries_erase (h : ∀ e ∈ map.entries, P e) (a : α) :
    ∀ e ∈ (map.erase a).entries, P e :=
  fun e he => h e ((kerase_sublist a map.entries).subset he)

theorem forall_entries_insert (h : ∀ e ∈ map.entries, P e) {b : β a} (hnew : P ⟨a, b⟩) :
    ∀ e ∈ (map.insert a b).entries, P e :=
  forall_mem_cons.mpr ⟨hnew, forall_entries_erase h a⟩

end Maps

variable {K : Type} [DecidableEq K] {cs m : List Text} {tracker : TurnDiffTracker K}
  {rendering : Rendering K}

/-! ### The contents taken in -/

def Stands (cs : List Text) (revision : Option Nat) (content : Option Text) : Prop :=
  revision.map (cs[·]?) = content.map some

theorem Stands.mono {r : Option Nat} {c : Option Text} (h : Stands cs r c) (hpre : cs <+: m) :
    Stands m r c := by
  obtain ⟨rest, rfl⟩ := hpre
  unfold Stands at h ⊢
  cases r with
  | none => exact h
  | some n =>
    cases c with
    | none => cases h
    | some t =>
      have hn : cs[n]? = some t := Option.some.inj h
      rw [Option.map_some, getElem?_append_left (List.getElem?_eq_some_iff.mp hn).1, hn]
      rfl

/-- The contents of a map are those of their revisions. -/
def Logs (cs : List Text) (map : AList fun _ : TrackedPath K => TrackedContent) : Prop :=
  ∀ entry ∈ map.entries, Stands cs (some entry.2.revision) (some entry.2.content)

theorem Logs.stands {map : AList fun _ : TrackedPath K => TrackedContent}
    (h : Logs cs map) (p : TrackedPath K) :
    Stands cs ((map.lookup p).map (·.revision)) ((map.lookup p).map (·.content)) := by
  cases hlook : map.lookup p with
  | none => rfl
  | some t => exact h _ (AList.mem_lookup_iff.mp hlook)

/-- The list is what the tracker has taken in. -/
structure Logged (cs : List Text) (tracker : TurnDiffTracker K) : Prop where
  next : tracker.nextRevision = cs.length
  baseline : Logs cs tracker.baselineByPath
  current : Logs cs tracker.currentByPath

/-- The tracker has taken in these contents first. -/
def Grown (cs : List Text) (tracker : TurnDiffTracker K) : Prop :=
  ∃ m, cs <+: m ∧ Logged m tracker

variable {ds : AList fun _ : DiffCacheKey K => Option Text}

namespace Grown

variable (h : Grown cs tracker)
include h

omit [DecidableEq K] in
theorem trackedContent (c : Text) :
    ∃ m, cs <+: m ∧ Logged m (tracker.trackedContent c).2 ∧
      Stands m (some tracker.nextRevision) (some c) := by
  obtain ⟨m, hpre, hnext, hbase, hcur⟩ := h
  have hmore : m <+: m ++ [c] := prefix_append _ _
  refine ⟨m ++ [c], hpre.trans hmore, ⟨?_, fun e he => (hbase e he).mono hmore,
    fun e he => (hcur e he).mono hmore⟩, ?_⟩
  · simp [TurnDiffTracker.trackedContent, hnext]
  · simp [Stands, hnext]

theorem insertBaseline (p : TrackedPath K) (c : Text) : Grown cs (tracker.insertBaseline p c) := by
  obtain ⟨m, hpre, hlog, hnew⟩ := h.trackedContent c
  exact ⟨m, hpre, { hlog with baseline := forall_entries_insert hlog.baseline hnew }⟩

theorem insertCurrent (p : TrackedPath K) (c : Text) : Grown cs (tracker.insertCurrent p c) := by
  obtain ⟨m, hpre, hlog, hnew⟩ := h.trackedContent c
  exact ⟨m, hpre, { hlog with current := forall_entries_insert hlog.current hnew }⟩

theorem eraseCurrent (p : TrackedPath K) :
    Grown cs { tracker with currentByPath := tracker.currentByPath.erase p } := by
  obtain ⟨m, hpre, hlog⟩ := h
  exact ⟨m, hpre, { hlog with current := forall_entries_erase hlog.current p }⟩

omit [DecidableEq K] in
theorem origins (os : AList fun _ : TrackedPath K => TrackedPath K) :
    Grown cs { tracker with originByCurrentPath := os } := by
  obtain ⟨m, hpre, hlog⟩ := h
  exact ⟨m, hpre, { hlog with }⟩

theorem noteBaseline (p : TrackedPath K)
    (content : Option Text) : Grown cs (tracker.noteBaseline p content) := by
  unfold TurnDiffTracker.noteBaseline
  split_ifs
  · cases content with
    | none => exact h
    | some c => exact h.insertBaseline p c
  · exact h

theorem applyChange (environmentId : Text)
    (change : AppliedPatchChange K) : Grown cs (applyChange environmentId tracker change) := by
  obtain ⟨p, change⟩ := change
  cases change with
  | add c o => exact ((h.origins _).noteBaseline _ _).insertCurrent _ _
  | delete c =>
    refine origins ?_ _
    split_ifs
    · exact (h.eraseCurrent _).insertBaseline _ _
    · exact h.eraseCurrent _
  | update d old o new =>
    cases d with
    | none => exact (h.noteBaseline _ _).insertCurrent _ _
    | some d =>
      have hnoted :=
        (h.noteBaseline ⟨environmentId, p⟩ (some old)).noteBaseline ⟨environmentId, d⟩ o
      exact (((hnoted.origins _).eraseCurrent _).insertCurrent _ _).origins _

end Grown

/-! ### The cache -/

/-- Every diff kept is the one of the contents that its key stands for. -/
def Cached (rendering : Rendering K) (cs : List Text)
    (diffs : AList fun _ : DiffCacheKey K => Option Text) : Prop :=
  ∀ entry ∈ diffs.entries, ∃ left right, Stands cs entry.1.leftRevision left ∧
    Stands cs entry.1.rightRevision right ∧
    entry.2 = rendering.renderDiff entry.1.leftPath left entry.1.rightPath right

/-- **A hit is what rendering gives.** -/
theorem Cached.hit (h : Cached rendering cs ds)
    (hlog : Logged cs tracker) {left right : TrackedPath K} {r : Option Text}
    (hhit : ds.lookup (tracker.diffCacheKey left right) = some r) :
    r = tracker.renderPair rendering left right := by
  obtain ⟨lc, rc, hleft, hright, heq⟩ := h _ (AList.mem_lookup_iff.mp hhit)
  have hinj := Option.map_injective (Option.some_injective Text)
  rw [hinj (hleft.symm.trans (hlog.baseline.stands left)),
    hinj (hright.symm.trans (hlog.current.stands right))] at heq
  exact heq

/-! ### The loop -/

namespace TurnDiffTracker

/-- One path of a diff that is rendered from nothing: the paths rendered so far and the text. -/
def showPath (rendering : Rendering K) (tracker : TurnDiffTracker K)
    (pairs : Finmap fun _ : TrackedPath K => TrackedPath K) (shown : List (TrackedPath K) × Text)
    (path : TrackedPath K) : List (TrackedPath K) × Text :=
  if shown.1.contains path then shown
  else if pairs.any fun _ dest => dest = path then shown
  else (path :: shown.1,
    pushDiff shown.2 (tracker.renderPair rendering path ((pairs.lookup path).getD path)))

/-- The diff of each path that is no destination of a rename, in the order of the paths. -/
def diffAfresh (rendering : Rendering K) (tracker : TurnDiffTracker K) : Option Text :=
  let pairs := tracker.renamePairs (rendering.originEntries tracker)
  let paths := ((rendering.paths tracker).mergeSort fun path other =>
    rendering.displayPath path ≤ rendering.displayPath other).destutter (· ≠ ·)
  let text := (paths.foldl (tracker.showPath rendering pairs) ([], [])).2
  if text.isEmpty then none else some text

end TurnDiffTracker

/-- The loop has shown the same text, and its caches are right. -/
structure Alike (rendering : Rendering K) (cs : List Text)
    (pairs : Finmap fun _ : TrackedPath K => TrackedPath K) (refresh : Refresh K)
    (shown : List (TrackedPath K) × Text) : Prop where
  /-- A destination is handled with its source, and never rendered. -/
  handled : ∀ path, ¬ pairs.any (fun _ dest => dest = path) →
    (path ∈ refresh.handled ↔ path ∈ shown.1)
  aggregated : refresh.aggregated = shown.2
  previous : Cached rendering cs refresh.previousDiffs
  rendered : Cached rendering cs refresh.renderedDiffs

theorem any_of_lookup {pairs : Finmap fun _ : TrackedPath K => TrackedPath K}
    {path dest : TrackedPath K} (h : pairs.lookup path = some dest) :
    pairs.any (fun _ other => other = dest) := by
  induction pairs using Finmap.induction_on with
  | _ pairs =>
    have hfold : ∀ (entries : List ((_ : TrackedPath K) × TrackedPath K)) (found : Bool),
        entries.foldl (fun found entry => found || decide (entry.2 = dest)) found =
          (found || entries.any fun entry => entry.2 = dest) := by
      intro entries
      induction entries with
      | nil => simp
      | cons entry entries ih => simp [ih, Bool.or_assoc]
    refine (hfold pairs.entries false).trans (any_eq_true.mpr ⟨⟨path, dest⟩, ?_, by simp⟩)
    exact AList.mem_lookup_iff.mp h

theorem Alike.refreshPath {pairs : Finmap fun _ : TrackedPath K => TrackedPath K} {r : Refresh K}
    {shown : List (TrackedPath K) × Text} (h : Alike rendering cs pairs r shown)
    (hlog : Logged cs tracker) (path : TrackedPath K) :
    Alike rendering cs pairs (tracker.refreshPath rendering pairs r path)
      (tracker.showPath rendering pairs shown path) := by
  have hhit (right : TrackedPath K) :
      (r.previousDiffs.lookup (tracker.diffCacheKey path right)).getD
        (tracker.renderPair rendering path right) = tracker.renderPair rendering path right := by
    cases hhit : r.previousDiffs.lookup (tracker.diffCacheKey path right) with
    | none => rfl
    | some kept => exact h.previous.hit hlog hhit
  unfold TurnDiffTracker.refreshPath showPath
  by_cases hdest : pairs.any (fun _ dest => dest = path)
  · simp only [hdest, if_true, ite_self]
    split_ifs
    · exact h
    · refine { h with handled := fun other hother => ?_ }
      have hne : other ≠ path := by
        rintro rfl
        exact hother hdest
      rw [mem_cons, or_iff_right hne, h.handled other hother]
  · by_cases hmem : path ∈ shown.1
    · rw [if_pos ((h.handled path hdest).mpr hmem), if_pos (contains_iff_mem.mpr hmem)]
      exact h
    · rw [if_neg (mt (h.handled path hdest).mp hmem), if_neg (mt contains_iff_mem.mp hmem)]
      simp only [hdest, Bool.false_eq_true, if_false, hhit, h.aggregated]
      refine ⟨fun other hother => ?_, rfl, forall_entries_erase h.previous _,
        forall_entries_insert h.rendered
          ⟨_, _, hlog.baseline.stands path, hlog.current.stands _, rfl⟩⟩
      have hsource : other ∉ (pairs.lookup path).toList := fun hmem =>
        hother (any_of_lookup (Option.mem_toList.mp hmem))
      rw [mem_append, or_iff_right hsource, mem_cons, mem_cons, h.handled other hother]

theorem foldl_alike (hlog : Logged cs tracker) (hcached : Cached rendering cs ds)
    (pairs : Finmap fun _ : TrackedPath K => TrackedPath K) (paths : List (TrackedPath K)) :
    Alike rendering cs pairs (paths.foldl (tracker.refreshPath rendering pairs) ⟨[], ds, ∅, []⟩)
      (paths.foldl (tracker.showPath rendering pairs) ([], [])) :=
  foldl_rel ⟨fun _ _ => Iff.rfl, rfl, hcached, nofun⟩ fun path _ _ _ h => h.refreshPath hlog path

/-! ### Runs -/

/-- A tracker without a cache, and the diff it shows. -/
def trackDeltaAfresh (rendering : Rendering K) (state : TurnDiffTracker K × Option Text)
    (environmentId : Text) (delta : AppliedPatchDelta K) : TurnDiffTracker K × Option Text :=
  if !state.1.valid then state
  else if !delta.exact then (state.1.invalidate, none)
  else
    let next := delta.changes.foldl (applyChange environmentId) state.1
    (next, next.diffAfresh rendering)

/-- A tracker with a cache and one that renders afresh, after the same deltas. -/
structure InStep (rendering : Rendering K) (tracker : RenderedTracker K)
    (fresh : TurnDiffTracker K × Option Text) : Prop where
  same : (tracker.toTurnDiffTracker, tracker.unifiedDiff) = fresh
  cached : ∃ cs, Logged cs tracker.toTurnDiffTracker ∧ Cached rendering cs tracker.renderedDiffs

variable {fresh : TurnDiffTracker K × Option Text}

/-- The contents taken in after some changes, with the cache of before. -/
theorem InStep.applyChanges {tracker : RenderedTracker K} (h : InStep rendering tracker fresh)
    (environmentId : Text) (changes : List (AppliedPatchChange K)) :
    ∃ cs, Logged cs (changes.foldl (applyChange environmentId) tracker.toTurnDiffTracker) ∧
      Cached rendering cs tracker.renderedDiffs := by
  obtain ⟨cs, hlog, hcached⟩ := h.cached
  have hgrown : Grown cs tracker.toTurnDiffTracker := ⟨cs, prefix_rfl, hlog⟩
  obtain ⟨m, hpre, hmore⟩ := foldlRecOn changes (applyChange environmentId) hgrown
    fun _ hgrown change _ => hgrown.applyChange environmentId change
  refine ⟨m, hmore, fun e he => ?_⟩
  obtain ⟨left, right, hleft, hright, heq⟩ := hcached e he
  exact ⟨left, right, hleft.mono hpre, hright.mono hpre, heq⟩

theorem InStep.trackDelta {tracker : RenderedTracker K} (h : InStep rendering tracker fresh)
    (environmentId : Text) (delta : AppliedPatchDelta K) :
    InStep rendering (tracker.trackDelta rendering environmentId delta)
      (trackDeltaAfresh rendering fresh environmentId delta) := by
  obtain ⟨cs, hlog, hcached⟩ := h.applyChanges environmentId delta.changes
  unfold trackDeltaAfresh RenderedTracker.trackDelta
  obtain rfl := h.same
  dsimp only
  split_ifs
  · exact h
  · obtain ⟨cs, hlog, -⟩ := h.cached
    exact ⟨rfl, cs, { hlog with }, nofun⟩
  · have halike := foldl_alike hlog hcached
    exact ⟨congrArg (fun text : Text => (_, if text.isEmpty then none else some text))
      (halike _ _).aggregated, cs, hlog, (halike _ _).rendered⟩

/-- **The diff shown is the one of a tracker without a cache, which renders every pair, and what the
cache has for a pair is the diff of its contents.** -/
theorem unifiedDiff_eq_afresh (rendering : Rendering K)
    (deltas : List (Text × AppliedPatchDelta K)) :
    let tracker := deltas.foldl (fun tracker d =>
      RenderedTracker.trackDelta rendering tracker d.1 d.2) .new
    tracker.unifiedDiff = (deltas.foldl (fun state d =>
      trackDeltaAfresh rendering state d.1 d.2) (.new, none)).2 ∧
    ∀ environmentId (changes : List (AppliedPatchChange K)) left right diff,
      let state : TurnDiffTracker K :=
        changes.foldl (applyChange environmentId) tracker.toTurnDiffTracker
      tracker.renderedDiffs.lookup (state.diffCacheKey left right) = some diff →
        diff = state.renderPair rendering left right := by
  have hstart : InStep rendering (.new : RenderedTracker K) (.new, none) :=
    ⟨rfl, [], ⟨rfl, nofun, nofun⟩, nofun⟩
  have h := foldl_rel (l := deltas) hstart fun d _ _ _ h => h.trackDelta d.1 d.2
  refine ⟨congrArg Prod.snd h.same, fun environmentId changes left right diff hhit => ?_⟩
  obtain ⟨cs, hlog, hcached⟩ := h.applyChanges environmentId changes
  exact hcached.hit hlog hhit

end SushiGpt.TurnDiff
