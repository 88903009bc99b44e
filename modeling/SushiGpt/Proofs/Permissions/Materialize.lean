/-
What materializing workspace roots does to a policy.

For each workspace root an entry about the roots meets one of three fates.  Its path
stays inside the root and is *kept*, or it leaves the root and has *escaped*: the
materialized policy does not have it, and if it was not a write, the root is *closed*
instead.  So the symbolic policy grants what is kept and what escaped, the materialized
one what is kept and denials for the closed roots, and the comparison of
`Lib/MostSpecific` applies: the materialized policy is looser somewhere exactly if an
escaped entry was all that held a kept grant back.
-/
import SushiGpt.Permissions.Materialize
import SushiGpt.Proofs.Permissions.Resolve

namespace SushiGpt.Permissions

open MostSpecific FileSystemSandboxPolicy List FileSystemAccessMode
open Option hiding mem_map

/-- How much an access mode permits. -/
def FileSystemAccessMode.capability : FileSystemAccessMode → Nat
  | deny => 0
  | read => 1
  | write => 2

/-! ### The fates of an entry -/

section Fates

variable (u : UrlOps) (context : FileSystemSandboxPolicyContext)

/-- The paths of the entry that the materialized policy has too. -/
def keptPaths (entry : FileSystemSandboxEntry) : List PathUri :=
  match entry.path with
  | .special (.projectRoots subpath) =>
    context.workspaceRoots.filterMap (scopedPath u subpath false)
  | path => FileSystemSandboxPolicy.entryPaths u context path

/-- The paths of the entry that leave their workspace root. -/
def escapedPaths (entry : FileSystemSandboxEntry) : List PathUri :=
  match entry.path with
  | .special (.projectRoots (some subpath)) =>
    (context.workspaceRoots.filter fun root =>
      (resolveScopedWorkspacePath u root subpath).isNone).filterMap fun root =>
        (root.join u subpath).toOption
  | _ => []

/-- The workspace roots that are denied in place of the entry. -/
def closedRoots (entry : FileSystemSandboxEntry) : List PathUri :=
  match projectRootsSubpath entry.path with
  | none => []
  | some (subpath, isGlob) =>
    if entry.access.canWrite then []
    else context.workspaceRoots.filter fun root => (scopedPath u subpath isGlob root).isNone

/-- The entries with the given paths that follow the context's convention. -/
def entriesWith (paths : FileSystemSandboxEntry → List PathUri)
    (access : FileSystemSandboxEntry → FileSystemAccessMode)
    (entries : List FileSystemSandboxEntry) : List (PathUri × FileSystemAccessMode) :=
  entries.flatMap fun entry =>
    ((paths entry).filter fun path =>
      path.inferPathConvention == context.cwd.inferPathConvention).map fun path =>
        (path, access entry)

def keptEntries (policy : FileSystemSandboxPolicy) : List (PathUri × FileSystemAccessMode) :=
  entriesWith context (keptPaths u context) (·.access) policy.entries

def escapedEntries (policy : FileSystemSandboxPolicy) : List (PathUri × FileSystemAccessMode) :=
  entriesWith context (escapedPaths u context) (·.access) policy.entries

def closedEntries (policy : FileSystemSandboxPolicy) : List (PathUri × FileSystemAccessMode) :=
  entriesWith context (closedRoots u context) (fun _ => .deny) policy.entries

end Fates

variable {a b : List (PathUri × FileSystemAccessMode)} {x : PathUri × FileSystemAccessMode}
  {m : FileSystemSandboxPolicy}

section Members

variable {u : UrlOps} {context : FileSystemSandboxPolicyContext} {entry : FileSystemSandboxEntry}

theorem mem_entriesWith {ps : FileSystemSandboxEntry → List PathUri}
    {a : FileSystemSandboxEntry → FileSystemAccessMode} {es : List FileSystemSandboxEntry} :
    x ∈ entriesWith context ps a es ↔
      ∃ entry ∈ es, x.1 ∈ ps entry ∧
        x.1.inferPathConvention = context.cwd.inferPathConvention ∧ a entry = x.2 := by
  simp only [entriesWith, mem_flatMap, mem_map, mem_filter, beq_iff_eq]
  constructor
  · rintro ⟨entry, he, p, ⟨hp, hcv⟩, rfl⟩
    exact ⟨entry, he, hp, hcv, rfl⟩
  · rintro ⟨entry, he, hp, hcv, hacc⟩
    exact ⟨entry, he, x.1, ⟨hp, hcv⟩, Prod.ext rfl hacc⟩

theorem resolvedEntries_eq (policy : FileSystemSandboxPolicy) :
    policy.resolvedEntries u context =
      entriesWith context (fun entry => entryPaths u context entry.path)
        (·.access) policy.entries := rfl

theorem join_of_resolveScoped {r p : PathUri} {s : Text}
    (h : resolveScopedWorkspacePath u r s = some p) : (r.join u s).toOption = some p := by
  simp only [resolveScopedWorkspacePath, bind_eq_bind, bind_eq_some_iff] at h
  obtain ⟨c, -, h⟩ := h
  split at h
  · cases h
  · obtain ⟨j, hjoin, h⟩ := bind_eq_some_iff.1 h
    split at h
    · obtain rfl := Option.some.inj h
      exact hjoin
    · cases h

theorem mem_entryPaths {path : PathUri} :
    path ∈ entryPaths u context entry.path ↔
      path ∈ keptPaths u context entry ∨ path ∈ escapedPaths u context entry := by
  unfold keptPaths escapedPaths
  cases hp : entry.path with
  | path uri | globPattern pattern => simp
  | special value =>
    cases value with
    | projectRoots subpath =>
      cases subpath with
      | none => simp [entryPaths, scopedPath]
      | some subpath =>
        simp only [entryPaths, mem_filterMap,
          mem_filter, scopedPath, Bool.false_and, Bool.false_eq_true, if_false,
          isNone_iff_eq_none]
        constructor
        · rintro ⟨root, hr, hjoin⟩
          cases hscop : resolveScopedWorkspacePath u root subpath with
          | none => exact .inr ⟨root, ⟨hr, hscop⟩, hjoin⟩
          | some inside =>
            have heq := (join_of_resolveScoped hscop).symm.trans hjoin
            exact .inl ⟨root, hr, hscop.trans heq⟩
        · rintro (⟨root, hr, hscop⟩ | ⟨root, ⟨hr, -⟩, hjoin⟩)
          · exact ⟨root, hr, join_of_resolveScoped hscop⟩
          · exact ⟨root, hr, hjoin⟩
    | root | minimal | tmpdir | slashTmp | unknown path subpath => simp

/-- The symbolic policy has what is kept and what escaped. -/
theorem mem_resolvedEntries {policy : FileSystemSandboxPolicy} :
    x ∈ policy.resolvedEntries u context ↔
      x ∈ keptEntries u context policy ∨ x ∈ escapedEntries u context policy := by
  simp only [resolvedEntries_eq, keptEntries, escapedEntries, mem_entriesWith, mem_entryPaths,
    or_and_right, and_or_left, exists_or]

/-- One entry for one root, resolved: the path inside the root, or the root denied. -/
theorem materializeForRoot_paths {s : Option Text} {isGlob : Bool} {r : PathUri} :
    (∃ m, materializeForRoot u entry s isGlob r = some m ∧
        x.1 ∈ entryPaths u context m.path ∧ m.access = x.2) ↔
      (isGlob = false ∧ scopedPath u s isGlob r = some x.1 ∧ entry.access = x.2) ∨
        (scopedPath u s isGlob r = none ∧ entry.access.canWrite = false ∧ r = x.1 ∧
          deny = x.2) := by
  unfold materializeForRoot
  cases scopedPath u s isGlob r with
  | none =>
    cases entry.access.canWrite with
    | true => simp
    | false => simp [entryPaths, eq_comm (a := x.1)]
  | some i =>
    cases isGlob with
    | true => simp [entryPaths]
    | false => simp [entryPaths, eq_comm (a := x.1)]

/-- An entry about the workspace roots, resolved for all of them. -/
theorem materialized_paths {s : Option Text} {isGlob : Bool}
    (h : projectRootsSubpath entry.path = some (s, isGlob)) :
    (∃ m ∈ context.workspaceRoots.filterMap (materializeForRoot u entry s isGlob),
        x.1 ∈ entryPaths u context m.path ∧ m.access = x.2) ↔
      (x.1 ∈ keptPaths u context entry ∧ entry.access = x.2) ∨
        (x.1 ∈ closedRoots u context entry ∧ deny = x.2) := by
  have hkept : x.1 ∈ keptPaths u context entry ↔
      ∃ r ∈ context.workspaceRoots, isGlob = false ∧ scopedPath u s isGlob r = some x.1 := by
    unfold keptPaths
    unfold projectRootsSubpath at h
    split at h
    · rename_i hp
      obtain ⟨rfl, rfl⟩ := Prod.mk.inj (Option.some.inj h)
      rw [hp]
      simp [mem_filterMap]
    · rename_i p hp
      split at h
      · obtain ⟨rfl, rfl⟩ := Prod.mk.inj (Option.some.inj h)
        rw [hp]
        simp [entryPaths]
      · cases h
    · cases h
  have hcl : x.1 ∈ closedRoots u context entry ↔
      ∃ r ∈ context.workspaceRoots, scopedPath u s isGlob r = none ∧
        entry.access.canWrite = false ∧ r = x.1 := by
    unfold closedRoots
    rw [h]
    cases entry.access.canWrite with
    | true => simp
    | false => simp [mem_filter, isNone_iff_eq_none]
  rw [hkept, hcl]
  constructor
  · rintro ⟨m, hmade, hp⟩
    obtain ⟨r, hr, hmade⟩ := mem_filterMap.1 hmade
    rcases materializeForRoot_paths.1 ⟨m, hmade, hp⟩ with
      ⟨hglob, hins, hacc⟩ | ⟨hn, hw, hx, hacc⟩
    · exact .inl ⟨⟨r, hr, hglob, hins⟩, hacc⟩
    · exact .inr ⟨⟨r, hr, hn, hw, hx⟩, hacc⟩
  · rintro (⟨⟨r, hr, hglob, hins⟩, hacc⟩ | ⟨⟨r, hr, hn, hw, hx⟩, hacc⟩)
    · obtain ⟨m, hmade, hp⟩ := materializeForRoot_paths.2 (.inl ⟨hglob, hins, hacc⟩)
      exact ⟨m, mem_filterMap.2 ⟨r, hr, hmade⟩, hp⟩
    · obtain ⟨m, hmade, hp⟩ := materializeForRoot_paths.2 (.inr ⟨hn, hw, hx, hacc⟩)
      exact ⟨m, mem_filterMap.2 ⟨r, hr, hmade⟩, hp⟩

theorem mem_materializeEntries : ∀ {es m : List FileSystemSandboxEntry},
    materializeEntries u context.workspaceRoots es = some m →
    ∀ x : PathUri × FileSystemAccessMode,
      (∃ e ∈ m, x.1 ∈ entryPaths u context e.path ∧ e.access = x.2) ↔
        ∃ e ∈ es, (x.1 ∈ keptPaths u context e ∧ e.access = x.2) ∨
          (x.1 ∈ closedRoots u context e ∧ deny = x.2) := by
  intro es
  induction es with
  | nil =>
    intro m h x
    obtain rfl := Option.some.inj h
    simp
  | cons entry r ih =>
    intro m h x
    unfold materializeEntries at h
    split at h
    · rename_i ho
      obtain ⟨more, hmore, rfl⟩ := map_eq_some_iff.1 h
      have hkept : keptPaths u context entry = entryPaths u context entry.path := by
        unfold keptPaths
        split
        · rename_i s hp
          rw [hp] at ho
          cases ho
        · rfl
      simp only [exists_mem_cons_iff, ih hmore x, hkept, closedRoots, ho, not_mem_nil, false_and,
        or_false]
    · rename_i s isGlob hroots
      split at h
      · cases h
      · obtain ⟨more, hmore, rfl⟩ := map_eq_some_iff.1 h
        rw [exists_mem_cons_iff, ← ih hmore x, ← materialized_paths hroots]
        simp only [mem_append, or_and_right, exists_or]

/-- The materialized policy has what is kept and the closed roots denied. -/
theorem mem_resolvedEntries_materialized {policy : FileSystemSandboxPolicy}
    (h : policy.tryMaterializeProjectRootsWithPathUris u context.workspaceRoots = some m) :
    x ∈ m.resolvedEntries u context ↔
      x ∈ keptEntries u context policy ∨ x ∈ closedEntries u context policy := by
  obtain ⟨es, hents, rfl⟩ := map_eq_some_iff.1 h
  have hmem := mem_materializeEntries hents x
  simp only [resolvedEntries_eq, keptEntries, closedEntries, mem_entriesWith]
  by_cases hcv : x.1.inferPathConvention = context.cwd.inferPathConvention
  · simp only [hcv, true_and, hmem, and_or_left, exists_or]
  · simp only [hcv, false_and, and_false, exists_false, or_false]

theorem materializeEntries_eq_none {wr : List PathUri} :
    ∀ {es : List FileSystemSandboxEntry}, materializeEntries u wr es = none ↔
        ∃ entry ∈ es, ∃ s isGlob,
          projectRootsSubpath entry.path = some (s, isGlob) ∧
            isHomeRelativeDenial wr entry.access s = true := by
  intro es
  induction es with
  | nil => simp [materializeEntries]
  | cons entry r ih =>
    unfold materializeEntries
    rw [exists_mem_cons_iff]
    split
    · rename_i ho
      simp [ih, ho]
    · rename_i s isGlob hroots
      cases hhome : isHomeRelativeDenial wr entry.access s with
      | true => simp [hroots, hhome]
      | false => simp [hroots, hhome, ih]

end Members

/-! ### Where a materialized policy is looser -/

section Looser

variable (u : UrlOps) (policy : FileSystemSandboxPolicy)
  (context : FileSystemSandboxPolicyContext)

/-- An entry escaped that was all that held a kept grant back, and nothing else denies the
place: the policy was not cleared for a home-relative denial, and the closed roots can
be read. -/
structure Loosened : Prop where
  cwdPlaced : context.cwd.place.isSome = true
  notCleared : ∀ entry ∈ policy.entries, ∀ subpath isGlob,
    projectRootsSubpath entry.path = some (subpath, isGlob) →
      isHomeRelativeDenial context.workspaceRoots entry.access subpath = false
  closedReadable : ∀ e ∈ closedEntries u context policy, e.1.place.isSome ∨ e.1.isOpaque
  uncovers : ∃ e ∈ placesOf (escapedEntries u context policy),
    ∃ g ∈ placesOf (keptEntries u context policy),
      Uncovers (placesOf (policy.resolvedEntries u context))
        (placesOf (keptEntries u context policy ++ closedEntries u context policy))
        capability e g

variable {u policy context}

theorem mem_placesOf_append {g : Grant} :
    g ∈ placesOf (a ++ b) ↔ g ∈ placesOf a ∨ g ∈ placesOf b := by
  simp [placesOf]

theorem mem_placesOf_congr
    (h : ∀ x, x ∈ a ↔ x ∈ b) (g : Grant) : g ∈ placesOf a ↔ g ∈ placesOf b := by
  simp only [mem_placesOf, h]

theorem mem_placesOf_resolvedEntries {g : Grant} :
    g ∈ placesOf (policy.resolvedEntries u context) ↔
      g ∈ placesOf (keptEntries u context policy) ∨
        g ∈ placesOf (escapedEntries u context policy) := by
  rw [← mem_placesOf_append]
  exact mem_placesOf_congr (fun x => mem_resolvedEntries.trans mem_append.symm) g

theorem closedEntries_deny {g : Grant} (h : g ∈ placesOf (closedEntries u context policy)) :
    g.2 = .deny := by
  obtain ⟨e, he, -, hacc⟩ := mem_placesOf.1 h
  obtain ⟨entry, -, -, -, hdn⟩ := mem_entriesWith.1 he
  exact hacc.symm.trans hdn.symm

theorem resolveAccess_nil (p : PathUri) : (restricted []).resolveAccess u p context = .deny := by
  unfold resolveAccess
  dsimp only [restricted]
  split
  · rfl
  · split <;> rfl

/-- What the materialized policy grants: everything kept and the closed roots denied, or
nothing when a closed root cannot be read. -/
theorem accessAt_materialized
    (hrd : ∀ e ∈ policy.resolvedEntries u context, e.1.place.isSome ∨ e.1.isOpaque)
    (h : policy.tryMaterializeProjectRootsWithPathUris u context.workspaceRoots = some m)
    (p : List Text) :
    ((∀ e ∈ closedEntries u context policy, e.1.place.isSome ∨ e.1.isOpaque) ∧
        accessAt (m.grants u context) p =
          (lookup (placesOf (keptEntries u context policy ++ closedEntries u context policy))
            p).getD .deny) ∨
      ((¬ ∀ e ∈ closedEntries u context policy, e.1.place.isSome ∨ e.1.isOpaque) ∧
        accessAt (m.grants u context) p = .deny) := by
  have hmem {x} := mem_resolvedEntries_materialized (x := x) h
  by_cases hcl : ∀ e ∈ closedEntries u context policy, e.1.place.isSome ∨ e.1.isOpaque
  · left
    have hgr : m.grants u context = some (placesOf (m.resolvedEntries u context)) := by
      refine placed_eq_some_iff.2 ⟨fun e he => ?_, rfl⟩
      rcases hmem.1 he with hkept | hc
      · exact hrd e (mem_resolvedEntries.2 (.inl hkept))
      · exact hcl e hc
    refine ⟨hcl, ?_⟩
    rw [accessAt, hgr, bind_some]
    rw [lookup_congr p (mem_placesOf_congr fun x => hmem.trans mem_append.symm)]
  · right
    have hgr : m.grants u context = none := by
      cases hg : m.grants u context with
      | none => rfl
      | some g =>
        obtain ⟨hall, -⟩ := placed_eq_some_iff.1 hg
        exact absurd (fun e he => hall e (hmem.2 (.inr he))) hcl
    exact ⟨hcl, by rw [accessAt, hgr]; rfl⟩

/-- **Materializing never loosens a policy, except where an escaped entry uncovers a
grant.** -/
theorem materialized_at_most_iff (hkind : policy.kind = .restricted)
    (hconv : context.cwd.inferPathConvention = some .posix)
    (hlexical : (policy.grants u context).isSome) :
    (∀ path, ((policy.materializeProjectRootsWithPathUris u
        context.workspaceRoots).resolveAccess u path context).capability ≤
          (policy.resolveAccess u path context).capability) ↔
      ¬ Loosened u policy context := by
  obtain ⟨f, hfull⟩ := isSome_iff_exists.1 hlexical
  obtain ⟨hrd, rfl⟩ := placed_eq_some_iff.1 hfull
  unfold materializeProjectRootsWithPathUris
  cases hmade : policy.tryMaterializeProjectRootsWithPathUris u context.workspaceRoots with
  | none =>
    rw [getD_none]
    refine iff_of_true (fun path => ?_) fun h => ?_
    · rw [resolveAccess_nil]
      exact Nat.zero_le _
    · obtain ⟨entry, hent, s, isGlob, hroots, hhome⟩ :=
        materializeEntries_eq_none.1 (map_eq_none_iff.1 hmade)
      rw [h.notCleared entry hent s isGlob hroots] at hhome
      cases hhome
  | some m =>
    rw [getD_some]
    have hmad : m.kind = .restricted := by
      obtain ⟨es, -, rfl⟩ := map_eq_some_iff.1 hmade
      exact hkind
    constructor
    · intro hle hloose
      obtain ⟨e, he, g, hg, hunc⟩ := hloose.uncovers
      -- The escaped path itself is where the two differ.
      obtain ⟨esc, -, hpl, -⟩ := mem_placesOf.1 he
      have hat := hle esc.1
      rw [resolveAccess_eq hkind hloose.cwdPlaced hpl,
        resolveAccess_eq hmad hloose.cwdPlaced hpl] at hat
      have hgain := hunc.gain (mem_placesOf_resolvedEntries.2 (.inr he))
        (mem_placesOf_append.2 (.inl hg)) deny
      rcases accessAt_materialized hrd hmade e.1 with ⟨-, hmat⟩ | ⟨hno, -⟩
      · rw [hmat, accessAt, hfull] at hat
        exact absurd hgain (not_lt.2 hat)
      · exact hno hloose.closedReadable
    · intro hnot path
      by_contra hgt
      have hplac : path.place.isSome ∧ context.cwd.place.isSome := by
        by_contra hno
        refine hgt ?_
        rw [resolveAccess_of_place_eq_none hmad hconv]
        · exact Nat.zero_le _
        · simpa [Decidable.not_and_iff_or_not, imp_iff_not_or] using hno
      obtain ⟨hp, hcwd⟩ := hplac
      obtain ⟨k, hk⟩ := isSome_iff_exists.1 hp
      rw [resolveAccess_eq hkind hcwd hk, resolveAccess_eq hmad hcwd hk, not_le] at hgt
      rcases accessAt_materialized hrd hmade k with ⟨hcl, hmat⟩ | ⟨-, hmat⟩
      · rw [hmat, accessAt, hfull, bind_some] at hgt
        refine hnot ⟨hcwd, ?_, hcl, ?_⟩
        · intro entry hent s isGlob hroots
          by_contra hhome
          have hn : materializeEntries u context.workspaceRoots policy.entries = none :=
            materializeEntries_eq_none.2
              ⟨entry, hent, s, isGlob, hroots, Bool.not_eq_false _ ▸ hhome⟩
          rw [tryMaterializeProjectRootsWithPathUris, hn] at hmade
          cases hmade
        · exact exists_uncovers_of_gain (fun x => mem_placesOf_resolvedEntries)
            (fun x => mem_placesOf_append)
            (fun x hx => by rw [closedEntries_deny hx]; rfl) rfl hgt
      · rw [hmat] at hgt
        exact absurd hgt (Nat.not_lt_zero _)

end Looser

/-! ### A workspace with a secret

The whole disk may be written, except for a `secret` named relative to the workspace. -/

def workspace : PathUri := .url none ["ws".toList] (by decide)

/-- One workspace, which is also where the context is. -/
def workspaceContext : FileSystemSandboxPolicyContext := ⟨workspace, [workspace], none, none⟩

/-- Write everywhere but at one subpath of the workspace. -/
def allBut (subpath : Text) : FileSystemSandboxPolicy :=
  .restricted [⟨.special .root, .write, none⟩,
    ⟨.special (.projectRoots (some subpath)), .deny, none⟩]

theorem denial_inside_workspace_materializes :
    ((allBut "secret".toList).grants .encoding workspaceContext).isSome ∧ ∀ path,
    (((allBut "secret".toList).materializeProjectRootsWithPathUris .encoding
      workspaceContext.workspaceRoots).resolveAccess .encoding path workspaceContext).capability ≤
        ((allBut "secret".toList).resolveAccess .encoding path workspaceContext).capability := by
  refine ⟨by decide, (materialized_at_most_iff rfl (by decide) (by decide)).2 fun h => ?_⟩
  obtain ⟨e, he, -⟩ := h.uncovers
  have hn : escapedEntries .encoding workspaceContext (allBut "secret".toList) = [] := by decide
  cases he

/-- A denial beside the workspace is lost, and the place it was about can be written. -/
theorem denial_beside_workspace_lost :
    ((allBut "../secret".toList).materializeProjectRootsWithPathUris .encoding
        workspaceContext.workspaceRoots).resolveAccess .encoding
          (.url none ["secret".toList] (by decide)) workspaceContext = .write ∧
      (allBut "../secret".toList).resolveAccess .encoding
        (.url none ["secret".toList] (by decide)) workspaceContext = .deny := by
  decide

end SushiGpt.Permissions
