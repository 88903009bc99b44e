/-
What an intersection of permission profiles grants.

The entries of both profiles are paths, the whole file system, or workspace roots, which
materializing turns into paths.  Each such entry has a place, and in terms of places the
code of `policy_transforms.rs` computes the intersection of `Intersection.lean`: an entry
is accepted exactly when its grant is (`withinRequest_iff`), and a denial retained
exactly when it touches an accepted grant (`constrains_iff`).
-/
import SushiGpt.Proofs.Sandboxing.Intersection

namespace SushiGpt.Sandboxing

open Permissions MostSpecific FileSystemSandboxPolicy PathUri List
open Option hiding any_eq_true any_map or_assoc

/-- Entries about paths and the whole file system. -/
def OnlyPaths (es : List FileSystemSandboxEntry) : Prop :=
  ∀ e ∈ es, e.path = .special .root ∨ ∃ p, e.path = .path p

def entryPlace (e : FileSystemSandboxEntry) : Option (List Text) :=
  match e.path with
  | .path p => p.place
  | .special .root => some []
  | _ => none

variable {u : UrlOps} {gs : GlobOps} {ctx : FileSystemSandboxPolicyContext}
  {e a entry x : FileSystemSandboxEntry} {es : List FileSystemSandboxEntry} {k : List Text}

theorem resolvePermissionPath_place (hcwd : ctx.cwd.place.isSome)
    (h : e.path = .special .root ∨ ∃ p, e.path = .path p) :
    ∃ p, resolvePermissionPath u e.path ctx = some p ∧ p.place = entryPlace e ∧
      entryPaths u ctx e.path = [p] := by
  rcases h with h | ⟨p, h⟩
  · obtain ⟨r, hr, hpl⟩ := fileSystemRoot_place hcwd
    refine ⟨r, ?_, ?_, ?_⟩
    · rw [h]; exact hr
    · rw [hpl, entryPlace, h]
    · rw [h]
      show (fileSystemRoot ctx).toList = [r]
      rw [hr]
      rfl
  · refine ⟨p, ?_, ?_, ?_⟩
    · rw [h]; rfl
    · rw [entryPlace, h]
    · rw [h]; rfl

theorem mem_places (honly : OnlyPaths es) (hcwd : ctx.cwd.place.isSome) {g : Grant} :
    g ∈ placesOf ((restricted es).resolvedEntries u ctx) ↔
      ∃ e ∈ es, entryPlace e = some g.1 ∧ e.access = g.2 := by
  obtain ⟨c, hc⟩ := isSome_iff_exists.1 hcwd
  simp only [mem_placesOf, resolvedEntries_eq, mem_entriesWith]
  constructor
  · rintro ⟨x, ⟨e, he, hpa, -, hacc⟩, hpl, hx⟩
    obtain ⟨p, -, hp, hpaths⟩ := resolvePermissionPath_place (u := u) hcwd (honly e he)
    rw [hpaths, mem_singleton] at hpa
    exact ⟨e, he, by rw [← hp, ← hpa, hpl], hacc.trans hx⟩
  · rintro ⟨e, he, hpl, hacc⟩
    obtain ⟨p, -, hp, hpaths⟩ := resolvePermissionPath_place (u := u) hcwd (honly e he)
    have hppl := hp.trans hpl
    refine ⟨(p, e.access), ⟨e, he, ?_, ?_, rfl⟩, hppl, hacc⟩
    · rw [hpaths]
      exact mem_singleton.2 rfl
    · rw [convention_of_place hppl, convention_of_place hc]

/-- Two entries with the same place are equal when the code takes them for equal. -/
theorem eq_of_same (hk : entryPlace e = some k) (h : x.same e = true) : x = e := by
  simp only [FileSystemSandboxEntry.same, Bool.and_eq_true, beq_iff_eq] at h
  obtain ⟨⟨hp, hacc⟩, hmiss⟩ := h
  have hp' : x.path = e.path := by
    unfold entryPlace at hk
    unfold FileSystemPath.same at hp
    split at hp
    · rename_i left right hleft hr
      rw [hr] at hk
      have hsame : right = left := by
        by_contra hne
        simp only [same, Bool.or_eq_true, beq_iff_eq] at hp
        rcases hp with heq | hwin
        · exact hne heq.symm
        · rw [windowsIdentity_of_posix (convention_of_place hk)] at hwin
          split at hwin
          · rename_i hcon
            cases hcon
          · cases hwin
      rw [hleft, hr, hsame]
    · exact beq_iff_eq.1 hp
  cases x
  cases e
  simp_all

theorem mem_of_mem_pushIfMissing (h : e ∈ pushIfMissing es x) : e ∈ es ∨ e = x := by
  unfold pushIfMissing at h
  split at h
  · exact .inl h
  · exact (mem_append.1 h).imp_right mem_singleton.1

theorem mem_of_mem_foldl_pushIfMissing :
    ∀ es i : List FileSystemSandboxEntry, e ∈ es.foldl pushIfMissing i → e ∈ i ∨ e ∈ es := by
  intro es
  induction es with
  | nil => exact fun i => .inl
  | cons x r ih =>
    intro i h
    rw [mem_cons, ← or_assoc]
    exact (ih _ h).imp_left mem_of_mem_pushIfMissing

/-- Pushing entries that are not there yet adds exactly them. -/
theorem mem_foldl_pushIfMissing (hk : entryPlace e = some k) : ∀ es i : List FileSystemSandboxEntry,
    e ∈ es.foldl pushIfMissing i ↔ e ∈ i ∨ e ∈ es := by
  intro es
  induction es with
  | nil => intro i; simp
  | cons x r ih =>
    intro i
    rw [foldl_cons, ih, mem_cons, ← or_assoc]
    refine or_congr_left ⟨mem_of_mem_pushIfMissing, fun h => ?_⟩
    unfold pushIfMissing
    split_ifs with hcon
    · rcases h with h | rfl
      · exact h
      · obtain ⟨y, hy, hsame⟩ := any_eq_true.1 hcon
        exact eq_of_same hk hsame ▸ hy
    · exact mem_append.2 (h.imp_right mem_singleton.2)

/-! ### Accepting -/

theorem denyReadPatterns_nil (honly : OnlyPaths es) : (restricted es).denyReadPatterns = [] := by
  unfold denyReadPatterns
  rw [filterMap_eq_nil_iff]
  intro e he
  rcases honly e he with h | ⟨p, h⟩ <;> rw [h]

/-- A read is denied below a requested denial, unless that is of the whole file system. -/
theorem readDenied_iff (honly : OnlyPaths es) (hcwd : ctx.cwd.place.isSome)
    {path : PathUri} (hpa : path.place = some k) :
    ((restricted es).readDenyMatcher u gs ctx).any (matchesPreparedReadDeny u path ctx) = true ↔
      ∃ d ∈ placesOf ((restricted es).resolvedEntries u ctx),
        d.2 = .deny ∧ d.1 <+: k ∧ d.1 ≠ [] := by
  obtain ⟨c, hc⟩ := isSome_iff_exists.1 hcwd
  obtain ⟨r, hr, hrootp⟩ := fileSystemRoot_place hcwd
  have hcv := convention_of_place hc
  -- A denial is of the whole file system when its place is the root.
  have hwhole : ∀ {p : PathUri} {d : List Text}, p.place = some d →
      ((p.startsWith r && r.startsWith p) = true ↔ d = []) := by
    intro p d hp
    rw [Bool.and_eq_true, startsWith_iff hp, startsWith_iff hrootp, hp, hrootp]
    simp
  have hmat : matchesPreparedReadDeny u path ctx
      ((restricted es).prepareDenyReadMatcher u gs ctx) = true ↔
      ∃ d ∈ placesOf ((restricted es).resolvedEntries u ctx),
        d.2 = .deny ∧ d.1 <+: k ∧ d.1 ≠ [] := by
    rw [matchesPreparedReadDeny_of_no_globs hc hpa (denyReadPatterns_nil honly)]
    simp only [deniedRoots, any_map, any_eq_true, mem_filter, Function.comp_apply, hr, any_some,
      beq_iff_eq, Bool.not_eq_true', startsWith_iff hpa, mem_placesOf]
    constructor
    · rintro ⟨x, ⟨⟨hx, hdn⟩, hnot⟩, d, hd, hle⟩
      refine ⟨(d, x.2), ⟨x, hx, hd, rfl⟩, hdn, hle, fun hnil => ?_⟩
      rw [(hwhole hd).2 hnil] at hnot
      cases hnot
    · rintro ⟨d, ⟨x, hx, hd, hacc⟩, hdn, hle, hne⟩
      refine ⟨x, ⟨⟨hx, hacc.trans hdn⟩, ?_⟩, d.1, hd, hle⟩
      exact Bool.eq_false_iff.2 fun h => hne ((hwhole hd).1 h)
  unfold readDenyMatcher
  split
  · exact hmat
  · rename_i hno
    constructor
    · intro h
      cases h
    · rintro ⟨d, hd, hdn, -⟩
      obtain ⟨e, he, -, hacc⟩ := (mem_places honly hcwd).1 hd
      refine absurd (any_eq_true.2 ⟨e, he, ?_⟩) hno
      rw [beq_iff_eq]
      exact hacc.trans hdn

/-- **An entry is accepted exactly when its grant is.** -/
theorem withinRequest_iff (honly : OnlyPaths es) (hcwd : ctx.cwd.place.isSome)
    (hrd : ((restricted es).grants u ctx).isSome) (req : FileSystemPermissions)
    (he : e.path = .special .root ∨ ∃ p, e.path = .path p) :
    grantedFileSystemEntryWithinRequest u req (.restricted es)
        ((restricted es).readDenyMatcher u gs ctx) e ctx =
        true ↔
      ∃ k, entryPlace e = some k ∧
        Accepted (placesOf ((restricted es).resolvedEntries u ctx)) (k, e.access) := by
  obtain ⟨c, hc⟩ := isSome_iff_exists.1 hcwd
  have hcv := convention_of_place hc
  obtain ⟨p, hp, hpl, -⟩ := resolvePermissionPath_place (u := u) hcwd he
  obtain ⟨g, hgr⟩ := isSome_iff_exists.1 hrd
  obtain ⟨-, rfl⟩ := placed_eq_some_iff.1 hgr
  have hslash : (e.path == FileSystemPath.special .slashTmp) = false := by
    rcases he with h | ⟨q, h⟩ <;> rw [h] <;> rfl
  unfold grantedFileSystemEntryWithinRequest
  simp only [hcv, hslash, Bool.false_and, Bool.or_false, hp]
  rw [show ((some PathConvention.posix == some PathConvention.windows) = false) from rfl]
  simp only [Bool.false_and, Bool.false_eq_true, if_false]
  cases hk : p.place with
  | none =>
    rw [← hpl, hk]
    have hdn : (restricted es).resolveAccess u p ctx = .deny :=
      resolveAccess_of_place_eq_none rfl hcv (.inl hk)
    rw [hdn]
    have hcov : accessCovers .deny e.access = false := by cases e.access <;> rfl
    simp [hcov]
  | some k =>
    have hpconv := convention_of_place hk
    rw [resolveAccess_eq rfl hcwd hk, hgr, ← hpl, hk]
    have hden := @readDenied_iff u gs ctx es k honly hcwd p hk
    constructor
    · intro h
      split at h
      · cases h
      · rename_i hcan
        split at h
        · cases h
        · rename_i hno
          refine ⟨k, rfl, ?_, ?_, h⟩
          · intro (hdn : e.access = .deny)
            rw [hdn] at hcan
            exact hcan rfl
          · intro d hd hdn hle
            by_contra hne
            exact hno (.inr (hden.2 ⟨d, hd, hdn, hle, hne⟩))
    · rintro ⟨k', hk', hacc⟩
      obtain rfl := some.inj hk'
      rw [if_neg, if_neg]
      · exact hacc.covered
      · rintro (h | h)
        · exact h hpconv
        · obtain ⟨d, hd, hdn, hle, hne⟩ := hden.1 h
          exact hne (hacc.notDenied d hd hdn hle)
      · have hne : e.access ≠ .deny := hacc.grants
        revert hne
        cases e.access <;> decide

/-- **A denial is retained exactly when it touches an accepted grant.** -/
theorem constrains_iff (hcwd : ctx.cwd.place.isSome) {d : FileSystemSandboxEntry}
    (hd : d.path = .special .root ∨ ∃ p, d.path = .path p) {kd : List Text}
    (hkd : entryPlace d = some kd) {acc : List FileSystemSandboxEntry} (honly : OnlyPaths acc)
    (hplac : ∀ a ∈ acc, (entryPlace a).isSome ∧ a.access.canRead = true) :
    denyEntryConstrainsAcceptedGrant u d acc ctx = true ↔
      ∃ a ∈ acc, ∃ ka, entryPlace a = some ka ∧ (kd <+: ka ∨ ka <+: kd) := by
  obtain ⟨p, hp, hppl, -⟩ := resolvePermissionPath_place (u := u) hcwd hd
  rw [hkd] at hppl
  unfold denyEntryConstrainsAcceptedGrant
  rw [any_eq_true]
  refine exists_congr fun a => ?_
  rw [mem_filter, and_assoc]
  refine and_congr_right fun ha => ?_
  obtain ⟨hsome, hcan⟩ := hplac a ha
  obtain ⟨ka, hka⟩ := isSome_iff_exists.1 hsome
  obtain ⟨q, hq, hqpl, -⟩ := resolvePermissionPath_place (u := u) hcwd (honly a ha)
  rw [hka] at hqpl
  simp only [hcan, true_and, hka, some.injEq, exists_eq_left']
  by_cases hr : isRootEntry a = true
  · have hnil : ka = [] := by
      rw [isRootEntry, beq_iff_eq] at hr
      rw [entryPlace, hr] at hka
      exact (some.inj hka).symm
    rw [if_pos hr, hnil]
    simp
  · rw [if_neg hr, hq]
    have hover : pathsOverlap p q = true ↔ kd <+: ka ∨ ka <+: kd := by
      have hpdep := lexicalDepth_eq (convention_of_place hppl)
      have hqdep := lexicalDepth_eq (convention_of_place hqpl)
      unfold pathsOverlap overlaps
      by_cases hsame : p.same q = true
      · rw [if_pos hsame]
        have heq := (same_iff (convention_of_place hppl)).1 hsame
        rw [heq, hqpl] at hppl
        obtain rfl := some.inj hppl
        simp
      · rw [if_neg hsame, if_neg (by rw [hpdep, hqdep, hppl, hqpl]; simp)]
        rw [getD_some, Bool.or_eq_true, startsWith_iff hppl, startsWith_iff hqpl, hppl, hqpl]
        simp only [some.injEq, exists_eq_left']
        tauto
    rw [← hover]
    rcases hd with h | ⟨p', h⟩ <;> simp only [h] at hp ⊢ <;> rw [hp]

/-! ### The intersection -/

section Intersecting

/-- The places of a list of entries in the context. -/
abbrev placesIn (u : UrlOps) (ctx : FileSystemSandboxPolicyContext)
    (es : List FileSystemSandboxEntry) : List Grant :=
  placesOf ((restricted es).resolvedEntries u ctx)

/-- The entries of one intersection: both sides materialized, about paths only, and the
request readable in a context that has a place. -/
structure Sides (u : UrlOps) (ctx : FileSystemSandboxPolicyContext)
    (requestedEntries grantedEntries : List FileSystemSandboxEntry) : Prop where
  cwd : ctx.cwd.place.isSome = true
  requestedPaths : OnlyPaths requestedEntries
  grantedPaths : OnlyPaths grantedEntries
  readable : ((restricted requestedEntries).grants u ctx).isSome = true

variable {req g : FileSystemPermissions}
  {re ge : List FileSystemSandboxEntry}

section

variable (h : Sides u ctx re ge)
include h

theorem accepted_of_mem (ha : a ∈ acceptedEntries u gs req re ge ctx) :
    a ∈ ge ∧ ∃ k, entryPlace a = some k ∧ Accepted (placesIn u ctx re) (k, a.access) := by
  rcases mem_of_mem_foldl_pushIfMissing _ _ ha with hmem | hmem
  · cases hmem
  · obtain ⟨hmem, hwit⟩ := mem_filter.1 hmem
    exact ⟨hmem, (withinRequest_iff h.requestedPaths h.cwd h.readable req
      (h.grantedPaths a hmem)).1 hwit⟩

theorem mem_accepted (hk : entryPlace a = some k) :
    a ∈ acceptedEntries u gs req re ge ctx ↔
      a ∈ ge ∧ Accepted (placesIn u ctx re) (k, a.access) := by
  constructor
  · intro ha
    obtain ⟨hmem, k', hk', hacc⟩ := accepted_of_mem h ha
    obtain rfl := some.inj (hk'.symm.trans hk)
    exact ⟨hmem, hacc⟩
  · rintro ⟨ha, hacc⟩
    unfold acceptedEntries
    rw [mem_foldl_pushIfMissing hk]
    exact .inr (mem_filter.2 ⟨ha, (withinRequest_iff h.requestedPaths h.cwd h.readable
      req (h.grantedPaths a ha)).2 ⟨k, hk, hacc⟩⟩)

theorem accepted_placed :
    ∀ a ∈ acceptedEntries u gs req re ge ctx, (entryPlace a).isSome ∧ a.access.canRead = true := by
  intro a ha
  obtain ⟨-, k, hk, hacc⟩ := accepted_of_mem h ha
  exact ⟨by rw [hk]; rfl, FileSystemAccessMode.canRead_iff.2 hacc.grants⟩

theorem mem_retained {s : List FileSystemSandboxEntry} (hsrc : OnlyPaths s)
    (hk : entryPlace e = some k) :
    e ∈ retainedDenyEntries u s (acceptedEntries u gs req re ge ctx) ctx ↔
      e ∈ s ∧ e.access = .deny ∧ ∃ g ∈ placesIn u ctx ge,
        Accepted (placesIn u ctx re) g ∧ Touches (k, e.access) g := by
  unfold retainedDenyEntries
  rw [mem_filter, mem_filter, beq_iff_eq, and_assoc]
  refine and_congr_right fun he => and_congr_right fun _ => ?_
  rw [constrains_iff h.cwd (hsrc e he) hk
    (fun a ha => h.grantedPaths a (accepted_of_mem h ha).1) (accepted_placed h)]
  constructor
  · rintro ⟨a, ha, ka, hka, htouch⟩
    obtain ⟨hmem, hacc⟩ := (mem_accepted h hka).1 ha
    exact ⟨(ka, a.access), (mem_places h.grantedPaths h.cwd).2 ⟨a, hmem, hka, rfl⟩, hacc, htouch⟩
  · rintro ⟨g, hg, hacc, htouch⟩
    obtain ⟨a, ha, hka, haccess⟩ := (mem_places h.grantedPaths h.cwd).1 hg
    have hg' : g = (g.1, a.access) := Prod.ext rfl haccess.symm
    exact ⟨a, (mem_accepted h hka).2 ⟨ha, hg' ▸ hacc⟩, g.1, hka, htouch⟩

end

def resultEntries (u : UrlOps) (gs : GlobOps) (req : FileSystemPermissions)
    (requestedEntries grantedEntries : List FileSystemSandboxEntry)
    (ctx : FileSystemSandboxPolicyContext) : List FileSystemSandboxEntry :=
  let accepted := acceptedEntries u gs req requestedEntries grantedEntries ctx
  (retainedDenyEntries u grantedEntries accepted ctx).foldl pushIfMissing
    ((retainedDenyEntries u requestedEntries accepted ctx).foldl pushIfMissing accepted)

theorem mem_of_mem_result (he : e ∈ resultEntries u gs req re ge ctx) : e ∈ re ∨ e ∈ ge := by
  rcases mem_of_mem_foldl_pushIfMissing _ _ he with he | he
  · rcases mem_of_mem_foldl_pushIfMissing _ _ he with he | he
    · rcases mem_of_mem_foldl_pushIfMissing _ _ he with he | he
      · cases he
      · exact .inr (mem_filter.1 he).1
    · exact .inl (mem_filter.1 (mem_filter.1 he).1).1
  · exact .inr (mem_filter.1 (mem_filter.1 he).1).1

/-- **The code computes the intersection of the grants.** -/
theorem result_intersectionOf (h : Sides u ctx re ge) :
    IntersectionOf (placesIn u ctx re) (placesIn u ctx ge)
      (placesIn u ctx (resultEntries u gs req re ge ctx)) := by
  have honly : OnlyPaths (resultEntries u gs req re ge ctx) := by
    intro e he
    rcases mem_of_mem_result he with he | he
    · exact h.requestedPaths e he
    · exact h.grantedPaths e he
  have hmem : ∀ {e : FileSystemSandboxEntry} {x : Grant}, entryPlace e = some x.1 →
      e.access = x.2 →
      (e ∈ resultEntries u gs req re ge ctx ↔
        (e ∈ ge ∧ Accepted (placesIn u ctx re) x) ∨
          (x.2 = .deny ∧ (e ∈ re ∨ e ∈ ge) ∧
            ∃ g ∈ placesIn u ctx ge, Accepted (placesIn u ctx re) g ∧ Touches x g)) := by
    intro e x hk haccess
    have hx : (x.1, e.access) = x := Prod.ext rfl haccess
    unfold resultEntries
    rw [mem_foldl_pushIfMissing hk, mem_foldl_pushIfMissing hk, mem_accepted h hk,
      mem_retained h h.requestedPaths hk, mem_retained h h.grantedPaths hk, hx, haccess]
    rw [or_assoc, ← or_and_right, and_left_comm]
  intro x
  rw [mem_places honly h.cwd, mem_places h.grantedPaths h.cwd, mem_places h.requestedPaths h.cwd]
  constructor
  · rintro ⟨e, he, hat⟩
    rcases (hmem hat.1 hat.2).1 he with ⟨he, hacc⟩ | ⟨hdn, he | he, ht⟩
    · exact .inl ⟨⟨e, he, hat⟩, hacc⟩
    · exact .inr ⟨hdn, .inl ⟨e, he, hat⟩, ht⟩
    · exact .inr ⟨hdn, .inr ⟨e, he, hat⟩, ht⟩
  · rintro (⟨⟨e, he, hat⟩, hacc⟩ | ⟨hdn, ⟨e, he, hat⟩ | ⟨e, he, hat⟩, ht⟩)
    · exact ⟨e, (hmem hat.1 hat.2).2 (.inl ⟨he, hacc⟩), hat⟩
    · exact ⟨e, (hmem hat.1 hat.2).2 (.inr ⟨hdn, .inl he, ht⟩), hat⟩
    · exact ⟨e, (hmem hat.1 hat.2).2 (.inr ⟨hdn, .inr he, ht⟩), hat⟩

theorem result_readable (hR : ((restricted re).grants u ctx).isSome)
    (hG : ((restricted ge).grants u ctx).isSome) :
    (restricted
      (resultEntries u gs req re ge ctx)).grants u ctx =
      some (placesIn u ctx (resultEntries u gs req re ge ctx)) := by
  obtain ⟨gR, hR⟩ := isSome_iff_exists.1 hR
  obtain ⟨gG, hG⟩ := isSome_iff_exists.1 hG
  refine placed_eq_some_iff.2 ⟨fun x hx => ?_, rfl⟩
  obtain ⟨e, he, hp⟩ := mem_entriesWith.1 hx
  rcases mem_of_mem_result he with he | he
  · exact (placed_eq_some_iff.1 hR).1 x (mem_entriesWith.2 ⟨e, he, hp⟩)
  · exact (placed_eq_some_iff.1 hG).1 x (mem_entriesWith.2 ⟨e, he, hp⟩)

end Intersecting

/-! ### Profiles -/

namespace AdditionalPermissionProfile

def entries (profile : AdditionalPermissionProfile) : List FileSystemSandboxEntry :=
  (profile.fileSystem.map FileSystemPermissions.entries).getD []

/-- The same, materialized in the context; none when that fails. -/
def materialized (u : UrlOps) (profile : AdditionalPermissionProfile)
    (ctx : FileSystemSandboxPolicyContext) : List FileSystemSandboxEntry :=
  (materializeContextDependentEntries u ctx profile.entries).getD []

end AdditionalPermissionProfile

/-- Paths, the whole file system and workspace roots. -/
def PathsAndRoots (es : List FileSystemSandboxEntry) : Prop :=
  ∀ e ∈ es, e.path = .special .root ∨ (∃ p, e.path = .path p) ∨
    ∃ subpath, e.path = .special (.projectRoots subpath)

section Profiles

theorem materializeForRoots_onlyPaths :
    ∀ {roots : List PathUri} {m : List FileSystemSandboxEntry},
      materializeForRoots u entry ctx roots = some m → OnlyPaths m := by
  intro roots
  induction roots with
  | nil =>
    intro m h e he
    obtain rfl := some.inj h
    cases he
  | cons root r ih =>
    intro m h
    unfold materializeForRoots at h
    split at h
    · rename_i p hp
      obtain ⟨more, hmore, rfl⟩ := map_eq_some_iff.1 h
      exact forall_mem_cons.2 ⟨.inr ⟨p, rfl⟩, ih hmore⟩
    · split at h
      · cases h
      · exact ih h

theorem materializeEntry_onlyPaths
    (hent : entry.path = .special .root ∨ (∃ p, entry.path = .path p) ∨
      ∃ s, entry.path = .special (.projectRoots s))
    {m : List FileSystemSandboxEntry} (h : materializeEntry u entry ctx = some m) :
    OnlyPaths m := by
  unfold materializeEntry at h
  rcases hent with hp | ⟨p, hp⟩ | ⟨s, hp⟩
  · simp only [hp] at h
    split at h
    · obtain rfl := some.inj h
      intro e he
      rw [mem_singleton] at he
      exact .inl (he ▸ hp)
    · cases h
  · simp only [hp, materializeCwdDependentEntry, some.injEq] at h
    subst h
    intro e he
    rw [mem_singleton] at he
    exact .inr ⟨p, he ▸ hp⟩
  · simp only [hp, bind_eq_bind, bind_eq_some_iff] at h
    obtain ⟨r, hres, h⟩ := h
    split at h
    · cases h
    · obtain rfl := some.inj h
      exact materializeForRoots_onlyPaths hres

theorem materialize_onlyPaths : ∀ {es m : List FileSystemSandboxEntry},
    PathsAndRoots es → materializeContextDependentEntries u ctx es = some m → OnlyPaths m := by
  intro es
  induction es with
  | nil =>
    intro m _ h e he
    obtain rfl := some.inj h
    cases he
  | cons entry r ih =>
    intro m hpaths h
    simp only [materializeContextDependentEntries, bind_eq_bind, bind_eq_some_iff] at h
    obtain ⟨first, hfst, more, hmore, h⟩ := h
    obtain rfl := some.inj h
    exact forall_mem_append.2 ⟨materializeEntry_onlyPaths (hpaths entry (mem_cons_self ..)) hfst,
      ih (fun e he => hpaths e (mem_cons_of_mem _ he)) hmore⟩

/-- The entries of an intersection: those of both sides' file systems, or none at all when
one side has none that can be materialized. -/
theorem intersection_entries (req g : AdditionalPermissionProfile) :
    (∃ fs re ge,
        materializeContextDependentEntries u ctx req.entries = some re ∧
        materializeContextDependentEntries u ctx g.entries = some ge ∧
        (intersectPermissionProfilesWithContext u gs req g ctx).entries =
          resultEntries u gs fs re ge ctx) ∨
      ((intersectPermissionProfilesWithContext u gs req g ctx).entries = [] ∧
        (req.materialized u ctx = [] ∨ g.materialized u ctx = [])) := by
  have hgran : (g.fileSystem.getD ⟨[], none⟩).entries = g.entries := by
    unfold AdditionalPermissionProfile.entries
    cases g.fileSystem <;> rfl
  -- Filtering out an empty result does not change its entries.
  have hfil : ∀ o : Option FileSystemPermissions,
      ((o.filter fun fs => !fs.entries.isEmpty).map
        FileSystemPermissions.entries).getD [] = (o.map FileSystemPermissions.entries).getD [] := by
    intro o
    cases o with
    | none => rfl
    | some fs =>
      rw [filter_some]
      cases hem : fs.entries with
      | nil | cons e r => simp [hem]
  have hres : (intersectPermissionProfilesWithContext u gs req g
      ctx).entries = ((req.fileSystem.bind fun fs =>
        intersectFileSystem u gs fs (g.fileSystem.getD ⟨[], none⟩)
          ctx).map FileSystemPermissions.entries).getD [] := hfil _
  unfold AdditionalPermissionProfile.materialized
  rw [hres]
  cases hfs : req.fileSystem with
  | none =>
    right
    refine ⟨rfl, .inl ?_⟩
    rw [AdditionalPermissionProfile.entries, hfs]
    rfl
  | some fs =>
    have hents : req.entries = fs.entries := by
      rw [AdditionalPermissionProfile.entries, hfs]
      rfl
    rw [bind_some, hents]
    cases hR : materializeContextDependentEntries u ctx fs.entries with
    | none =>
      right
      refine ⟨?_, .inl rfl⟩
      simp [intersectFileSystem, hR]
    | some re =>
      cases hG : materializeContextDependentEntries u ctx g.entries with
      | none =>
        right
        refine ⟨?_, .inr rfl⟩
        simp [intersectFileSystem, hR, hgran, hG]
      | some ge =>
        left
        rw [← hgran] at hG
        refine ⟨fs, re, ge, rfl, rfl, ?_⟩
        simp [intersectFileSystem, resultEntries, hR, hG]

theorem resolveAccess_placesIn (hcwd : ctx.cwd.place.isSome) {p : PathUri}
    (hrd : ((restricted es).grants u ctx).isSome) (hp : p.place = some k) :
    (restricted es).resolveAccess u p ctx = accessAt (some (placesIn u ctx es)) k := by
  obtain ⟨g, hgr⟩ := isSome_iff_exists.1 hrd
  obtain ⟨-, rfl⟩ := placed_eq_some_iff.1 hgr
  rw [resolveAccess_eq rfl hcwd hp, hgr]

variable {context : FileSystemSandboxPolicyContext} in
/-- **An intersection stays within both sides, except where a requested read-only place
lies below a granted write.** -/
theorem intersection_at_most_iff (globs : GlobOps) (requested granted : AdditionalPermissionProfile)
    (hconv : context.cwd.inferPathConvention = some .posix)
    (hrequested : PathsAndRoots requested.entries) (hgranted : PathsAndRoots granted.entries)
    (hrequestedLexical : ((restricted (requested.materialized u context)).grants u context).isSome)
    (hgrantedLexical : ((restricted (granted.materialized u context)).grants u context).isSome) :
    (∀ path,
        ((restricted (intersectPermissionProfilesWithContext u globs
            requested granted context).entries).resolveAccess u path context).capability ≤
          ((restricted
            (requested.materialized u context)).resolveAccess u path context).capability ∧
        ((restricted (intersectPermissionProfilesWithContext u globs
            requested granted context).entries).resolveAccess u path context).capability ≤
          ((restricted (granted.materialized u context)).resolveAccess u path context).capability) ↔
      ¬ (context.cwd.place.isSome ∧ ∃ q g, Overgrants
        (placesIn u context (requested.materialized u context))
        (placesIn u context (granted.materialized u context)) q g) := by
  by_cases hcwd : context.cwd.place.isSome
  · rcases @intersection_entries u globs context requested granted with
      ⟨fs, re, ge, hR, hG, hents⟩ | ⟨hents, hn⟩
    · have hReq : requested.materialized u context = re := by
        rw [AdditionalPermissionProfile.materialized, hR, getD_some]
      have hGrant : granted.materialized u context = ge := by
        rw [AdditionalPermissionProfile.materialized, hG, getD_some]
      rw [hReq] at hrequestedLexical ⊢
      rw [hGrant] at hgrantedLexical ⊢
      rw [hents]
      have hsid : Sides u context re ge :=
        ⟨hcwd, materialize_onlyPaths hrequested hR, materialize_onlyPaths hgranted hG,
          hrequestedLexical⟩
      have hint := @result_intersectionOf u globs context fs _ _ hsid
      have hres := @result_readable u globs context fs _ _ hrequestedLexical hgrantedLexical
      have hresultSome : ((restricted (resultEntries u globs fs
          re ge context)).grants u context).isSome := by
        rw [hres]
        rfl
      constructor
      · rintro hle ⟨-, q, g, hover⟩
        obtain ⟨x, -, hpl, -⟩ := mem_placesOf.1 hover.requestedRead.1
        have hat := (hle x.1).1
        obtain ⟨hrd, hw⟩ := hint.write_of_overgrants hover
        rw [resolveAccess_placesIn hcwd hresultSome hpl,
          resolveAccess_placesIn hcwd hrequestedLexical hpl, hrd, hw] at hat
        exact absurd hat (by decide)
      · intro hnot path
        cases hpl : path.place with
        | none =>
          rw [resolveAccess_of_place_eq_none rfl hconv (.inl hpl)]
          exact ⟨Nat.zero_le _, Nat.zero_le _⟩
        | some k =>
          rw [resolveAccess_placesIn hcwd hresultSome hpl,
            resolveAccess_placesIn hcwd hrequestedLexical hpl,
            resolveAccess_placesIn hcwd hgrantedLexical hpl]
          refine ⟨?_, hint.le_granted k⟩
          by_contra hgt
          exact hnot ⟨hcwd, hint.exists_overgrants (not_le.1 hgt)⟩
    · rw [hents]
      refine iff_of_true (fun path => ?_) ?_
      · rw [resolveAccess_nil]
        exact ⟨Nat.zero_le _, Nat.zero_le _⟩
      · rintro ⟨-, q, g, hover⟩
        rcases hn with hn | hn
        · rw [hn] at hover
          cases hover.requestedRead.1
        · rw [hn] at hover
          cases hover.grantedWrite.1
  · refine iff_of_true (fun path => ?_) fun h => hcwd h.1
    have hcwd' : context.cwd.place = none := not_isSome_iff_eq_none.1 hcwd
    rw [resolveAccess_of_place_eq_none rfl hconv (.inr hcwd')]
    exact ⟨Nat.zero_le _, Nat.zero_le _⟩

end Profiles

/-! ### A read-only directory inside a requested one

The request asks to write below `/a` but only to read below `/a/b`. -/

def pathEntry (names : List Text) (valid : ∀ s ∈ names, '\x00' ∉ Percent.decode s)
    (access : FileSystemAccessMode) : FileSystemSandboxEntry :=
  ⟨.path (.url none names valid), access, none⟩

def profileOf (es : List FileSystemSandboxEntry) : AdditionalPermissionProfile :=
  ⟨none, some ⟨es, none⟩⟩

def writeButReadInside : AdditionalPermissionProfile :=
  profileOf [pathEntry ["a".toList] (by decide) .write,
    pathEntry ["a".toList, "b".toList] (by decide) .read]

def writeAll : AdditionalPermissionProfile :=
  profileOf [pathEntry ["a".toList] (by decide) .write]

theorem root_valid : ∀ s ∈ [([] : Text)], '\x00' ∉ Percent.decode s := by
  decide

def rootContext : FileSystemSandboxPolicyContext :=
  ⟨.url none [[]] root_valid, [], none, none⟩

def noGlobs : GlobOps := ⟨fun _ _ _ => none⟩

/-- The user grants the outer directory and denies the inner one. -/
def writeButDenyInside : AdditionalPermissionProfile :=
  profileOf [pathEntry ["a".toList] (by decide) .write,
    pathEntry ["a".toList, "b".toList] (by decide) .deny]

theorem pathsAndRoots_profileOf_pair {first second : PathUri} {a b : FileSystemAccessMode} :
    PathsAndRoots (profileOf [⟨.path first, a, none⟩, ⟨.path second, b, none⟩]).entries := by
  intro e he
  rcases mem_pair.1 he with rfl | rfl <;> exact .inr (.inl ⟨_, rfl⟩)

theorem denied_inside_stays_within :
    PathsAndRoots writeButReadInside.entries ∧ PathsAndRoots writeButDenyInside.entries ∧ ∀ path,
    ((restricted (intersectPermissionProfilesWithContext .encoding noGlobs
        writeButReadInside writeButDenyInside rootContext).entries).resolveAccess .encoding path
          rootContext).capability ≤
      ((restricted (writeButReadInside.materialized .encoding
        rootContext)).resolveAccess .encoding path rootContext).capability ∧
    ((restricted (intersectPermissionProfilesWithContext .encoding noGlobs
        writeButReadInside writeButDenyInside rootContext).entries).resolveAccess .encoding path
          rootContext).capability ≤
      ((restricted (writeButDenyInside.materialized .encoding
        rootContext)).resolveAccess .encoding path rootContext).capability := by
  refine ⟨pathsAndRoots_profileOf_pair, pathsAndRoots_profileOf_pair,
    (intersection_at_most_iff noGlobs writeButReadInside writeButDenyInside (by decide)
      pathsAndRoots_profileOf_pair pathsAndRoots_profileOf_pair (by decide) (by decide)).2 ?_⟩
  rintro ⟨-, q, g, hover⟩
  have hrequested : placesIn .encoding rootContext
      (writeButReadInside.materialized .encoding rootContext) =
        [(["a".toList], .write), (["a".toList, "b".toList], .read)] := by decide
  have hgranted : placesIn .encoding rootContext
      (writeButDenyInside.materialized .encoding rootContext) =
        [(["a".toList], .write), (["a".toList, "b".toList], .deny)] := by decide
  rw [hrequested, hgranted] at hover
  -- The carve-out lies below the granted directory, and the denial is on the way.
  obtain ⟨hq, hread⟩ := hover.requestedRead
  obtain ⟨hg, hwrite⟩ := hover.grantedWrite
  rcases mem_pair.1 hq with rfl | rfl
  · cases hread
  rcases mem_pair.1 hg with rfl | rfl
  · have hdenied := hover.nothingGranted _ (mem_pair.2 (.inr rfl)) (by decide) (by decide)
    rcases hdenied with h | ⟨h, -⟩ <;> cases h
  · cases hwrite

/-- The user grants the outer directory, and the inner one becomes writable. -/
theorem read_only_request_becomes_writable :
    (restricted (intersectPermissionProfilesWithContext .encoding noGlobs
        writeButReadInside writeAll rootContext).entries).resolveAccess .encoding
          (.url none ["a".toList, "b".toList] (by decide)) rootContext = .write ∧
      (restricted (writeButReadInside.materialized .encoding
        rootContext)).resolveAccess .encoding
          (.url none ["a".toList, "b".toList] (by decide)) rootContext = .read := by
  decide

end SushiGpt.Sandboxing
