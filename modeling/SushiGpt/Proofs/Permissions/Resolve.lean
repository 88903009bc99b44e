/-
What a restricted policy grants, in places.

In a POSIX context the entries of a policy are grants to places, and the access at a
path is what the most specific grant that covers its place says.  The loop of the
source compares depths and access modes of URIs; `resolveAccess_eq` says that it
computes the lookup of `Lib/MostSpecific` in the list of grants, so that everything
known about the latter (that order does not matter, that the deepest entry decides)
holds of the policy.  The metadata rule gets the same treatment: it is a search for the
first write root that protects the place (`metadataWriteDenial_eq`).
-/
import SushiGpt.Lib.MostSpecific
import SushiGpt.Permissions.ReadDeny
import SushiGpt.Proofs.Paths.PathUri

namespace SushiGpt.Permissions

open MostSpecific List PathUri FileSystemSandboxPolicy
open Option hiding any_eq_true mem_map

variable {a : FileSystemAccessMode}

theorem FileSystemAccessMode.canRead_iff : a.canRead = true ↔ a ≠ .deny := by
  cases a <;> decide

theorem FileSystemAccessMode.canWrite_iff : a.canWrite = true ↔ a = .write := by
  cases a <;> decide

theorem FileSystemAccessMode.canWrite_eq_false_iff : a.canWrite = false ↔ a ≠ .write := by
  cases a <;> decide

/-- An access mode given to a place. -/
abbrev Grant := MostSpecific.Entry Text FileSystemAccessMode

variable {g : Grant} {es : List (PathUri × FileSystemAccessMode)}

/-- The resolved entries as grants.  Opaque paths grant nothing; a path that has a slash
inside a name makes the whole list unreadable. -/
def placed : List (PathUri × FileSystemAccessMode) → Option (List Grant)
  | [] => some []
  | (root, access) :: rest =>
    match root.place with
    | some place => (placed rest).map ((place, access) :: ·)
    | none => if root.isOpaque then placed rest else none

/-- The grants of the entries that have a place. -/
def placesOf (entries : List (PathUri × FileSystemAccessMode)) : List Grant :=
  entries.filterMap fun e => e.1.place.map fun place => (place, e.2)

/-- The access a list of grants gives at a place. -/
def accessAt (grants : Option (List Grant)) (place : List Text) : FileSystemAccessMode :=
  (grants.bind (lookup · place)).getD .deny

theorem mem_placesOf : g ∈ placesOf es ↔ ∃ e ∈ es, e.1.place = some g.1 ∧ e.2 = g.2 := by
  simp only [placesOf, mem_filterMap, map_eq_some_iff]
  constructor
  · rintro ⟨e, he, place, hpl, rfl⟩
    exact ⟨e, he, hpl, rfl⟩
  · rintro ⟨e, he, hpl, hacc⟩
    exact ⟨e, he, g.1, hpl, Prod.ext rfl hacc⟩

/-- A list is readable when every path has a place or is opaque. -/
theorem placed_eq_some_iff : ∀ {es : List (PathUri × FileSystemAccessMode)}
    {grants : List Grant}, placed es = some grants ↔
      (∀ e ∈ es, e.1.place.isSome ∨ e.1.isOpaque) ∧ grants = placesOf es := by
  intro es
  induction es with
  | nil =>
    intro grants
    constructor
    · intro h
      exact ⟨nofun, (Option.some.inj h).symm⟩
    · rintro ⟨-, rfl⟩
      rfl
  | cons e rest ih =>
    intro grants
    obtain ⟨r, access⟩ := e
    unfold placed placesOf
    cases hpl : r.place with
    | some place =>
      simp only [map_eq_some_iff, ih, forall_mem_cons, hpl, isSome_some,
        true_or, true_and, filterMap_cons, map_some]
      constructor
      · rintro ⟨m, ⟨hok, rfl⟩, rfl⟩
        exact ⟨hok, rfl⟩
      · rintro ⟨hok, rfl⟩
        exact ⟨_, ⟨hok, rfl⟩, rfl⟩
    | none =>
      simp only [forall_mem_cons, hpl, isSome_none, Bool.false_eq_true,
        false_or, filterMap_cons, map_none]
      cases hopaq : r.isOpaque with
      | true =>
        rw [if_pos rfl, ih]
        simp [placesOf]
      | false => simp

theorem accessAt_of_decides {grants : List Grant} {place : List Text} (h : Decides grants place g) :
    accessAt (some grants) place = g.2 := by
  rw [accessAt, bind_some, lookup_of_decides h, getD_some]

theorem decides_of_accessAt {grants : List Grant} {place : List Text}
    (h : accessAt (some grants) place = a) (ha : a ≠ .deny) :
    ∃ g, Decides grants place g ∧ g.2 = a := by
  rw [accessAt, bind_some] at h
  cases hl : lookup grants place with
  | none =>
    rw [hl] at h
    exact absurd h.symm ha
  | some b =>
    rw [hl, getD_some] at h
    exact lookup_eq_some_iff.1 (hl.trans (congrArg some h))

/-! ### Depths and places -/

/-- A resolved entry with its depth, and the grant it makes. -/
def Makes (entry : PathUri × FileSystemAccessMode × Nat) (grant : Grant) : Prop :=
  entry.1.place = some grant.1 ∧ entry.2.1 = grant.2 ∧ entry.2.2 = grant.1.length

theorem entryDepths_makes : ∀ es : List (PathUri × FileSystemAccessMode),
    (∀ e ∈ es, e.1.inferPathConvention = some .posix) →
      Option.Rel (List.Forall₂ Makes) (entryDepths es) (placed es) := by
  intro es
  induction es with
  | nil => intro _; exact .some .nil
  | cons e rest ih =>
    intro hpos
    obtain ⟨r, access⟩ := e
    have hr := hpos (r, access) (mem_cons_self ..)
    have hrest := ih fun e he => hpos e (mem_cons_of_mem _ he)
    unfold entryDepths placed
    rw [lexicalDepth_eq hr]
    cases hpl : r.place with
    | some place =>
      generalize entryDepths rest = ds at hrest ⊢
      generalize placed rest = grants at hrest ⊢
      cases hrest with
      | none => exact .none
      | some h => exact .some (.cons ⟨hpl, rfl, rfl⟩ h)
    | none =>
      dsimp only [map_none]
      split
      · exact hrest
      · exact .none

theorem betterEntry_makes {best : Option (PathUri × FileSystemAccessMode × Nat)}
    {best' : Option Grant} {e : PathUri × FileSystemAccessMode × Nat}
    (hbest : Option.Rel Makes best best') (h : Makes e g) :
    Option.Rel Makes (betterEntry best e) (pick best' g) := by
  cases hbest with
  | none => exact .some h
  | some hb =>
    rename_i b b'
    obtain ⟨hp, ha, hd⟩ := h
    obtain ⟨hbp, hba, hbd⟩ := hb
    have hiff : (e.2.2 < b.2.2 ∨ (e.2.2 = b.2.2 ∧ e.2.1 < b.2.1)) ↔ Outranks b' g := by
      rw [ha, hd, hba, hbd]
      rfl
    unfold betterEntry pick
    dsimp only
    by_cases hout : Outranks b' g
    · rw [if_pos hout, if_pos (hiff.2 hout)]
      exact .some ⟨hbp, hba, hbd⟩
    · rw [if_neg hout, if_neg fun hc => hout (hiff.1 hc)]
      exact .some ⟨hp, ha, hd⟩

theorem access_of_makes {f : Option (PathUri × FileSystemAccessMode × Nat)}
    {f' : Option Grant} : Option.Rel Makes f f' →
    (match f with
      | some e => e.2.1
      | none => FileSystemAccessMode.deny) = (f'.map Prod.snd).getD .deny := by
  intro h
  cases h with
  | none => rfl
  | some h => exact h.2.1

/-! ### Access -/

variable {u : UrlOps} {pol : FileSystemSandboxPolicy} {ctx : FileSystemSandboxPolicyContext}
  {p : PathUri} {k : List Text}

namespace FileSystemSandboxPolicy

def grants (u : UrlOps) (policy : FileSystemSandboxPolicy)
    (context : FileSystemSandboxPolicyContext) : Option (List Grant) :=
  placed (policy.resolvedEntries u context)

theorem mem_resolvedEntries_iff {uri : PathUri} {access : FileSystemAccessMode} :
    (uri, access) ∈ pol.resolvedEntries u ctx ↔
      ∃ e ∈ pol.entries, e.access = access ∧
        uri ∈ entryPaths u ctx e.path ∧
        uri.inferPathConvention = ctx.cwd.inferPathConvention := by
  unfold resolvedEntries
  simp only [mem_flatMap, mem_map, mem_filter, beq_iff_eq, Prod.mk.injEq]
  constructor
  · rintro ⟨e, he, uri, ⟨huri, hcv⟩, rfl, rfl⟩
    exact ⟨e, he, rfl, huri, hcv⟩
  · rintro ⟨e, he, rfl, huri, hcv⟩
    exact ⟨e, he, uri, ⟨huri, hcv⟩, rfl, rfl⟩

theorem convention_of_mem_resolvedEntries {e : PathUri × FileSystemAccessMode}
    (h : e ∈ pol.resolvedEntries u ctx) :
    e.1.inferPathConvention = ctx.cwd.inferPathConvention := by
  obtain ⟨entry, -, -, -, hcv⟩ := mem_resolvedEntries_iff.1 h
  exact hcv

theorem fileSystemRoot_place (hcwd : ctx.cwd.place.isSome) :
    ∃ r, fileSystemRoot ctx = some r ∧ r.place = some [] := by
  obtain ⟨c, hc⟩ := isSome_iff_exists.1 hcwd
  refine ⟨ctx.cwd.lastAncestor, ?_, lastAncestor_place hc⟩
  rw [fileSystemRoot, lexicalDepth_eq (convention_of_place hc), hc]
  rfl

theorem comparable_of_places {c : List Text} (hcwd : ctx.cwd.place = some c)
    (hp : p.place = some k) :
    ¬ (p.inferPathConvention ≠ some .posix ∨ p.lexicalDepth.isNone = true ∨
      ctx.cwd.lexicalDepth.isNone = true) := by
  have hpconv := convention_of_place hp
  rw [lexicalDepth_eq (convention_of_place hcwd), lexicalDepth_eq hpconv, hcwd, hp, hpconv]
  simp

/-- Without deny globs only the denied roots are asked. -/
theorem matchesPreparedReadDeny_of_no_globs {gs : GlobOps} {c : List Text}
    (hcwd : ctx.cwd.place = some c) (hp : p.place = some k)
    (hglobs : pol.denyReadPatterns = []) :
    matchesPreparedReadDeny u p ctx (pol.prepareDenyReadMatcher u gs ctx) =
      (pol.deniedRoots u ctx).any (p.startsWith ·) := by
  have hconv := convention_of_place hcwd
  have hnone : pol.denyReadGlobs u ctx = .ok [] := by
    unfold denyReadGlobs
    rw [hglobs]
    rfl
  simp only [matchesPreparedReadDeny, prepareDenyReadMatcher, hconv, hnone]
  rw [if_neg (comparable_of_places hcwd hp)]
  simp

/-- **The access at a path is the lookup of its place in the grants.** -/
theorem resolveAccess_eq (hk : pol.kind = .restricted) (hcwd : ctx.cwd.place.isSome)
    (hp : p.place = some k) : pol.resolveAccess u p ctx = accessAt (pol.grants u ctx) k := by
  obtain ⟨c, hc⟩ := isSome_iff_exists.1 hcwd
  have hcv := convention_of_place hc
  have hmak := entryDepths_makes (pol.resolvedEntries u ctx) fun e he =>
    (convention_of_mem_resolvedEntries he).trans hcv
  unfold resolveAccess accessAt grants
  simp only [hk, hcv]
  rw [if_neg (comparable_of_places hc hp)]
  generalize entryDepths (pol.resolvedEntries u ctx) = ds at hmak ⊢
  generalize placed (pol.resolvedEntries u ctx) = grants at hmak ⊢
  cases hmak with
  | none => rfl
  | some h =>
    -- The loop over the entries is the loop over the grants.
    have hfil := rel_filter (p := fun e => p.startsWith e.1) (q := fun g => g.1 <+: k)
      (fun {e g} (hmake : Makes e g) => by simp [startsWith_iff hp, hmake.1]) h
    refine access_of_makes (rel_foldl ?_ .none hfil)
    exact fun _ _ hbest _ _ => betterEntry_makes hbest

/-- In a POSIX context a path without a place is denied. -/
theorem resolveAccess_of_place_eq_none (hk : pol.kind = .restricted)
    (hcv : ctx.cwd.inferPathConvention = some .posix) (h : p.place = none ∨ ctx.cwd.place = none) :
    pol.resolveAccess u p ctx = .deny := by
  have hbad : p.inferPathConvention ≠ some .posix ∨ p.lexicalDepth.isNone = true ∨
      ctx.cwd.lexicalDepth.isNone = true := by
    by_cases hpconv : p.inferPathConvention = some .posix
    · right
      rw [lexicalDepth_eq hcv, lexicalDepth_eq hpconv]
      rcases h with h | h
      · left; rw [h]; rfl
      · right; rw [h]; rfl
    · exact .inl hpconv
  unfold resolveAccess
  simp only [hk, hcv]
  rw [if_pos hbad]

end FileSystemSandboxPolicy

/-! ### The metadata rule -/

/-- The places that may be written below, in the order of the grants. -/
def writeRoots (grants : List Grant) : List (List Text) :=
  (grants.filter fun g => g.2.canWrite).map Prod.fst

/-- The protected directory of the root that the place lies in. -/
def protectedDir (root place : List Text) : Option (List Text) :=
  (protectedMetadataPathNames.find? fun name => decide (root ++ [name] <+: place)).map
    fun name => root ++ [name]

/-- A write root reaches into the directory, on the way to the place. -/
def Opened (roots : List (List Text)) (dir place : List Text) : Prop :=
  ∃ root ∈ roots, dir <+: root ∧ root <+: place

/-- The first root that protects the place has its directory closed. -/
def MetadataDenied (roots : List (List Text)) (place : List Text) : Prop :=
  ∃ dir, roots.findSome? (protectedDir · place) = some dir ∧ ¬ Opened roots dir place

theorem protectedMetadataPathNames_plain : ∀ n ∈ protectedMetadataPathNames, PlainName n := by
  intro n hnm
  refine ⟨all_eq_true.mp ?_, ?_, ?_, ?_⟩ <;> revert n <;> decide

theorem mem_writeRoots {grants : List Grant} (h : placed es = some grants) (r : List Text) :
    r ∈ writeRoots grants ↔ ∃ e ∈ es, e.2.canWrite = true ∧ e.1.place = some r := by
  obtain ⟨-, rfl⟩ := placed_eq_some_iff.1 h
  simp only [writeRoots, mem_map, mem_filter, mem_placesOf]
  constructor
  · rintro ⟨g, ⟨⟨e, he, hpl, hacc⟩, hw⟩, rfl⟩
    exact ⟨e, he, hacc ▸ hw, hpl⟩
  · rintro ⟨e, he, hw, hpl⟩
    exact ⟨(r, e.2), ⟨⟨e, he, hpl, rfl⟩, hw⟩, rfl⟩

namespace FileSystemSandboxPolicy

theorem protectedBelow_place (hu : u.AppendsPlain) (hp : p.place = some k)
    {root : PathUri} {r : List Text} (hr : root.place = some r) :
    Option.Rel (fun f dir => f.1.place = some dir) (protectedBelow u p root)
      (protectedDir r k) := by
  unfold protectedBelow protectedDir
  have hplain := protectedMetadataPathNames_plain
  generalize protectedMetadataPathNames = ns at hplain ⊢
  induction ns with
  | nil => exact .none
  | cons n rest ih =>
    have hrest := ih fun m hm => hplain m (mem_cons_of_mem _ hm)
    obtain ⟨dir, hjoin, hdir⟩ := joinDescendant_place hu (hplain n (mem_cons_self ..)) hr
    have hiff : p.startsWith dir = decide (r ++ [n] <+: k) := by
      rw [Bool.eq_iff_iff, startsWith_iff hp, decide_eq_true_iff, hdir]
      simp
    rw [findSome?_cons, find?_cons, hjoin]
    dsimp only
    rw [hiff]
    by_cases hbel : r ++ [n] <+: k
    · simp only [hbel, decide_true, if_true]
      exact .some hdir
    · simp only [hbel, decide_false, Bool.false_eq_true, if_false]
      exact hrest

theorem protectedBelow_of_place_eq_none (hu : u.AppendsPlain) {r : PathUri}
    (hcv : r.inferPathConvention = some .posix) (hr : r.place = none) :
    protectedBelow u p r = none := by
  unfold protectedBelow
  rw [findSome?_eq_none_iff]
  intro n hnm
  obtain ⟨e, he⟩ := joinDescendant_of_place_eq_none hu
    (protectedMetadataPathNames_plain n hnm) hcv hr
  rw [he]

theorem findSome_protectedBelow (hu : u.AppendsPlain) (hp : p.place = some k) :
    ∀ {es : List (PathUri × FileSystemAccessMode)} {grants : List Grant},
      (∀ e ∈ es, e.1.inferPathConvention = some .posix) → placed es = some grants →
      Option.Rel (fun f dir => f.1.place = some dir)
        ((es.filter fun e => e.2.canWrite).findSome? fun e => protectedBelow u p e.1)
        ((writeRoots grants).findSome? (protectedDir · k)) := by
  intro es
  induction es with
  | nil =>
    intro grants _ h
    obtain rfl := Option.some.inj h
    exact .none
  | cons e rest ih =>
    intro grants hpos h
    obtain ⟨r, access⟩ := e
    have hr := hpos _ (mem_cons_self ..)
    have hrest : ∀ {m}, placed rest = some m → _ :=
      fun {m} => @ih m fun e he => hpos e (mem_cons_of_mem _ he)
    unfold placed at h
    cases hpl : r.place with
    | none =>
      rw [hpl] at h
      dsimp only at h
      split at h
      · rw [filter_cons]
        split
        · rw [findSome?_cons, protectedBelow_of_place_eq_none hu hr hpl]
          exact hrest h
        · exact hrest h
      · cases h
    | some place =>
      rw [hpl] at h
      obtain ⟨m, hmore, rfl⟩ := map_eq_some_iff.1 h
      cases hw : access.canWrite with
      | false =>
        simp only [filter_cons, hw, Bool.false_eq_true, if_false, writeRoots]
        exact hrest hmore
      | true =>
        simp only [filter_cons, hw, if_true, writeRoots, map_cons, findSome?_cons]
        have hfst := protectedBelow_place hu hp hpl
        generalize protectedBelow u p r = f at hfst ⊢
        generalize protectedDir place k = dir at hfst ⊢
        cases hfst with
        | none => exact hrest hmore
        | some h => exact .some h

/-- **A write is refused for metadata exactly when the first protecting root says so.** -/
theorem metadataWriteDenial_eq (hu : u.AppendsPlain) (hk : pol.kind = .restricted)
    (hcv : ctx.cwd.inferPathConvention = some .posix) (hp : p.place = some k)
    {grants : List Grant} (hgr : pol.grants u ctx = some grants) :
    (pol.metadataWriteDenial u p ctx).isSome = true ↔ MetadataDenied (writeRoots grants) k := by
  have hpos : ∀ e ∈ pol.resolvedEntries u ctx, e.1.inferPathConvention = some .posix :=
    fun e he => (convention_of_mem_resolvedEntries he).trans hcv
  have hfd := findSome_protectedBelow hu hp hpos hgr
  unfold metadataWriteDenial MetadataDenied
  rw [if_neg (by simp [hk])]
  dsimp only
  generalize ((pol.resolvedEntries u ctx).filter fun e => e.2.canWrite).findSome?
    (fun e => protectedBelow u p e.1) = f at hfd ⊢
  generalize (writeRoots grants).findSome? _ = dir at hfd ⊢
  cases hfd with
  | none => simp
  | @some f dir hdir =>
    obtain ⟨mp, n⟩ := f
    have hop : (((pol.resolvedEntries u ctx).filter fun e => e.2.canWrite).any
        fun e => p.startsWith e.1 && e.1.startsWith mp) = true ↔
          Opened (writeRoots grants) dir k := by
      simp only [any_eq_true, mem_filter, Bool.and_eq_true, Opened,
        mem_writeRoots hgr, startsWith_iff hp]
      constructor
      · rintro ⟨e, ⟨he, hw⟩, ⟨r, hr, hle⟩, hbel⟩
        obtain ⟨d, hd, hdr⟩ := (startsWith_iff hr).1 hbel
        obtain rfl := Option.some.inj (hd.symm.trans hdir)
        exact ⟨r, ⟨e, he, hw, hr⟩, hdr, hle⟩
      · rintro ⟨r, ⟨e, he, hw, hr⟩, hdr, hle⟩
        exact ⟨e, ⟨he, hw⟩, ⟨r, hr, hle⟩, (startsWith_iff hr).2 ⟨dir, hdir, hdr⟩⟩
    dsimp only
    by_cases hany : Opened (writeRoots grants) dir k
    · rw [if_pos (hop.2 hany)]
      simp [hany]
    · rw [if_neg fun h => hany (hop.1 h)]
      simp [hany]

/-- What a policy lets be written: the access is write, and the metadata rule is met
unless the whole disk may be written. -/
@[mk_iff] structure Writable (policy : FileSystemSandboxPolicy)
    (context : FileSystemSandboxPolicyContext) (grants : List Grant) (place : List Text) :
    Prop where
  access : accessAt (some grants) place = .write
  metadata : policy.hasFullDiskWriteAccessWithContext context = true ∨
    ¬ MetadataDenied (writeRoots grants) place

theorem canWritePath_iff (hu : u.AppendsPlain) (hk : pol.kind = .restricted)
    (hcwd : ctx.cwd.place.isSome) (hp : p.place = some k) {grants : List Grant}
    (hgr : pol.grants u ctx = some grants) :
    pol.canWritePath u p ctx = true ↔ Writable pol ctx grants k := by
  obtain ⟨c, hc⟩ := isSome_iff_exists.1 hcwd
  have hcv := convention_of_place hc
  have hden := metadataWriteDenial_eq hu hk hcv hp hgr
  rw [canWritePath, resolveAccess_eq hk hcwd hp, hgr, Bool.and_eq_true, Bool.or_eq_true,
    isNone_iff_eq_none, ← not_isSome_iff_eq_none, hden, writable_iff,
    FileSystemAccessMode.canWrite_iff]

/-- Nothing may be written where no access is resolved. -/
theorem canWritePath_eq_false (hki : pol.kind = .restricted)
    (hcv : ctx.cwd.inferPathConvention = some .posix)
    (h : p.place = none ∨ ctx.cwd.place = none ∨ pol.grants u ctx = none) :
    pol.canWritePath u p ctx = false := by
  have hdn : pol.resolveAccess u p ctx = .deny := by
    by_cases hn : p.place = none ∨ ctx.cwd.place = none
    · exact resolveAccess_of_place_eq_none hki hcv hn
    · rw [not_or] at hn
      obtain ⟨k, hk⟩ := ne_none_iff_exists'.1 hn.1
      rw [resolveAccess_eq hki (isSome_iff_ne_none.2 hn.2) hk]
      rcases h with h | h | h
      · exact absurd h hn.1
      · exact absurd h hn.2
      · rw [h]
        rfl
  rw [canWritePath, hdn]
  rfl

end FileSystemSandboxPolicy

end SushiGpt.Permissions
