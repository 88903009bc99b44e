/-
Additional roots take nothing away.

A root is added only where the policy does not permit it yet.  A new write entry can lower
access nowhere, but it makes a new root with protected directories of its own; the paths in
these were not writable before, since otherwise the root would have been, and not been added
(`metadataDenied_concat`).  A new read entry decides only where the policy denied.

A root whose URI is opaque is never permitted, so it is added, and grants nothing.  As an entry to
write that is harmless.  As an entry to read it ends the access to the whole disk, and with it the
exemption from the metadata rule: then what could be written may be lost.
-/
import SushiGpt.Proofs.Permissions.FullDisk

namespace SushiGpt.Permissions

open MostSpecific PathUri List FileSystemAccessMode

/-! ### One more grant -/

variable {u : UrlOps} {host : Host} {pol : FileSystemSandboxPolicy} {cwd root : AbsolutePath}
  {grants : List Grant}

section Grants

variable {root p : List Text}

/-- One more grant changes nothing at a place, or decides there. -/
theorem accessAt_concat (grants : List Grant) (g : Grant) (p : List Text) :
    accessAt (some (grants ++ [g])) p = accessAt (some grants) p ∨ Decides (grants ++ [g]) p g := by
  unfold accessAt
  exact (lookup_concat grants g p).imp_left fun h => by rw [Option.bind_some, h, Option.bind_some]

/-- A grant to read decides only where reading was denied. -/
theorem accessAt_concat_read (hden : accessAt (some grants) root = .deny) (p : List Text) :
    accessAt (some (grants ++ [(root, .read)])) p = accessAt (some grants) p ∨
      accessAt (some grants) p = .deny := by
  refine (accessAt_concat grants (root, .read) p).imp_right fun hdec => ?_
  by_contra hne
  -- What decided lies above the root, hence decided there as well.
  obtain ⟨d, hd, hd2⟩ := decides_of_accessAt rfl hne
  have habove := hd.above hdec.covers (hdec.covers_le (mem_append_left _ hd.mem) hd.covers)
  exact hne (hd2 ▸ (accessAt_of_decides habove).symm.trans hden)

theorem writeRoots_concat_read : writeRoots (grants ++ [(root, .read)]) = writeRoots grants := by
  simp [writeRoots, canWrite]

theorem writeRoots_concat_write :
    writeRoots (grants ++ [(root, .write)]) = writeRoots grants ++ [root] := by
  simp [writeRoots, canWrite]

/-- A new write root protects nothing that could be written, unless it could be written. -/
theorem metadataDenied_concat (hw : accessAt (some grants) p = .write)
    (hroot : ¬ CanWriteAt grants root) (h : MetadataDenied (writeRoots grants ++ [root]) p) :
    MetadataDenied (writeRoots grants) p := by
  obtain ⟨dir, hfind, hcl⟩ := h
  rw [findSome?_append] at hfind
  cases hold : (writeRoots grants).findSome? (protectedDir · p) with
  | some old =>
    rw [hold] at hfind
    obtain rfl := Option.some.inj hfind
    refine ⟨old, hold, ?_⟩
    rintro ⟨opener, hop, hopens⟩
    exact hcl ⟨opener, mem_append_left _ hop, hopens⟩
  | none =>
    rw [hold, Option.none_or, findSome?_singleton] at hfind
    obtain ⟨n, hnm, rfl, hbel⟩ := protectedDir_eq_some.mp hfind
    obtain ⟨⟨d, a⟩, hdec, rfl⟩ := decides_of_accessAt hw (by decide)
    have hrootPlace : root <+: p := (prefix_append _ _).trans hbel
    by_cases hdeep : root.length < d.length
    · -- The entry that decides lies inside the directory and opens it.
      refine absurd ⟨d, mem_append_left _ (mem_writeRoots_iff.mpr hdec.mem),
        prefix_of_prefix_length_le hbel hdec.covers ?_, hdec.covers⟩ hcl
      rw [length_append, length_singleton]
      omega
    · -- It decides at the root already, which then is protected by an older root.
      have hle : d <+: root := prefix_of_prefix_length_le hdec.covers hrootPlace (by omega)
      have hacc := accessAt_of_decides (hdec.above hrootPlace hle)
      refine absurd ⟨hacc, ?_⟩ hroot
      rintro ⟨o, ho, -⟩
      obtain ⟨pro, hprot, hdir⟩ := List.exists_of_findSome?_eq_some ho
      obtain ⟨m, hm, rfl, hund⟩ := protectedDir_eq_some.mp hdir
      have hpl : protectedDir pro p = some (pro ++ [m]) :=
        protectedDir_eq_some.mpr ⟨m, hm, rfl, hund.trans hrootPlace⟩
      rw [findSome?_eq_none_iff.mp hold pro hprot] at hpl
      cases hpl

end Grants

/-! ### One more entry -/

section Entries

variable {c : FileSystemSandboxPolicyContext} (a : FileSystemAccessMode)

open FileSystemSandboxPolicy

/-- What narrows a policy narrows no policy that overrides as much. -/
theorem narrowsWrite_of_override {o : FileSystemSandboxPolicy} {con : PathConvention}
    {e : FileSystemSandboxEntry} (h : pol.narrowsWrite con e = false)
    (hover : pol.hasSameTargetWriteOverride e con = true →
      o.hasSameTargetWriteOverride e con = true) :
    o.narrowsWrite con e = false := by
  unfold narrowsWrite at h ⊢
  cases hb : pol.hasSameTargetWriteOverride e con with
  | true =>
    rw [hb] at h
    rw [hover hb]
    exact h
  | false =>
    rw [hb] at h
    cases o.hasSameTargetWriteOverride e con with
    | false => exact h
    | true =>
      -- Where an override is asked for, there is one now.
      split_ifs at h ⊢
      · rfl
      all_goals
        split at h
        · rfl
        · cases h
        · exact h
        all_goals rfl

theorem hasRootAccess_pushPath :
    (pol.pushPath root a).hasRootAccess canWrite = pol.hasRootAccess canWrite := by
  have hother : (FileSystemPath.path (fromAbsPath root) == .special .root) = false :=
    beq_eq_false_iff_ne.mpr nofun
  simp [hasRootAccess, pushPath, hother]

section

variable (hkind : pol.kind = .restricted) (hcv : c.cwd.inferPathConvention = some .posix)

include hcv

theorem resolvedEntries_pushPath :
    (pol.pushPath root a).resolvedEntries u c =
      pol.resolvedEntries u c ++ [(fromAbsPath root, a)] := by
  unfold resolvedEntries pushPath
  simp [entryPaths, hcv, convention_fromAbsPath root]

theorem grants_pushPath (hgrants : pol.grants u c = some grants) :
    (pol.pushPath root a).grants u c = some (grants ++ placesOf [(fromAbsPath root, a)]) := by
  obtain ⟨hrd, rfl⟩ := placed_eq_some_iff.mp hgrants
  refine placed_eq_some_iff.mpr ⟨?_, ?_⟩
  · rw [resolvedEntries_pushPath a hcv]
    exact forall_mem_append.mpr ⟨hrd, forall_mem_singleton.mpr (fromAbsPath_readable root).2⟩
  · rw [resolvedEntries_pushPath a hcv, placesOf, placesOf, placesOf, filterMap_append]

include hkind

theorem fullDiskWrite_pushPath (h : pol.hasFullDiskWriteAccessWithContext c = true) :
    (pol.pushPath root .write).hasFullDiskWriteAccessWithContext c = true := by
  obtain ⟨hroot, hents⟩ := (fullDiskWrite_iff hkind hcv).mp h
  have hk' : (pol.pushPath root .write).kind = .restricted := hkind
  refine (fullDiskWrite_iff hk' hcv).mpr ⟨(hasRootAccess_pushPath _).trans hroot,
    forall_mem_append.mpr ⟨fun e he => ?_, forall_mem_singleton.mpr rfl⟩⟩
  refine narrowsWrite_of_override (hents e he) fun hover => ?_
  unfold hasSameTargetWriteOverride pushPath at *
  rw [any_append, hover, Bool.true_or]

/-- An entry to read overrides nothing. -/
theorem fullDiskWrite_of_pushPath_read
    (h : (pol.pushPath root .read).hasFullDiskWriteAccessWithContext c = true) :
    pol.hasFullDiskWriteAccessWithContext c = true := by
  have hk' : (pol.pushPath root .read).kind = .restricted := hkind
  obtain ⟨hroot, hents⟩ := (fullDiskWrite_iff hk' hcv).mp h
  refine (fullDiskWrite_iff hkind hcv).mpr
    ⟨(hasRootAccess_pushPath _).symm.trans hroot, fun e he => ?_⟩
  refine narrowsWrite_of_override (hents e (mem_append_left _ he)) fun hover => ?_
  unfold hasSameTargetWriteOverride pushPath at *
  simpa [canWrite] using hover

end

/-- Whatever the one policy resolves at a path, the other resolves. -/
structure KeepsAccess (u : UrlOps) (context : FileSystemSandboxPolicyContext)
    (pol other : FileSystemSandboxPolicy) : Prop where
  read : ∀ path, (pol.resolveAccess u path context).canRead = true →
    (other.resolveAccess u path context).canRead = true
  access : ∀ path, (pol.resolveAccess u path context).canWrite = true →
    (other.resolveAccess u path context).canWrite = true

/-- Whatever the one policy permits at a path, the other permits. -/
structure NeverLess (u : UrlOps) (context : FileSystemSandboxPolicyContext)
    (pol other : FileSystemSandboxPolicy) : Prop extends KeepsAccess u context pol other where
  write : ∀ path, pol.canWritePath u path context = true → other.canWritePath u path context = true

/-- A policy that has grown.  What can be written is kept under a condition that stays true. -/
structure Grows (u : UrlOps) (context : FileSystemSandboxPolicyContext)
    (keeps : FileSystemSandboxPolicy → Prop) (pol other : FileSystemSandboxPolicy) : Prop
    extends KeepsAccess u context pol other where
  write : keeps pol → ∀ path, pol.canWritePath u path context = true →
    other.canWritePath u path context = true
  keeps : keeps pol → keeps other

variable {keeps : FileSystemSandboxPolicy → Prop} {o : FileSystemSandboxPolicy}

theorem Grows.refl (pol : FileSystemSandboxPolicy) : Grows u c keeps pol pol :=
  ⟨⟨fun _ => id, fun _ => id⟩, fun _ _ => id, id⟩

theorem Grows.trans {o' : FileSystemSandboxPolicy} (h : Grows u c keeps pol o)
    (h' : Grows u c keeps o o') : Grows u c keeps pol o' where
  read path hp := h'.read path (h.read path hp)
  access path hp := h'.access path (h.access path hp)
  write hk path hp := h'.write (h.keeps hk) path (h.write hk path hp)
  keeps hk := h'.keeps (h.keeps hk)

variable (hu : u.AppendsPlain) (hkind : pol.kind = .restricted) (hcontext : PosixContext c)
  (hgrants : pol.grants u c = some grants)

include hcontext hgrants

theorem grants_pushPath_lexical (hroot : Lexical root) :
    (pol.pushPath root a).grants u c = some (grants ++ [(root.names, a)]) := by
  rw [grants_pushPath a hcontext.convention hgrants]
  simp [placesOf, place_fromAbsPath hroot]

include hkind

theorem canReadPath_pushPath (hroot : Lexical root) (hdn : (root.names, .deny) ∉ grants) :
    ((pol.pushPath root .read).resolveAccess u (fromAbsPath root) c).canRead = true := by
  have hgr' := grants_pushPath_lexical .read hcontext hgrants hroot
  have hk' : (pol.pushPath root .read).kind = .restricted := hkind
  rw [resolveAccess_eq hk' hcontext.cwd (place_fromAbsPath hroot), hgr', canRead_iff]
  have hmem : (root.names, read) ∈ grants ++ [(root.names, .read)] :=
    mem_append_right _ (mem_singleton_self _)
  obtain ⟨⟨d, a⟩, hd⟩ := exists_decides _ ⟨_, hmem, prefix_rfl⟩
  rw [accessAt_of_decides hd]
  rintro rfl
  obtain rfl : d = root.names :=
    hd.covers.eq_of_length_le (hd.covers_le hmem prefix_rfl).length_le
  exact (mem_append.mp hd.mem).elim hdn (by simp)

include hu

/-- It is enough to compare the grants, place by place. -/
theorem grows_of_grants (hk' : o.kind = .restricted) {grants' : List Grant}
    (hgr' : o.grants u c = some grants')
    (hacc : ∀ p, accessAt (some grants') p = accessAt (some grants) p ∨
      accessAt (some grants') p = .write ∨ accessAt (some grants) p = .deny)
    (hw : keeps pol → ∀ p, Writable pol c grants p → Writable o c grants' p)
    (hkeeps : keeps pol → keeps o) : Grows u c keeps pol o := by
  have hplac {ps : FileSystemAccessMode → Bool} (htop : ps .write = true)
      (hbot : ps .deny = false) (path : PathUri)
      (h : ps (pol.resolveAccess u path c) = true) :
      ps (o.resolveAccess u path c) = true := by
    cases hp : path.place with
    | none =>
      rw [resolveAccess_of_place_eq_none hkind hcontext.convention (.inl hp), hbot] at h
      cases h
    | some p =>
      rw [resolveAccess_eq hkind hcontext.cwd hp, hgrants] at h
      rw [resolveAccess_eq hk' hcontext.cwd hp, hgr']
      rcases hacc p with hsame | hmore | hden
      · rw [hsame]
        exact h
      · rw [hmore]
        exact htop
      · rw [hden, hbot] at h
        cases h
  refine ⟨⟨hplac rfl rfl, hplac rfl rfl⟩, fun hk path hp => ?_, hkeeps⟩
  cases hpl : path.place with
  | none =>
    rw [canWritePath_eq_false hkind hcontext.convention (.inl hpl)] at hp
    cases hp
  | some p =>
    rw [canWritePath_iff hu hkind hcontext.cwd hpl hgrants] at hp
    rw [canWritePath_iff hu hk' hcontext.cwd hpl hgr']
    exact hw hk p hp

/-! ### Adding a root -/

theorem grows_opaque (hroot : ¬ Lexical root)
    (hfull : keeps pol → pol.hasFullDiskWriteAccessWithContext c = true →
      (pol.pushPath root a).hasFullDiskWriteAccessWithContext c = true)
    (hkeeps : keeps pol → keeps (pol.pushPath root a)) :
    Grows u c keeps pol (pol.pushPath root a) := by
  have hgr' : (pol.pushPath root a).grants u c = some grants := by
    rw [grants_pushPath a hcontext.convention hgrants]
    simp [placesOf, place_fromAbsPath_eq_none hroot]
  exact grows_of_grants hu hkind hcontext hgrants hkind hgr' (fun _ => .inl rfl)
    (fun hk _ h => ⟨h.access, h.metadata.imp_left (hfull hk)⟩) hkeeps

theorem grows_pushPath_write (hcannot : pol.canWritePath u (fromAbsPath root) c = false) :
    Grows u c (fun _ => True) pol (pol.pushPath root .write) := by
  by_cases hroot : Lexical root
  · have hgr' := grants_pushPath_lexical .write hcontext hgrants hroot
    have hnot : ¬ Writable pol c grants root.names := by
      rw [← canWritePath_iff hu hkind hcontext.cwd (place_fromAbsPath hroot) hgrants, hcannot]
      exact Bool.false_ne_true
    have hacc (p : List Text) :
        accessAt (some (grants ++ [(root.names, .write)])) p = accessAt (some grants) p ∨
          accessAt (some (grants ++ [(root.names, .write)])) p = .write :=
      (accessAt_concat grants (root.names, .write) p).imp_right accessAt_of_decides
    refine grows_of_grants hu hkind hcontext hgrants hkind hgr' (fun p => (hacc p).imp_right .inl)
      (fun _ p hwr => ⟨(hacc p).elim (·.trans hwr.access) id, ?_⟩) id
    refine hwr.metadata.imp (fullDiskWrite_pushPath hkind hcontext.convention)
      fun hmet hden => hmet ?_
    rw [writeRoots_concat_write] at hden
    exact metadataDenied_concat hwr.access
      (fun hcan => hnot ⟨hcan.access, .inr hcan.metadata⟩) hden
  · exact grows_opaque .write hu hkind hcontext hgrants hroot
      (fun _ => fullDiskWrite_pushPath hkind hcontext.convention) id

/-- An opaque root to read may end the access to the whole disk. -/
theorem grows_pushPath_read {lexical : Prop} (hlex : lexical → Lexical root)
    (hcannot : (pol.resolveAccess u (fromAbsPath root) c).canRead = false) :
    Grows u c (fun pol => lexical ∨ pol.hasFullDiskWriteAccessWithContext c = false) pol
      (pol.pushPath root .read) := by
  have hkeeps (hk : lexical ∨ pol.hasFullDiskWriteAccessWithContext c = false) :
      lexical ∨ (pol.pushPath root .read).hasFullDiskWriteAccessWithContext c = false := by
    simp only [Bool.eq_false_iff] at hk ⊢
    exact hk.imp_right fun hn h => hn (fullDiskWrite_of_pushPath_read hkind hcontext.convention h)
  by_cases hroot : Lexical root
  · have hgr' := grants_pushPath_lexical .read hcontext hgrants hroot
    have hden : accessAt (some grants) root.names = .deny := by
      rwa [resolveAccess_eq hkind hcontext.cwd (place_fromAbsPath hroot), hgrants,
        Bool.eq_false_iff, ne_eq, canRead_iff, not_not] at hcannot
    have hacc := accessAt_concat_read hden
    refine grows_of_grants hu hkind hcontext hgrants hkind hgr' (fun p => (hacc p).imp_right .inr)
      (fun _ p hwr => ⟨(hacc p).elim (·.trans hwr.access) fun h => ?_, ?_⟩) hkeeps
    · rw [hwr.access] at h
      cases h
    · rcases hwr.metadata with hfull | hmet
      · -- With the whole disk writable the root could be read.
        rw [accessAt_of_fullDiskWrite hcontext.cwd hgrants hu hkind hfull] at hden
        cases hden
      · rw [writeRoots_concat_read]
        exact .inr hmet
  · refine grows_opaque .read hu hkind hcontext hgrants hroot (fun hk hfull => ?_) hkeeps
    have hno := hk.resolve_left fun h => hroot (hlex h)
    exact absurd (hfull.symm.trans hno) nofun

theorem canWritePath_pushPath (hroot : Lexical root) (hdn : (root.names, .deny) ∉ grants) :
    (pol.pushPath root .write).canWritePath u (fromAbsPath root) c = true := by
  have hgr' := grants_pushPath_lexical .write hcontext hgrants hroot
  have hk' : (pol.pushPath root .write).kind = .restricted := hkind
  refine (canWritePath_iff hu hk' hcontext.cwd (place_fromAbsPath hroot) hgr').mpr ?_
  have hcan : CanWriteAt (grants ++ [(root.names, .write)]) root.names := by
    refine (canWriteAt_root_iff ?_).mpr ?_
    · exact mem_writeRoots_iff.mpr (mem_append_right _ (mem_singleton_self _))
    · rintro ⟨_, _⟩ hg rfl rfl
      exact (mem_append.mp hg).elim hdn (by simp)
  exact ⟨hcan.access, .inr hcan.metadata⟩

end Entries

/-! ### Adding roots -/

section Roots

variable {o : FileSystemSandboxPolicy} {c : FileSystemSandboxPolicyContext}
  {keeps : FileSystemSandboxPolicy → Prop}

open FileSystemSandboxPolicy

/-- An entry denies the very path. -/
def DeniedExactly (u : UrlOps) (host : Host) (pol : FileSystemSandboxPolicy)
    (cwd path : AbsolutePath) : Prop :=
  ∃ uri, (uri, .deny) ∈ pol.resolvedEntries u (localContext host cwd) ∧ uri.place = some path.names

/-- What holds of a policy while roots are added to it. -/
structure Extends (u : UrlOps) (c : FileSystemSandboxPolicyContext)
    (keeps : FileSystemSandboxPolicy → Prop) (pol : FileSystemSandboxPolicy) (grants : List Grant)
    (other : FileSystemSandboxPolicy) : Prop where
  kind : other.kind = .restricted
  grants : ∃ more, other.grants u c = some (grants ++ more) ∧ ∀ g ∈ more, g.2 ≠ .deny
  grows : Grows u c keeps pol other

theorem Extends.refl (hkind : pol.kind = .restricted) (hgrants : pol.grants u c = some grants) :
    Extends u c keeps pol grants pol :=
  ⟨hkind, ⟨[], by rw [hgrants, append_nil], nofun⟩, .refl pol⟩

theorem Extends.pushPath {a : FileSystemAccessMode} (h : Extends u c keeps pol grants o)
    (hcv : c.cwd.inferPathConvention = some .posix) (hacc : a ≠ .deny)
    (hgrows : Grows u c keeps o (o.pushPath root a)) :
    Extends u c keeps pol grants (o.pushPath root a) where
  kind := h.kind
  grants := by
    obtain ⟨more, hmore, hnone⟩ := h.grants
    refine ⟨more ++ placesOf [(fromAbsPath root, a)], ?_, fun g hg => ?_⟩
    · rw [grants_pushPath a hcv hmore, append_assoc]
    · rcases mem_append.mp hg with hg | hg
      · exact hnone g hg
      · obtain ⟨e, he, -, heq⟩ := mem_placesOf.mp hg
        rw [← heq, mem_singleton.mp he]
        exact hacc
  grows := h.grows.trans hgrows

/-- A loop that adds the roots that cannot be used: those with a place can be used then, and stay
so. -/
theorem Extends.addRoots (roots : List AbsolutePath)
    (can : FileSystemSandboxPolicy → AbsolutePath → Bool) (a : FileSystemAccessMode)
    (hcv : c.cwd.inferPathConvention = some .posix) (hacc : a ≠ .deny)
    (hgrows : ∀ {o : FileSystemSandboxPolicy} {root grants}, root ∈ roots → o.kind = .restricted →
      o.grants u c = some grants → can o root = false → Grows u c keeps o (o.pushPath root a))
    (hcan : ∀ {o : FileSystemSandboxPolicy} {root grants}, o.kind = .restricted →
      o.grants u c = some grants → Lexical root → (root.names, .deny) ∉ grants →
      can (o.pushPath root a) root = true)
    (hkeeps : ∀ {pol o root}, Grows u c keeps pol o → can pol root = true → can o root = true)
    (h : Extends u c keeps pol grants o) :
    let added := roots.foldl (fun pol root => if can pol root then pol else pol.pushPath root a) o
    Extends u c keeps pol grants added ∧
      ∀ root ∈ roots, Lexical root → (root.names, .deny) ∉ grants → can added root = true := by
  induction roots generalizing pol grants o with
  | nil => exact ⟨h, nofun⟩
  | cons first rest ih =>
    replace ih {pol grants o} := @ih pol grants o fun hmem => hgrows (mem_cons_of_mem _ hmem)
    rw [foldl_cons]
    have hstep : Extends u c keeps pol grants
          (if can o first then o else o.pushPath first a) ∧
        (Lexical first → (first.names, .deny) ∉ grants →
          can (if can o first then o else o.pushPath first a) first = true) := by
      obtain ⟨more, hmore, hnone⟩ := h.grants
      split_ifs with hold
      · exact ⟨h, fun _ _ => hold⟩
      · have hgrown := hgrows mem_cons_self h.kind hmore (Bool.eq_false_iff.mpr hold)
        refine ⟨h.pushPath hcv hacc hgrown,
          fun hlex hden => hcan h.kind hmore hlex fun hmem => ?_⟩
        exact (mem_append.mp hmem).elim hden fun hmem => hnone _ hmem rfl
    obtain ⟨hall, hothers⟩ := ih hstep.1
    refine ⟨hall, fun root hroot hlex hden => ?_⟩
    rcases mem_cons.mp hroot with rfl | hroot
    · -- The rest of the loop starts from the policy that permits the root.
      obtain ⟨more, hmore, -⟩ := hstep.1.grants
      exact hkeeps (ih (.refl hstep.1.kind hmore)).1.grows (hstep.2 hlex hden)
    · exact hothers root hroot hlex hden

variable (roots : List AbsolutePath) (hu : u.AppendsPlain) (hkind : pol.kind = .restricted)
  (hcontext : PosixContext (localContext host cwd))
  (hgrants : pol.grants u (localContext host cwd) = some grants)

include hu hkind hcontext hgrants

theorem addWritableRoots_grows :
    Grows u (localContext host cwd) (fun _ => True) pol
        (pol.withAdditionalWritableRoots u host cwd roots) ∧
      ∀ root ∈ roots, Lexical root → (root.names, .deny) ∉ grants →
        (pol.withAdditionalWritableRoots u host cwd roots).canWriteLocalPathWithCwd
          u host root cwd = true := by
  obtain ⟨hall, hcan⟩ := Extends.addRoots roots
    (fun pol root => pol.canWriteLocalPathWithCwd u host root cwd) .write hcontext.convention
    (by decide)
    (fun _ hkind hgrants => grows_pushPath_write hu hkind hcontext hgrants)
    (fun hkind hgrants => canWritePath_pushPath hu hkind hcontext hgrants)
    (fun h => h.write trivial _) (.refl hkind hgrants)
  exact ⟨hall.grows, hcan⟩

theorem addReadableRoots_grows :
    Grows u (localContext host cwd) (fun pol => (∀ root ∈ roots, Lexical root) ∨
          pol.hasFullDiskWriteAccessWithContext (localContext host cwd) = false) pol
        (pol.withAdditionalReadableRoots u host cwd roots) ∧
      ∀ root ∈ roots, Lexical root → (root.names, .deny) ∉ grants →
        (pol.withAdditionalReadableRoots u host cwd roots).canReadLocalPathWithCwd
          u host root cwd = true := by
  unfold withAdditionalReadableRoots
  split_ifs with hfull
  · refine ⟨.refl pol, fun root _ hlex _ => ?_⟩
    rw [canReadLocalPathWithCwd, resolveAccessForLocalPathWithCwd,
      resolveAccess_eq hkind hcontext.cwd (place_fromAbsPath hlex), hgrants]
    exact accessAt_of_fullDiskRead hcontext.cwd hgrants hkind hfull root.names
  · obtain ⟨hall, hcan⟩ := Extends.addRoots roots
      (fun pol root => pol.canReadLocalPathWithCwd u host root cwd) .read hcontext.convention
      (by decide) (fun hmem hkind hgrants =>
        grows_pushPath_read hu hkind hcontext hgrants
          fun (hlex : ∀ root ∈ roots, Lexical root) => hlex _ hmem)
      (fun hkind hgrants => canReadPath_pushPath hkind hcontext hgrants)
      (fun h => h.read _) (.refl hkind hgrants)
    exact ⟨hall.grows, hcan⟩

end Roots

/-- Where the working directory has no place, nothing is permitted to begin with. -/
theorem neverLess_of_not_lexical (hkind : pol.kind = .restricted) (hcwd : ¬ Lexical cwd)
    (o : FileSystemSandboxPolicy) : NeverLess u (localContext host cwd) pol o := by
  have hcv : (localContext host cwd).cwd.inferPathConvention = some .posix :=
    convention_fromAbsPath cwd
  have hpl : (localContext host cwd).cwd.place = none := place_fromAbsPath_eq_none hcwd
  have hdn (path : PathUri) : pol.resolveAccess u path (localContext host cwd) = .deny :=
    FileSystemSandboxPolicy.resolveAccess_of_place_eq_none hkind hcv (.inr hpl)
  have hw (path : PathUri) : pol.canWritePath u path (localContext host cwd) = false :=
    FileSystemSandboxPolicy.canWritePath_eq_false hkind hcv (.inr (.inl hpl))
  refine ⟨⟨fun path h => ?_, fun path h => ?_⟩, fun path h => ?_⟩
  · rw [hdn path] at h
    cases h
  · rw [hdn path] at h
    cases h
  · rw [hw path] at h
    cases h

/-- **Adding roots is monotone**, and opens them.  Whatever a policy permits stays permitted when
writable roots are added.  When readable ones are added, all that is resolved stays; and so does
what can be written, if every root has a place or there was no access to the whole disk to lose.
A root that has a place and that no entry denies is permitted afterwards. -/
theorem additionalRoots_monotone {u : UrlOps} (hu : u.AppendsPlain) (hnames : u.AppendsNames)
    (host : Host) {policy : FileSystemSandboxPolicy} (hkind : policy.kind = .restricted)
    (hentries : LexicalEntries policy) (cwd : AbsolutePath) (roots : List AbsolutePath) :
    NeverLess u (localContext host cwd) policy
        (policy.withAdditionalWritableRoots u host cwd roots) ∧
      KeepsAccess u (localContext host cwd) policy
        (policy.withAdditionalReadableRoots u host cwd roots) ∧
      ((∀ root ∈ roots, PathUri.Lexical root) ∨
          policy.hasFullDiskWriteAccessWithContext (localContext host cwd) = false →
        NeverLess u (localContext host cwd) policy
          (policy.withAdditionalReadableRoots u host cwd roots)) ∧
      (PathUri.Lexical cwd → ∀ root ∈ roots, PathUri.Lexical root →
        ¬ DeniedExactly u host policy cwd root →
          (policy.withAdditionalWritableRoots u host cwd roots).canWriteLocalPathWithCwd
              u host root cwd = true ∧
            (policy.withAdditionalReadableRoots u host cwd roots).canReadLocalPathWithCwd
              u host root cwd = true) := by
  by_cases hcwd : Lexical cwd
  · have hcontext : PosixContext (localContext host cwd) := posixContext_local hcwd
    obtain ⟨grants, hgrants⟩ := grants_isSome hnames hcontext hentries
    obtain ⟨hw, hwr⟩ := addWritableRoots_grows roots hu hkind hcontext hgrants
    obtain ⟨hread, hrd⟩ := addReadableRoots_grows roots hu hkind hcontext hgrants
    refine ⟨⟨hw.toKeepsAccess, hw.write trivial⟩, hread.toKeepsAccess,
      fun hcond => ⟨hread.toKeepsAccess, hread.write hcond⟩, fun _ root hroot hlex hden => ?_⟩
    have hnone : (root.names, .deny) ∉ grants := by
      obtain ⟨-, rfl⟩ := placed_eq_some_iff.mp hgrants
      intro hmem
      obtain ⟨⟨uri, a⟩, hmem, hpl, rfl⟩ := mem_placesOf.mp hmem
      exact hden ⟨uri, hmem, hpl⟩
    exact ⟨hwr root hroot hlex hnone, hrd root hroot hlex hnone⟩
  · have hnone (o : FileSystemSandboxPolicy) : NeverLess u (localContext host cwd) policy o :=
      neverLess_of_not_lexical hkind hcwd o
    exact ⟨hnone _, (hnone _).toKeepsAccess, fun _ => hnone _, fun h => absurd h hcwd⟩

def readOnlyDisk : FileSystemSandboxPolicy := .restricted [rootEntry .read]

theorem readOnlyDisk_denies_none (path : AbsolutePath) :
    ¬ DeniedExactly .encoding Host.empty readOnlyDisk [] path := by
  rintro ⟨uri, hmem, -⟩
  exact absurd (Prod.mk.inj (mem_singleton.mp hmem)).2 (by decide)

theorem readOnlyDisk_opens_tmp :
    (readOnlyDisk.withAdditionalWritableRoots .encoding Host.empty [] [dirTmp]
      ).canWriteLocalPathWithCwd .encoding Host.empty dirTmp [] = true := by
  have hents : LexicalEntries readOnlyDisk := by
    intro e he path hp
    rw [mem_singleton.mp he] at hp
    cases hp
  have hcwd : Lexical [] := ⟨nofun, nofun⟩
  have hroots : ∀ root ∈ [dirTmp], Lexical root := by
    unfold Lexical
    decide
  exact ((additionalRoots_monotone UrlOps.encoding_appendsPlain UrlOps.encoding_appendsNames
    Host.empty rfl hents [] [dirTmp]).2.2.2 hcwd dirTmp (mem_singleton_self _)
      (hroots dirTmp (mem_singleton_self _)) (readOnlyDisk_denies_none dirTmp)).1

/-- A directory whose name reads as a drive. -/
def driveDir : AbsolutePath := [fileNamed "C:".toList (by decide)]

/-- The whole disk can be written, though not everything counts as readable. -/
def writableDisk : FileSystemSandboxPolicy :=
  .restricted [rootEntry .write, ⟨.special .minimal, .deny, none⟩]

/-- A root whose URI keeps only the opaque bytes of the path stays closed; and added to be read,
it closes the metadata directory of the disk. -/
theorem driveDir_stays_closed :
    (¬ DeniedExactly .encoding Host.empty readOnlyDisk [] driveDir ∧
      (readOnlyDisk.withAdditionalWritableRoots .encoding Host.empty [] [driveDir]
        ).canWriteLocalPathWithCwd .encoding Host.empty driveDir [] = false) ∧
    writableDisk.canWriteLocalPathWithCwd .encoding Host.empty
        [fileNamed ".git".toList (by decide)] [] = true ∧
      (writableDisk.withAdditionalReadableRoots .encoding Host.empty [] [driveDir]
        ).canWriteLocalPathWithCwd .encoding Host.empty
          [fileNamed ".git".toList (by decide)] [] = false := by
  exact ⟨⟨readOnlyDisk_denies_none driveDir, by decide⟩, by decide⟩

end SushiGpt.Permissions
