/-
What merging two layers does to the hosts that a table of network domains denies.

When two layers meet, each table is rebuilt under normalised keys, and of several spellings of
one host the last one stays.  The evaluator lets a deny win over an allow instead.  So a table
keeps what it denies exactly when the spelling that stays says so, which is
`mergeTomlValuesAtPath_keeps_denies_iff`.
-/
import SushiGpt.Config.Merge

namespace SushiGpt.NetworkProxy

open List OrderedMap

variable {isIp isGlob : Text → Bool} {globMatches : Text → Text → Bool} {set : List Text}
  {p : Text}

/-! ### The patterns of a denylist -/

/-- The globs of a compiled list are those of its patterns. -/
theorem mem_addGlobs {cs r : List Text} {g : Text} (h : addGlobs isGlob set cs = .ok r) :
    g ∈ r ↔ g ∈ set ∨ g ∈ cs := by
  induction cs generalizing set with
  | nil =>
    cases h
    simp
  | cons c rest ih =>
    unfold addGlobs at h
    split_ifs at h with hseen hglob
    · rw [ih h, mem_cons]
      have hseen : c ∈ set := by simpa using hseen
      constructor
      · rintro (h | h)
        · exact .inl h
        · exact .inr (.inr h)
      · rintro (h | rfl | h)
        · exact .inl h
        · exact .inl hseen
        · exact .inr h
    · rw [ih h, mem_append, mem_singleton, mem_cons, or_assoc]

theorem mem_compileGlobset {w : GlobalWildcard} {ps r : List Text} {g : Text}
    (h : ps.foldlM (fun set p =>
      if w == .reject && isGlobalWildcardDomainPattern isIp p then
        .error globalWildcardError
      else addGlobs isGlob set (patternGlobs isIp p)) set = .ok r) :
    g ∈ r ↔ g ∈ set ∨ g ∈ ps.flatMap (patternGlobs isIp) := by
  induction ps generalizing set with
  | nil =>
    cases h
    simp
  | cons p rest ih =>
    rw [foldlM_cons] at h
    split_ifs at h
    · cases h
    · cases hadd : addGlobs isGlob set (patternGlobs isIp p) with
      | error m =>
        rw [hadd] at h
        cases h
      | ok a =>
        rw [hadd] at h
        rw [ih h, mem_addGlobs hadd, flatMap_cons, mem_append, or_assoc]

theorem globsetMatches_iff {host : Text} :
    globsetMatchesHostOrUnscoped isIp globMatches set host = true ↔
      ∃ g ∈ set, globMatches g host = true ∨
        ∃ ip, unscopedIpLiteral isIp host = some ip ∧ globMatches g ip = true := by
  unfold globsetMatchesHostOrUnscoped
  cases unscopedIpLiteral isIp host with
  | none => simp
  | some ip => simp [and_or_left, exists_or]

theorem globsetMatches_congr {o : List Text} (h : ∀ g, g ∈ set ↔ g ∈ o) (host : Text) :
    globsetMatchesHostOrUnscoped isIp globMatches set host =
      globsetMatchesHostOrUnscoped isIp globMatches o host := by
  rw [Bool.eq_iff_iff, globsetMatches_iff, globsetMatches_iff]
  simp only [h]

/-- A denylist that compiles matches the hosts that the globs of its patterns match. -/
theorem compileDenylistGlobset_matches {ps : List Text}
    (h : compileDenylistGlobset isIp isGlob ps = .ok set) (host : Text) :
    globsetMatchesHostOrUnscoped isIp globMatches set host =
      globsetMatchesHostOrUnscoped isIp globMatches (ps.flatMap (patternGlobs isIp)) host := by
  refine globsetMatches_congr (fun g => ?_) host
  rw [mem_compileGlobset h]
  simp

theorem globsetMatches_mono {o : List Text} (hsub : ∀ g ∈ set, g ∈ o) {host : Text}
    (h : globsetMatchesHostOrUnscoped isIp globMatches set host = true) :
    globsetMatchesHostOrUnscoped isIp globMatches o host = true := by
  obtain ⟨g, hglob, hmatch⟩ := globsetMatches_iff.mp h
  exact globsetMatches_iff.mpr ⟨g, hsub g hglob, hmatch⟩

namespace NetworkDomainPermissions

theorem mem_raise_deny {eff : List NetworkDomainPermissionEntry}
    {entry : NetworkDomainPermissionEntry} :
    ⟨p, .deny⟩ ∈ raise eff entry ↔ ⟨p, .deny⟩ ∈ eff ∨ entry = ⟨p, .deny⟩ := by
  unfold raise
  split_ifs with hany
  · rw [mem_map]
    constructor
    · rintro ⟨e, hexisting, heq⟩
      split_ifs at heq with hraise
      · obtain ⟨hpat, -⟩ : e.pattern = entry.pattern ∧ _ := by simpa using hraise
        obtain ⟨rfl, hdeny⟩ := NetworkDomainPermissionEntry.mk.inj heq
        exact .inr (by rw [hpat, ← hdeny])
      · exact .inl (heq ▸ hexisting)
    · rintro (hmem | rfl)
      · refine ⟨_, hmem, if_neg fun hraise => ?_⟩
        obtain ⟨-, hrank⟩ : _ ∧ NetworkDomainPermission.deny.rank < entry.permission.rank := by
          simpa using hraise
        exact absurd hrank (by cases entry.permission <;> decide)
      · obtain ⟨e, hexisting, hpat⟩ := any_eq_true.mp hany
        have hpat : e.pattern = p := by simpa using hpat
        refine ⟨e, hexisting, ?_⟩
        obtain ⟨n, permission⟩ := e
        subst hpat
        cases permission <;> simp [NetworkDomainPermission.rank]
  · rw [mem_append, mem_singleton, eq_comm (b := entry)]

theorem mem_foldl_raise_deny {es e : List NetworkDomainPermissionEntry} :
    ⟨p, .deny⟩ ∈ es.foldl raise e ↔ ⟨p, .deny⟩ ∈ e ∨ ⟨p, .deny⟩ ∈ es := by
  induction es generalizing e with
  | nil => simp
  | cons entry r ih =>
    rw [foldl_cons, ih, mem_raise_deny, mem_cons, or_assoc, eq_comm (a := entry)]

/-- A deny wins over the other entries of its pattern. -/
theorem mem_deniedDomains {ds : NetworkDomainPermissions} :
    p ∈ ds.deniedDomains.getD [] ↔ ⟨p, .deny⟩ ∈ ds.entries := by
  have hpats : ds.deniedDomains.getD [] =
      (ds.effectiveEntries.filter (·.permission == .deny)).map (·.pattern) := by
    unfold deniedDomains domainEntries
    dsimp only
    split_ifs with hempty
    · exact (isEmpty_iff.mp hempty).symm
    · rfl
  rw [hpats, mem_map]
  have heff : ⟨p, .deny⟩ ∈ ds.effectiveEntries ↔ ⟨p, .deny⟩ ∈ ds.entries := by
    rw [effectiveEntries, mem_foldl_raise_deny]
    simp
  rw [← heff]
  constructor
  · rintro ⟨⟨n, permission⟩, he, rfl⟩
    obtain ⟨hmem, hdeny⟩ := mem_filter.mp he
    obtain rfl : permission = .deny := by simpa using hdeny
    exact hmem
  · intro hmem
    exact ⟨_, mem_filter.mpr ⟨hmem, rfl⟩, rfl⟩

/-- **A host matches the compiled denylist of a table exactly when it matches an entry that denies,
in whatever order the entries stand and whatever the others allow.** -/
theorem compiled_denylist_iff {domains : NetworkDomainPermissions}
    (h : compileDenylistGlobset isIp isGlob (domains.deniedDomains.getD []) = .ok set)
    (host : Text) :
    globsetMatchesHostOrUnscoped isIp globMatches set host = true ↔
      ∃ entry ∈ domains.entries, entry.permission = .deny ∧
        globsetMatchesHostOrUnscoped isIp globMatches (patternGlobs isIp entry.pattern) host =
          true := by
  rw [compileDenylistGlobset_matches h]
  simp only [globsetMatches_iff, mem_flatMap, mem_deniedDomains]
  constructor
  · rintro ⟨g, ⟨p, hmem, hglob⟩, hmatch⟩
    exact ⟨_, hmem, rfl, g, hglob, hmatch⟩
  · rintro ⟨⟨p, _⟩, hmem, rfl, g, hglob, hmatch⟩
    exact ⟨g, ⟨p, hmem, hglob⟩, hmatch⟩

def allowedAndDenied : NetworkDomainPermissions := ⟨[⟨['a'], .allow⟩, ⟨['A'], .deny⟩]⟩

theorem allowedAndDenied_denies :
    ∃ set, compileDenylistGlobset (fun _ => false) (fun _ => true)
      (allowedAndDenied.deniedDomains.getD []) = .ok set ∧
      globsetMatchesHostOrUnscoped (fun _ => false) (· == ·) set ['a'] = true := by
  have h : compileDenylistGlobset (fun _ => false) (fun _ => true)
      (allowedAndDenied.deniedDomains.getD []) = .ok [['a']] := rfl
  exact ⟨_, h, (compiled_denylist_iff h _).mpr ⟨_, .tail _ (.head _), rfl, rfl⟩⟩

theorem mem_deserialize {fs : List (Text × NetworkDomainPermission)} (hnd : (fs.map Prod.fst).Nodup)
    {permission : NetworkDomainPermission} :
    ⟨p, permission⟩ ∈ (deserialize fs).entries ↔ (p, permission) ∈ fs := by
  have hfold (map : OrderedMap Text NetworkDomainPermission)
      (hnew : ∀ f ∈ fs, map.get? f.1 = none) :
      (fs.foldl (fun map f => map.insert f.1 f.2) map).get? p =
        some permission ↔ map.get? p = some permission ∨ (p, permission) ∈ fs := by
    induction fs generalizing map with
    | nil => simp
    | cons f r ih =>
      obtain ⟨hf, hrest⟩ := nodup_cons.mp hnd
      rw [foldl_cons, ih hrest _, mem_cons]
      · by_cases hpat : p = f.1
        · subst hpat
          rw [get?_insert_self, hnew f (mem_cons_self ..)]
          have ho : (f.1, permission) ∉ r := fun h => hf (mem_map.mpr ⟨_, h, rfl⟩)
          constructor
          · rintro (h | h)
            · exact .inr (.inl (Prod.ext rfl (Option.some.inj h).symm))
            · exact absurd h ho
          · rintro (h | h | h)
            · cases h
            · exact .inl (congrArg (some ·.2) h.symm)
            · exact absurd h ho
        · rw [get?_insert_of_ne hpat]
          refine or_congr_right ⟨.inr, ?_⟩
          rintro (h | h)
          · exact absurd (congrArg Prod.fst h) hpat
          · exact h
      · intro o ho
        rw [get?_insert_of_ne, hnew o (mem_cons_of_mem _ ho)]
        exact fun h => hf (h ▸ mem_map_of_mem ho)
  have hmap := hfold .empty fun _ _ => rfl
  rw [get?_eq_some_iff, get?_empty] at hmap
  unfold deserialize
  rw [mem_map]
  constructor
  · rintro ⟨e, he, heq⟩
    obtain ⟨rfl, rfl⟩ := NetworkDomainPermissionEntry.mk.inj heq
    exact (hmap.mp he).resolve_left nofun
  · intro h
    exact ⟨_, hmap.mpr (.inr h), rfl⟩

end NetworkDomainPermissions

end SushiGpt.NetworkProxy

namespace SushiGpt.Config

open NetworkProxy List

/-! ### A path of domains has no other rule -/

section

variable {platform : MergePlatform} {path : List Text} {fs : TomlTable}

theorem isNetworkDomainsPath_cases (h : isNetworkDomainsPath path = true) :
    (∃ profile, path = ["permissions".toList, profile, "network".toList, "domains".toList]) ∨
      path = ["application".toList, "network".toList, "domains".toList] := by
  unfold isNetworkDomainsPath at h
  split at h
  · simp only [Bool.and_eq_true, beq_iff_eq] at h
    obtain ⟨⟨rfl, rfl⟩, rfl⟩ := h
    exact .inl ⟨_, rfl⟩
  · simp only [Bool.and_eq_true, beq_iff_eq] at h
    obtain ⟨⟨rfl, rfl⟩, rfl⟩ := h
    exact .inr rfl
  · cases h

theorem normalizeKeys_domains (h : isNetworkDomainsPath path = true) :
    normalizeKeys platform path fs = IndexMap.rekey (normalizeHost platform.isIpAddr) fs := by
  have halias : normalizeKeyAliases path fs = fs := by
    rcases isNetworkDomainsPath_cases h with ⟨profile, rfl⟩ | rfl <;>
      simp [normalizeKeyAliases, configKeyAliases, applyKeyAlias]
  have hfil : isShellEnvironmentFiltersPath path = false := by
    rcases isNetworkDomainsPath_cases h with ⟨profile, rfl⟩ | rfl <;>
      simp [isShellEnvironmentFiltersPath]
  rw [normalizeKeys, halias, hfil, h]
  rfl

theorem foldl_merge_new (platform : MergePlatform) (path : List Text) {overlay m : TomlTable}
    (hv : ∀ f ∈ overlay, ∀ path, normalizedWithKeyAliases f.2 path = f.2)
    (hnd : (overlay.map Prod.fst).Nodup) (hnew : ∀ f ∈ overlay, f.1 ∉ m.map Prod.fst) :
    overlay.foldl (fun m f =>
      match IndexMap.get? m f.1 with
      | some e =>
        IndexMap.insert f.1 (mergeTomlValuesAtPath platform e f.2 (path ++ [f.1])) m
      | none =>
        IndexMap.insert f.1 (normalizedWithKeyAliases f.2 (path ++ [f.1])) m)
      m = IndexMap.insertAll m overlay := by
  induction overlay generalizing m with
  | nil => rfl
  | cons f r ih =>
    obtain ⟨hf, hrest⟩ := nodup_cons.mp hnd
    have habs := hnew f (mem_cons_self ..)
    have hn : IndexMap.get? m f.1 = none := by
      unfold IndexMap.get?
      rw [Option.map_eq_none_iff, find?_eq_none]
      intro entry he
      simpa using fun h => habs (mem_map.mpr ⟨entry, he, h⟩)
    rw [foldl_cons, hn]
    rw [hv f (mem_cons_self ..), ih (fun o ho => hv o (mem_cons_of_mem _ ho)) hrest]
    · rfl
    · intro o ho
      rw [IndexMap.insert_of_not_mem habs, map_append, mem_append, not_or]
      refine ⟨hnew o (mem_cons_of_mem _ ho), fun hmem => hf ?_⟩
      exact mem_singleton.mp hmem ▸ mem_map_of_mem ho

/-- Two tables of domains that name different hosts: both are rebuilt and put together. -/
theorem mergeTomlValuesAtPath_domains {b overlay : TomlTable}
    (hp : isNetworkDomainsPath path = true)
    (hv : ∀ f ∈ overlay, ∀ path, normalizedWithKeyAliases f.2 path = f.2)
    (hdis : ∀ f ∈ overlay, ∀ e ∈ b,
      normalizeHost platform.isIpAddr f.1 ≠ normalizeHost platform.isIpAddr e.1) :
    mergeTomlValuesAtPath platform (.table b) (.table overlay) path =
      .table (IndexMap.rekey (normalizeHost platform.isIpAddr) b ++
        IndexMap.rekey (normalizeHost platform.isIpAddr) overlay) := by
  have hshell : replaceShellEnvironmentPolicyFilterRepresentation (.table b)
      (.table overlay) path = .table b := by
    rcases isNetworkDomainsPath_cases hp with ⟨profile, rfl⟩ | rfl <;>
      simp [replaceShellEnvironmentPolicyFilterRepresentation]
  have hcred : isCredentialsPath path = false := by
    rcases isNetworkDomainsPath_cases hp with ⟨profile, rfl⟩ | rfl <;>
      simp [isCredentialsPath]
  rw [mergeTomlValuesAtPath]
  rw [hshell]
  simp only [expandFlag, normalizeKeys_domains hp, hcred, Bool.false_eq_true, if_false]
  have hnew : ∀ f ∈ IndexMap.rekey (normalizeHost platform.isIpAddr) overlay,
      f.1 ∉ (IndexMap.rekey (normalizeHost platform.isIpAddr) b).map Prod.fst := by
    intro f hf hmem
    obtain ⟨entry, he, heq⟩ := mem_map.mp hmem
    obtain ⟨s, hsrc, rfl⟩ := IndexMap.mem_rekey hf
    obtain ⟨e, hexisting, rfl⟩ := IndexMap.mem_rekey he
    exact hdis s hsrc e hexisting heq.symm
  have hkept : ∀ f ∈ IndexMap.rekey (normalizeHost platform.isIpAddr) overlay,
      ∀ path, normalizedWithKeyAliases f.2 path = f.2 := by
    intro f hf
    obtain ⟨s, hsrc, rfl⟩ := IndexMap.mem_rekey hf
    exact hv s hsrc
  rw [← IndexMap.insertAll_of_disjoint IndexMap.nodup_rekey hnew,
    ← foldl_merge_new platform path hkept IndexMap.nodup_rekey hnew]
  congr 1
  have hover : IndexMap.rekey (normalizeHost platform.isIpAddr) overlay =
      normalizeKeys platform path overlay := (normalizeKeys_domains hp).symm
  rw [hover]
  symm
  exact foldl_attach.symm

end

/-! ### What a table denies -/

theorem mapM_permissions (es : List (Text × NetworkDomainPermission)) :
    (es.map (Prod.map id fun permission => TomlValue.string permission.name)).mapM (fun (p, v) => do
      let permission ← v.asStr.bind NetworkDomainPermission.ofName
      some (p, permission)) = some es := by
  induction es with
  | nil => rfl
  | cons e r ih =>
    obtain ⟨p, permission⟩ := e
    have hnm : NetworkDomainPermission.ofName permission.name = some permission := by
      cases permission <;> rfl
    rw [map_cons, mapM_cons, ih]
    simp [TomlValue.asStr, hnm]

theorem deniesHost_table {isIp : Text → Bool} {globMatches : Text → Text → Bool}
    {es : List (Text × NetworkDomainPermission)} (hnd : (es.map Prod.fst).Nodup) (host : Text) :
    deniesHost isIp globMatches
        (.table (es.map (Prod.map id fun permission => .string permission.name))) host =
      globsetMatchesHostOrUnscoped isIp globMatches
        ((es.filter (·.2 == .deny)).flatMap fun e => patternGlobs isIp e.1)
        host := by
  have hrd : networkDomainPermissions
      (.table (es.map (Prod.map id fun permission => .string permission.name))) =
        some (.deserialize es) := by
    unfold networkDomainPermissions
    dsimp only
    rw [mapM_permissions]
    rfl
  rw [deniesHost, hrd]
  refine globsetMatches_congr (fun g => ?_) host
  simp only [mem_flatMap, NetworkDomainPermissions.mem_deniedDomains,
    NetworkDomainPermissions.mem_deserialize hnd, mem_filter, beq_iff_eq]
  constructor
  · rintro ⟨p, hmem, hglob⟩
    exact ⟨(p, .deny), ⟨hmem, rfl⟩, hglob⟩
  · rintro ⟨⟨p, permission⟩, ⟨hmem, rfl⟩, hglob⟩
    exact ⟨p, hmem, hglob⟩

namespace DomainsTable

/-- The table with normalised keys, as it stands when two layers meet. -/
def normalized (t : DomainsTable) (isIpAddr : Text → Bool) : DomainsTable where
  entries := IndexMap.rekey (normalizeHost isIpAddr) t.entries
  nodup := IndexMap.nodup_rekey

def denyGlobs (t : DomainsTable) (isIpAddr : Text → Bool) : List Text :=
  (t.entries.filter (·.2 == .deny)).flatMap fun entry => patternGlobs isIpAddr entry.1

/-- No key of one table and key of the other name the same host. -/
def NamesOtherHosts (overlay t : DomainsTable) (isIpAddr : Text → Bool) : Prop :=
  ∀ entry ∈ overlay.entries, ∀ existing ∈ t.entries,
    normalizeHost isIpAddr entry.1 ≠ normalizeHost isIpAddr existing.1

/-- An entry is the last spelling of its host. -/
def IsLastSpelling (t : DomainsTable) (isIpAddr : Text → Bool)
    (entry : Text × NetworkDomainPermission) : Prop :=
  (t.entries.reverse.find? fun e => normalizeHost isIpAddr e.1 = normalizeHost isIpAddr entry.1) =
    some entry

/-- A host that a deny entry matches is matched by one that is the last spelling of its own
host, read under its normalised key. -/
def LastSpellingDenies (t : DomainsTable) (isIpAddr : Text → Bool)
    (globMatches : Text → Text → Bool) : Prop :=
  ∀ host, ∀ entry ∈ t.entries, entry.2 = .deny →
    globsetMatchesHostOrUnscoped isIpAddr globMatches (patternGlobs isIpAddr entry.1) host = true →
      ∃ kept ∈ t.entries, kept.2 = .deny ∧ t.IsLastSpelling isIpAddr kept ∧
        globsetMatchesHostOrUnscoped isIpAddr globMatches
          (patternGlobs isIpAddr (normalizeHost isIpAddr kept.1)) host = true

/-- Each glob of a deny entry is a glob of such an entry. -/
def LastSpellingHasGlobs (t : DomainsTable) (isIpAddr : Text → Bool) : Prop :=
  ∀ glob ∈ t.denyGlobs isIpAddr, ∃ kept ∈ t.entries, kept.2 = .deny ∧
    t.IsLastSpelling isIpAddr kept ∧ glob ∈ patternGlobs isIpAddr (normalizeHost isIpAddr kept.1)

instance (t : DomainsTable) (isIpAddr : Text → Bool) :
    Decidable (t.LastSpellingHasGlobs isIpAddr) :=
  inferInstanceAs (Decidable (∀ glob ∈ t.denyGlobs isIpAddr, ∃ kept ∈ t.entries,
    kept.2 = .deny ∧ (t.entries.reverse.find? fun e =>
      normalizeHost isIpAddr e.1 = normalizeHost isIpAddr kept.1) = some kept ∧
    glob ∈ patternGlobs isIpAddr (normalizeHost isIpAddr kept.1)))

variable {t overlay : DomainsTable} {isIp : Text → Bool}

theorem mem_denyGlobs {g : Text} :
    g ∈ t.denyGlobs isIp ↔ ∃ p, (p, .deny) ∈ t.entries ∧ g ∈ patternGlobs isIp p := by
  simp only [denyGlobs, mem_flatMap, mem_filter, beq_iff_eq]
  constructor
  · rintro ⟨⟨p, permission⟩, ⟨hmem, rfl⟩, hglob⟩
    exact ⟨p, hmem, hglob⟩
  · rintro ⟨p, hmem, hglob⟩
    exact ⟨(p, .deny), ⟨hmem, rfl⟩, hglob⟩

theorem deniesHost_toToml {globMatches : Text → Text → Bool} (host : Text) :
    deniesHost isIp globMatches t.toToml host =
      globsetMatchesHostOrUnscoped isIp globMatches (t.denyGlobs isIp) host :=
  deniesHost_table t.nodup host

theorem mem_denyGlobs_normalized {g : Text} :
    g ∈ (t.normalized isIp).denyGlobs isIp ↔ ∃ kept ∈ t.entries, kept.2 = .deny ∧
      t.IsLastSpelling isIp kept ∧ g ∈ patternGlobs isIp (normalizeHost isIp kept.1) := by
  rw [mem_denyGlobs]
  simp only [normalized, IndexMap.mem_rekey_iff]
  constructor
  · rintro ⟨key, ⟨s, hlast⟩, hglob⟩
    obtain rfl : normalizeHost isIp s = key := by simpa using find?_some hlast
    exact ⟨(s, .deny), mem_reverse.mp (mem_of_find?_eq_some hlast), rfl, hlast, hglob⟩
  · rintro ⟨⟨p, permission⟩, -, rfl, hlast, hglob⟩
    exact ⟨_, ⟨p, hlast⟩, hglob⟩

theorem lastSpellingHasGlobs_iff :
    t.LastSpellingHasGlobs isIp ↔ t.denyGlobs isIp ⊆ (t.normalized isIp).denyGlobs isIp :=
  forall₂_congr fun _ _ => mem_denyGlobs_normalized.symm

theorem lastSpellingDenies_iff {globMatches : Text → Text → Bool} :
    t.LastSpellingDenies isIp globMatches ↔ ∀ host,
      globsetMatchesHostOrUnscoped isIp globMatches (t.denyGlobs isIp) host = true →
        globsetMatchesHostOrUnscoped isIp globMatches ((t.normalized isIp).denyGlobs isIp) host =
          true := by
  refine forall_congr' fun host => ?_
  simp only [globsetMatches_iff, mem_denyGlobs_normalized]
  constructor
  · rintro h ⟨g, hglob, hmatch⟩
    obtain ⟨p, hmem, hglob⟩ := mem_denyGlobs.mp hglob
    obtain ⟨kept, hkept, hdeny, hlast, g, hglob, hmatch⟩ := h _ hmem rfl ⟨g, hglob, hmatch⟩
    exact ⟨g, ⟨kept, hkept, hdeny, hlast, hglob⟩, hmatch⟩
  · rintro h ⟨p, permission⟩ hmem rfl ⟨g, hglob, hmatch⟩
    obtain ⟨g, ⟨kept, hkept, hdeny, hlast, hglob⟩, hmatch⟩ :=
      h ⟨g, mem_denyGlobs.mpr ⟨p, hmem, hglob⟩, hmatch⟩
    exact ⟨kept, hkept, hdeny, hlast, g, hglob, hmatch⟩

/-- However globs match: a matcher may tell any two globs apart. -/
theorem forall_lastSpellingDenies_iff :
    (∀ globMatches, t.LastSpellingDenies isIp globMatches) ↔ t.LastSpellingHasGlobs isIp := by
  simp only [lastSpellingHasGlobs_iff, lastSpellingDenies_iff]
  constructor
  · intro h glob hglob
    have hkept := h (fun candidate _ => candidate == glob) []
      (globsetMatches_iff.mpr ⟨glob, hglob, .inl (beq_self_eq_true glob)⟩)
    obtain ⟨candidate, hmem, hmatch⟩ := globsetMatches_iff.mp hkept
    obtain rfl : candidate = glob := by
      rcases hmatch with h | ⟨-, -, h⟩ <;> exact beq_iff_eq.mp h
    exact hmem
  · exact fun h globMatches host => globsetMatches_mono h

/-- Two tables that name different hosts are put together. -/
theorem merge_toToml {platform : MergePlatform} {path : List Text}
    (hp : isNetworkDomainsPath path = true) (ho : overlay.NamesOtherHosts t platform.isIpAddr) :
    mergeTomlValuesAtPath platform t.toToml overlay.toToml path =
      .table (((t.normalized platform.isIpAddr).entries ++
        (overlay.normalized platform.isIpAddr).entries).map
          (Prod.map id fun permission => .string permission.name)) := by
  have hfs (t : DomainsTable) : t.toToml =
      .table (t.entries.map (Prod.map id fun permission => .string permission.name)) := rfl
  rw [hfs, hfs, mergeTomlValuesAtPath_domains hp, IndexMap.rekey_map,
    IndexMap.rekey_map, map_append]
  · rfl
  · intro f hf path
    obtain ⟨e, -, rfl⟩ := mem_map.mp hf
    rw [Prod.map_snd, normalizedWithKeyAliases]
    · nofun
    · nofun
  · intro f hf existing hexisting
    obtain ⟨e, he, rfl⟩ := mem_map.mp hf
    obtain ⟨b, hbase, rfl⟩ := mem_map.mp hexisting
    exact ho e he b hbase

theorem nodup_append_normalized (ho : overlay.NamesOtherHosts t isIp) :
    (((t.normalized isIp).entries ++ (overlay.normalized isIp).entries).map Prod.fst).Nodup := by
  rw [map_append]
  refine List.Nodup.append (t.normalized isIp).nodup (overlay.normalized isIp).nodup ?_
  intro key hkey hmem
  obtain ⟨entry, he, rfl⟩ := mem_map.mp hkey
  obtain ⟨new, hnew, heq⟩ := mem_map.mp hmem
  obtain ⟨e, hexisting, rfl⟩ := IndexMap.mem_rekey he
  obtain ⟨s, hsrc, rfl⟩ := IndexMap.mem_rekey hnew
  exact ho s hsrc e hexisting heq

/-- The merged table denies what either of the rebuilt tables denies. -/
theorem deniesHost_merge {platform : MergePlatform} {path : List Text}
    (hp : isNetworkDomainsPath path = true) (ho : overlay.NamesOtherHosts t platform.isIpAddr)
    (globMatches : Text → Text → Bool) (host : Text) :
    deniesHost platform.isIpAddr globMatches
        (mergeTomlValuesAtPath platform t.toToml overlay.toToml path) host =
      globsetMatchesHostOrUnscoped platform.isIpAddr globMatches
        ((t.normalized platform.isIpAddr).denyGlobs platform.isIpAddr ++
          (overlay.normalized platform.isIpAddr).denyGlobs platform.isIpAddr) host := by
  rw [merge_toToml hp ho, deniesHost_table (nodup_append_normalized ho),
    filter_append, flatMap_append]
  rfl

theorem NamesOtherHosts.symm (h : overlay.NamesOtherHosts t isIp) :
    t.NamesOtherHosts overlay isIp :=
  fun entry he e hexisting => (h e hexisting entry he).symm

end DomainsTable

/-- **A table keeps what it denies** under every overlay that names other hosts, merged in either
order, exactly when the last spellings of its hosts deny all of it.  However globs match, this is
so when the last spellings have all globs that deny. -/
theorem mergeTomlValuesAtPath_keeps_denies_iff (platform : MergePlatform) {path : List Text}
    (hpath : isNetworkDomainsPath path = true) (table : DomainsTable) :
    (∀ globMatches, (∀ overlay : DomainsTable,
      overlay.NamesOtherHosts table platform.isIpAddr →
      ∀ host, deniesHost platform.isIpAddr globMatches table.toToml host = true →
        deniesHost platform.isIpAddr globMatches
            (mergeTomlValuesAtPath platform table.toToml overlay.toToml path) host = true ∧
          deniesHost platform.isIpAddr globMatches
            (mergeTomlValuesAtPath platform overlay.toToml table.toToml path) host = true) ↔
      table.LastSpellingDenies platform.isIpAddr globMatches) ∧
    ((∀ globMatches, table.LastSpellingDenies platform.isIpAddr globMatches) ↔
      table.LastSpellingHasGlobs platform.isIpAddr) := by
  refine ⟨fun globMatches => ?_, DomainsTable.forall_lastSpellingDenies_iff⟩
  rw [DomainsTable.lastSpellingDenies_iff]
  constructor
  · intro hkeeps host hden
    -- Nothing is merged in.
    have hempty : DomainsTable.NamesOtherHosts ⟨[], nodup_nil⟩ table platform.isIpAddr := nofun
    rw [← DomainsTable.deniesHost_toToml] at hden
    have hmer := (hkeeps _ hempty host hden).1
    rw [DomainsTable.deniesHost_merge hpath hempty] at hmer
    refine globsetMatches_mono (fun glob hglob => ?_) hmer
    exact (mem_append.mp hglob).resolve_right not_mem_nil
  · intro hlast overlay ho host hden
    rw [DomainsTable.deniesHost_toToml] at hden
    rw [DomainsTable.deniesHost_merge hpath ho, DomainsTable.deniesHost_merge hpath ho.symm]
    constructor
    · exact globsetMatches_mono (fun glob hglob => mem_append_left _ hglob) (hlast host hden)
    · exact globsetMatches_mono (fun glob hglob => mem_append_right _ hglob) (hlast host hden)

/-- A platform on which no text is an address. -/
def plainPlatform : MergePlatform := ⟨false, Text.toAsciiLowercase, fun _ => false⟩

def devDomainsPath : List Text :=
  ["permissions".toList, "dev".toList, "network".toList, "domains".toList]

/-- Two spellings of a host, the second of which denies. -/
def allowedThenDenied : DomainsTable :=
  ⟨[("Example.com".toList, .allow), ("example.com:443".toList, .deny),
    ("*.tracker.net".toList, .deny)], by decide⟩

theorem allowedThenDenied_keeps_denies : isNetworkDomainsPath devDomainsPath = true ∧
    ∀ globMatches, ∀ overlay : DomainsTable,
      overlay.NamesOtherHosts allowedThenDenied plainPlatform.isIpAddr → ∀ host,
        deniesHost plainPlatform.isIpAddr globMatches allowedThenDenied.toToml host = true →
          deniesHost plainPlatform.isIpAddr globMatches (mergeTomlValuesAtPath plainPlatform
              allowedThenDenied.toToml overlay.toToml devDomainsPath) host = true ∧
            deniesHost plainPlatform.isIpAddr globMatches (mergeTomlValuesAtPath plainPlatform
              overlay.toToml allowedThenDenied.toToml devDomainsPath) host = true := by
  have hpath : isNetworkDomainsPath devDomainsPath = true := by decide
  refine ⟨hpath, fun globMatches => ?_⟩
  obtain ⟨hkeeps, hglobs⟩ :=
    mergeTomlValuesAtPath_keeps_denies_iff plainPlatform hpath allowedThenDenied
  exact (hkeeps globMatches).mpr (hglobs.mpr (by decide) globMatches)

/-- Two spellings of a host, the second of which allows it. -/
def deniedThenAllowed : DomainsTable :=
  ⟨[("example.com".toList, .deny), ("EXAMPLE.COM".toList, .allow)], by decide⟩

def otherHostAllowed : DomainsTable := ⟨[("other.org".toList, .allow)], by decide⟩

/-- The host is denied by the table, and no longer when a layer about another host is merged. -/
theorem merge_loses_deny :
    otherHostAllowed.NamesOtherHosts deniedThenAllowed plainPlatform.isIpAddr ∧
      deniesHost plainPlatform.isIpAddr (· == ·) deniedThenAllowed.toToml
        "example.com".toList = true ∧
      deniesHost plainPlatform.isIpAddr (· == ·) (mergeTomlValuesAtPath plainPlatform
        deniedThenAllowed.toToml otherHostAllowed.toToml devDomainsPath)
          "example.com".toList = false ∧
      deniesHost plainPlatform.isIpAddr (· == ·) (mergeTomlValuesAtPath plainPlatform
        otherHostAllowed.toToml deniedThenAllowed.toToml devDomainsPath)
          "example.com".toList = false := by
  have ho : otherHostAllowed.NamesOtherHosts deniedThenAllowed plainPlatform.isIpAddr := by
    unfold DomainsTable.NamesOtherHosts
    decide
  refine ⟨ho, by decide, ?_, ?_⟩
  · rw [DomainsTable.deniesHost_merge (by decide) ho]
    decide
  · rw [DomainsTable.deniesHost_merge (by decide) ho.symm]
    decide

end SushiGpt.Config
