/-
Layering of configuration tables: `config/src/merge.rs` and `config/src/key_aliases.rs`.

A layer is a TOML value; tables keep the order of their keys (the `preserve_order` feature of the
parser).  An overlay is merged into a base field by field.  Some paths have rules of their own:
features that are a flag or a table, the two ways to filter the shell environment, credentials,
and the tables whose keys are normalised when two layers meet.
-/
import SushiGpt.NetworkProxy.Config

namespace SushiGpt.Config

open NetworkProxy

inductive TomlValue where
  | string (text : Text)
  | boolean (value : Bool)
  /-- Numbers and dates. -/
  | other (payload : Text)
  | array (items : List TomlValue)
  | table (fields : List (Text × TomlValue))

abbrev TomlTable := List (Text × TomlValue)

namespace TomlValue

def asStr : TomlValue → Option Text
  | .string text => some text
  | _ => none

def asArray : TomlValue → Option (List TomlValue)
  | .array items => some items
  | _ => none

/-- `Value::get` with a key. -/
def get (value : TomlValue) (key : String) : Option TomlValue :=
  match value with
  | .table fields => IndexMap.get? fields key.toList
  | _ => none

end TomlValue

/-- What the merge takes from the platform and the standard library. -/
structure MergePlatform where
  windows : Bool
  /-- `str::to_lowercase` -/
  toLowercase : Text → Text
  isIpAddr : Text → Bool

/-! ### Renamed keys -/

structure ConfigKeyAlias where
  tablePath : List Text
  legacyKey : Text
  canonicalKey : Text

def configKeyAliases : List ConfigKeyAlias :=
  [⟨["memories".toList], "no_memories_if_mcp_or_web_search".toList,
      "disable_on_external_context".toList⟩,
    ⟨["agents".toList], "max_threads".toList, "max_concurrent_threads_per_session".toList⟩]

/-- The value under the old key moves to the new one, unless that is there. -/
def applyKeyAlias (path : List Text) (fields : TomlTable) (renamed : ConfigKeyAlias) : TomlTable :=
  if path = renamed.tablePath then
    match IndexMap.get? fields renamed.legacyKey with
    | some value =>
      let fields := IndexMap.remove renamed.legacyKey fields
      if (IndexMap.get? fields renamed.canonicalKey).isSome then fields
      else fields ++ [(renamed.canonicalKey, value)]
    | none => fields
  else fields

def normalizeKeyAliases (path : List Text) (fields : TomlTable) : TomlTable :=
  configKeyAliases.foldl (applyKeyAlias path) fields

mutual

def normalizedWithKeyAliases : TomlValue → List Text → TomlValue
  | .table fields, path => .table (normalizeKeyAliases path (normalizedFields fields path))
  | .array items, path => .array (normalizedItems items path)
  | value, _ => value

def normalizedItems : List TomlValue → List Text → List TomlValue
  | [], _ => []
  | item :: rest, path => normalizedWithKeyAliases item path :: normalizedItems rest path

def normalizedFields : TomlTable → List Text → TomlTable
  | [], _ => []
  | field :: rest, path => normalizedField field path :: normalizedFields rest path

def normalizedField : Text × TomlValue → List Text → Text × TomlValue
  | (key, child), path => (key, normalizedWithKeyAliases child (path ++ [key]))

end

/-! ### Paths with rules of their own -/

def isStructuredFeature (features feature : Text) : Bool :=
  features == "features".toList &&
    ["code_mode", "multi_agent_v2", "network_proxy", "sleep_tool"].any (·.toList == feature)

def isStructuredFeaturePath : List Text → Bool
  | [profiles, _, features, feature] =>
    profiles == "profiles".toList && isStructuredFeature features feature
  | [features, feature] => isStructuredFeature features feature
  | _ => false

def isShellEnvironmentFiltersPath (path : List Text) : Bool :=
  path == ["shell_environment_policy".toList, "filters".toList]

def isNetworkDomainsPath : List Text → Bool
  | [permissions, _, network, domains] =>
    permissions == "permissions".toList && network == "network".toList &&
      domains == "domains".toList
  | [application, network, domains] =>
    application == "application".toList && network == "network".toList &&
      domains == "domains".toList
  | _ => false

/-- The path is that of the credentials of a feature. -/
def isCredentialsPath (path : List Text) : Bool :=
  path.getLast? == some "credentials".toList && isStructuredFeaturePath path.dropLast

inductive ShellEnvironmentPolicyFilterRepresentation where
  | filters
  | legacy

namespace ShellEnvironmentPolicyFilterRepresentation

def fromPolicy : TomlValue → Option ShellEnvironmentPolicyFilterRepresentation
  | .table policy =>
    if (IndexMap.get? policy "filters".toList).isSome then some filters
    else if (IndexMap.get? policy "exclude".toList).isSome ||
        (IndexMap.get? policy "include_only".toList).isSome then some legacy
    else none
  | _ => none

def displacedFields : ShellEnvironmentPolicyFilterRepresentation → List Text
  | filters => ["exclude".toList, "include_only".toList]
  | legacy => ["filters".toList]

end ShellEnvironmentPolicyFilterRepresentation

def replaceShellEnvironmentPolicyFilterRepresentation (base overlay : TomlValue)
    (path : List Text) : TomlValue :=
  if path = ["shell_environment_policy".toList] then
    match ShellEnvironmentPolicyFilterRepresentation.fromPolicy overlay, base with
    | some representation, .table fields =>
      .table (representation.displacedFields.foldl (fun fields key =>
        IndexMap.remove key fields) fields)
    | _, base => base
  else base

def normalizeNetworkDomainKeys (isIpAddr : Text → Bool) (fields : TomlTable) : TomlTable :=
  IndexMap.rekey (normalizeHost isIpAddr) fields

def normalizeCaseInsensitiveKeys (toLowercase : Text → Text) (fields : TomlTable) : TomlTable :=
  IndexMap.rekey toLowercase fields

/-- The keys of a table as they are compared when two layers meet. -/
def normalizeKeys (platform : MergePlatform) (path : List Text) (fields : TomlTable) : TomlTable :=
  let fields := normalizeKeyAliases path fields
  let fields :=
    if isNetworkDomainsPath path then normalizeNetworkDomainKeys platform.isIpAddr fields
    else fields
  if isShellEnvironmentFiltersPath path then
    normalizeCaseInsensitiveKeys platform.toLowercase fields
  else fields

/-! ### Credentials -/

def sameSource (windows : Bool) (existing overlay : Text) : Bool :=
  existing == overlay || windows && Text.toAsciiLowercase existing == Text.toAsciiLowercase overlay

def sharesSource (windows : Bool) (existing overlay : List TomlValue) : Bool :=
  (existing.filterMap TomlValue.asStr).any fun existingSource =>
    (overlay.filterMap TomlValue.asStr).any (sameSource windows existingSource)

/-- A provider of the base goes when another one of the overlay reads one of its variables. -/
def retainProviders (windows : Bool) (overlayTable base : TomlTable) : TomlTable :=
  overlayTable.foldl (fun base (providerId, provider) =>
    match (provider.get "env").bind TomlValue.asArray with
    | none => base
    | some overlaySources =>
      base.filter fun (existingId, existing) =>
        existingId == providerId ||
          !((((IndexMap.get? overlayTable existingId).bind (·.get "env")).or
            (existing.get "env")).bind TomlValue.asArray).any
              fun existingSources => sharesSource windows existingSources overlaySources) base

/-! ### The merge -/

/-- A flag that meets a table becomes a table. -/
def expandFlag (path : List Text) (base : TomlValue) : TomlValue :=
  match base with
  | .boolean enabled =>
    if isStructuredFeaturePath path then .table [("enabled".toList, .boolean enabled)] else base
  | base => base

theorem mem_applyKeyAlias {p : List Text} {fs : TomlTable} {r : ConfigKeyAlias} {key : Text}
    {v : TomlValue} (h : (key, v) ∈ applyKeyAlias p fs r) : ∃ s, (s, v) ∈ fs := by
  unfold applyKeyAlias at h
  split_ifs at h
  · cases hleg : IndexMap.get? fs r.legacyKey with
    | none =>
      rw [hleg] at h
      exact ⟨key, h⟩
    | some m =>
      rw [hleg] at h
      dsimp only at h
      split_ifs at h
      · exact ⟨key, List.mem_of_mem_filter h⟩
      · rcases List.mem_append.mp h with h | h
        · exact ⟨key, List.mem_of_mem_filter h⟩
        · obtain ⟨-, rfl⟩ := Prod.mk.inj (List.mem_singleton.mp h)
          obtain ⟨e, hfind, rfl⟩ := Option.map_eq_some_iff.mp hleg
          exact ⟨e.1, List.mem_of_find?_eq_some hfind⟩
  · exact ⟨key, h⟩

/-- Normalising the keys of a table gives no value that the table does not have. -/
theorem mem_normalizeKeys {p : MergePlatform} {path : List Text} {fs : TomlTable} {key : Text}
    {v : TomlValue} (h : (key, v) ∈ normalizeKeys p path fs) : ∃ s, (s, v) ∈ fs := by
  have hrek {rename : Text → Text} {fs : TomlTable} {key : Text}
      (h : (key, v) ∈ IndexMap.rekey rename fs) : ∃ s, (s, v) ∈ fs := by
    obtain ⟨s, hsrc, heq⟩ := IndexMap.mem_rekey h
    obtain ⟨-, rfl⟩ := Prod.mk.inj heq
    exact ⟨s.1, hsrc⟩
  have halias : ∃ s, (s, v) ∈ normalizeKeyAliases path fs := by
    unfold normalizeKeys at h
    dsimp only at h
    split_ifs at h
    · obtain ⟨key, h⟩ := hrek h
      exact hrek h
    · exact hrek h
    · exact hrek h
    · exact ⟨key, h⟩
  unfold normalizeKeyAliases configKeyAliases at halias
  obtain ⟨key, h⟩ := halias
  obtain ⟨key, h⟩ := mem_applyKeyAlias h
  exact mem_applyKeyAlias h

theorem sizeOf_lt_table {fs : TomlTable} {key : Text} {v : TomlValue}
    (h : (key, v) ∈ fs) : sizeOf v < sizeOf (TomlValue.table fs) := by
  have hf := List.sizeOf_lt_of_mem h
  have hv : sizeOf v < sizeOf (key, v) := by simp +arith
  have htab : sizeOf fs < sizeOf (TomlValue.table fs) := by simp
  omega

def mergeTomlValuesAtPath (platform : MergePlatform) (base overlay : TomlValue)
    (path : List Text) : TomlValue :=
  let base := replaceShellEnvironmentPolicyFilterRepresentation base overlay path
  match overlay with
  | .table overlayFields =>
    match expandFlag path base with
    | .table baseFields =>
      let overlayTable := normalizeKeys platform path overlayFields
      let baseTable := normalizeKeys platform path baseFields
      let baseTable :=
        if isCredentialsPath path then retainProviders platform.windows overlayTable baseTable
        else baseTable
      .table (overlayTable.attach.foldl (fun merged field =>
        let key := field.1.1
        let path := path ++ [key]
        match IndexMap.get? merged key with
        | some existing =>
          IndexMap.insert key (mergeTomlValuesAtPath platform existing field.1.2 path) merged
        | none =>
          IndexMap.insert key (normalizedWithKeyAliases field.1.2 path) merged) baseTable)
    | _ => normalizedWithKeyAliases (.table overlayFields) path
  | .boolean enabled =>
    match base with
    | .table fields =>
      if isStructuredFeaturePath path then
        .table (IndexMap.insert "enabled".toList (.boolean enabled) fields)
      else .boolean enabled
    | _ => .boolean enabled
  | overlay => normalizedWithKeyAliases overlay path
termination_by overlay
decreasing_by
  obtain ⟨source, hsource⟩ := mem_normalizeKeys field.2
  exact sizeOf_lt_table hsource

def mergeTomlValues (platform : MergePlatform) (base overlay : TomlValue) : TomlValue :=
  mergeTomlValuesAtPath platform base overlay []

/-! ### Tables of network domains -/

/-- What a `domains` table says, read on its own. -/
def networkDomainPermissions : TomlValue → Option NetworkDomainPermissions
  | .table fields => do
    let entries ← fields.mapM fun (pattern, value) => do
      let permission ← value.asStr.bind NetworkDomainPermission.ofName
      some (pattern, permission)
    some (.deserialize entries)
  | _ => none

/-- The host matches a glob of the denylist of a `domains` table. -/
def deniesHost (isIpAddr : Text → Bool) (globMatches : Text → Text → Bool) (value : TomlValue)
    (host : Text) : Bool :=
  (networkDomainPermissions value).any fun domains =>
    globsetMatchesHostOrUnscoped isIpAddr globMatches
      ((domains.deniedDomains.getD []).flatMap (patternGlobs isIpAddr)) host

/-- A `domains` table of one layer. -/
structure DomainsTable where
  entries : List (Text × NetworkDomainPermission)
  nodup : (entries.map Prod.fst).Nodup

def DomainsTable.toToml (table : DomainsTable) : TomlValue :=
  .table (table.entries.map fun (pattern, permission) => (pattern, .string permission.name))

end SushiGpt.Config
