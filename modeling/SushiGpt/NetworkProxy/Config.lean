/-
Domain permissions of a proxy configuration: `network-proxy/src/config.rs`.
-/
import SushiGpt.Lib.OrderedMap
import SushiGpt.NetworkProxy.Policy
import Mathlib.Data.Char

namespace SushiGpt.NetworkProxy

/-- In the order of precedence: of the permissions given to one pattern the greatest holds. -/
inductive NetworkDomainPermission where
  | none
  | allow
  | deny
  deriving DecidableEq

namespace NetworkDomainPermission

def rank : NetworkDomainPermission → Nat
  | none => 0
  | allow => 1
  | deny => 2

def name : NetworkDomainPermission → Text
  | none => "none".toList
  | allow => "allow".toList
  | deny => "deny".toList

/-- `NetworkDomainPermission::deserialize` -/
def ofName (text : Text) : Option NetworkDomainPermission :=
  [none, allow, deny].find? fun permission => permission.name == text

end NetworkDomainPermission

structure NetworkDomainPermissionEntry where
  pattern : Text
  permission : NetworkDomainPermission

structure NetworkDomainPermissions where
  entries : List NetworkDomainPermissionEntry

namespace NetworkDomainPermissions

/-- From the fields of a map, through a `BTreeMap`. -/
def deserialize (fields : List (Text × NetworkDomainPermission)) : NetworkDomainPermissions :=
  let map := fields.foldl (fun map field => OrderedMap.insert map field.1 field.2)
    (OrderedMap.empty : OrderedMap Text NetworkDomainPermission)
  ⟨map.entries.map fun entry => ⟨entry.1, entry.2⟩⟩

/-- Adds an entry, or raises the permission of the one with its pattern. -/
def raise (effective : List NetworkDomainPermissionEntry) (entry : NetworkDomainPermissionEntry) :
    List NetworkDomainPermissionEntry :=
  if effective.any fun existing => existing.pattern == entry.pattern then
    effective.map fun existing =>
      if existing.pattern == entry.pattern &&
          decide (existing.permission.rank < entry.permission.rank) then
        { existing with permission := entry.permission }
      else existing
  else effective ++ [entry]

variable (domains : NetworkDomainPermissions)

def effectiveEntries : List NetworkDomainPermissionEntry :=
  domains.entries.foldl raise []

def domainEntries (permission : NetworkDomainPermission) : Option (List Text) :=
  let patterns := (domains.effectiveEntries.filter (·.permission == permission)).map (·.pattern)
  if patterns.isEmpty then none else some patterns

def allowedDomains : Option (List Text) :=
  domains.domainEntries .allow

def deniedDomains : Option (List Text) :=
  domains.domainEntries .deny

end NetworkDomainPermissions

end SushiGpt.NetworkProxy
