/-
Hosts and domain patterns: `network-proxy/src/policy.rs`.

A configuration names hosts by patterns, a list of patterns is compiled into the globs that
stand for it, and a host is looked up in its normalised form.  Which texts are addresses and
what a glob matches is the business of libraries, and a parameter here.
-/
import SushiGpt.Lib.Text

namespace SushiGpt.NetworkProxy

/-! ### Normalised hosts -/

section

-- `text.parse::<IpAddr>().is_ok()`
variable (isIpAddr : Text → Bool)

def unscopedIpLiteral (host : Text) : Option Text := do
  let (ip, _) ← Text.splitOnce "%".toList host
  if isIpAddr ip then some ip else none

def normalizeIpLiteral (host : Text) : Option Text :=
  if isIpAddr host then some host
  else
    ["%25", "%"].findSome? fun delimiter => do
      let (ip, scope) ← Text.splitOnce delimiter.toList host
      if isIpAddr ip then some (ip ++ "%".toList ++ scope) else none

def normalizeDnsHostOrIpLiteral (host : Text) : Text :=
  let host := Text.trimEndMatches '.' (Text.toAsciiLowercase host)
  (normalizeIpLiteral isIpAddr host).getD host

/-- Trims white space, strips a port or brackets, and lowers the case. -/
def normalizeHost (host : Text) : Text :=
  let host := Text.trim host
  if host.head? == some '[' && host.contains ']' then
    normalizeDnsHostOrIpLiteral isIpAddr (host.tail.takeWhile (· != ']'))
  else if host.count ':' == 1 then
    normalizeDnsHostOrIpLiteral isIpAddr (host.takeWhile (· != ':'))
  else normalizeDnsHostOrIpLiteral isIpAddr host

/-- `Host::parse` -/
def parseHost (input : Text) : Except String Text :=
  let normalized := normalizeHost isIpAddr input
  if normalized.isEmpty then .error "host is empty" else .ok normalized

def normalizePattern (pattern : Text) : Text :=
  let pattern := Text.trim pattern
  if pattern == "*".toList then "*".toList
  else
    match pattern.dropPrefix? "**.".toList with
    | some domain => "**.".toList ++ normalizeHost isIpAddr domain
    | none =>
      match pattern.dropPrefix? "*.".toList with
      | some domain => "*.".toList ++ normalizeHost isIpAddr domain
      | none => normalizeHost isIpAddr pattern

end

/-! ### Patterns and their globs -/

inductive DomainPattern where
  | apexAndSubdomains (domain : Text)
  | subdomainsOnly (domain : Text)
  | exact (domain : Text)

namespace DomainPattern

def parseDomain (domain : Text) (build : Text → DomainPattern) : DomainPattern :=
  let domain := Text.trim domain
  if domain.isEmpty then .exact [] else build domain

def parse (input : Text) : DomainPattern :=
  let input := Text.trim input
  if input.isEmpty then .exact []
  else
    match input.dropPrefix? "**.".toList with
    | some domain => parseDomain domain .apexAndSubdomains
    | none =>
      match input.dropPrefix? "*.".toList with
      | some domain => parseDomain domain .subdomainsOnly
      | none => .exact input

end DomainPattern

def expandDomainPattern (pattern : Text) : List Text :=
  match DomainPattern.parse pattern with
  | .exact domain => [domain]
  | .subdomainsOnly domain => ["?*.".toList ++ domain]
  | .apexAndSubdomains domain => [domain, "?*.".toList ++ domain]

inductive GlobalWildcard where
  | allow
  | reject
  deriving DecidableEq

/-- The globs that a pattern of a list is compiled to. -/
def patternGlobs (isIpAddr : Text → Bool) (pattern : Text) : List Text :=
  expandDomainPattern (normalizePattern isIpAddr pattern)

def isGlobalWildcardDomainPattern (isIpAddr : Text → Bool) (pattern : Text) : Bool :=
  (patternGlobs isIpAddr pattern).any (· == "*".toList)

def globalWildcardError : String :=
  "unsupported global wildcard domain pattern \"*\"; use exact hosts or scoped wildcards like " ++
    "*.example.com or **.example.com"

section

variable (isIpAddr isGlob : Text → Bool)

/-- Adds the globs of one pattern that are not there yet; `isGlob` is what `GlobBuilder::build`
accepts. -/
def addGlobs (set : List Text) : List Text → Except String (List Text)
  | [] => .ok set
  | candidate :: rest =>
    if set.contains candidate then addGlobs set rest
    else if isGlob candidate then addGlobs (set ++ [candidate]) rest
    else .error ("invalid glob pattern: " ++ String.ofList candidate)

def compileGlobsetWithPolicy (patterns : List Text) (globalWildcard : GlobalWildcard) :
    Except String (List Text) :=
  patterns.foldlM (fun set pattern =>
    if globalWildcard == .reject && isGlobalWildcardDomainPattern isIpAddr pattern then
      .error globalWildcardError
    else addGlobs isGlob set (patternGlobs isIpAddr pattern)) []

def compileAllowlistGlobset (patterns : List Text) : Except String (List Text) :=
  compileGlobsetWithPolicy isIpAddr isGlob patterns .allow

def compileDenylistGlobset (patterns : List Text) : Except String (List Text) :=
  compileGlobsetWithPolicy isIpAddr isGlob patterns .reject

end

/-- A host, or the address of a host with a scope, matches one of the globs. -/
def globsetMatchesHostOrUnscoped (isIpAddr : Text → Bool) (globMatches : Text → Text → Bool)
    (set : List Text) (host : Text) : Bool :=
  set.any (globMatches · host) ||
    (unscopedIpLiteral isIpAddr host).any fun ip => set.any (globMatches · ip)

end SushiGpt.NetworkProxy
