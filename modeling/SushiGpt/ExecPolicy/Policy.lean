/-
The execution policy: `execpolicy/src/policy.rs`, `rule.rs` and `decision.rs`.

A policy keys prefix rules by the program they are about and says, for some program
names, which absolute paths may stand for them.  A command is matched against the
rules of its first word; only if none of them matches, and only if asked to, the first
word is read as a path and its last name is looked up instead.  The decision is the
strictest of the matches, or the caller's fallback when there are none.
-/
import SushiGpt.Paths.AbsolutePath
import Mathlib.Order.Lattice.Nat

namespace SushiGpt.ExecPolicy

inductive Decision where
  | allow
  | prompt
  | forbidden
  deriving DecidableEq

/-- Decisions in the order they are declared, which is the order they are compared in. -/
def Decision.rank : Decision → Nat
  | .allow => 0
  | .prompt => 1
  | .forbidden => 2

instance : LinearOrder Decision := LinearOrder.lift' Decision.rank <| by
  intro a b h
  cases a <;> cases b <;> first | rfl | cases h

/-! ### Rules -/

inductive PatternToken where
  | single (expected : Text)
  | alts (alternatives : List Text)

def PatternToken.matches : PatternToken → Text → Bool
  | .single expected, token => expected == token
  | .alts alternatives, token => alternatives.any (· == token)

structure PrefixPattern where
  first : Text
  rest : List PatternToken

/-- The prefix of the command the pattern stands for, when it matches. -/
def PrefixPattern.matchesPrefix (pattern : PrefixPattern) : List Text → Option (List Text)
  | [] => none
  | head :: args =>
    if args.length < pattern.rest.length ∨ head ≠ pattern.first then none
    else if (pattern.rest.zip args).all fun (token, arg) => token.matches arg then
      some ((head :: args).take (pattern.rest.length + 1))
    else none

structure PrefixRule where
  pattern : PrefixPattern
  decision : Decision
  justification : Option Text

inductive RuleMatch where
  | prefixRuleMatch (matchedPrefix : List Text) (decision : Decision)
      (resolvedProgram : Option AbsolutePath) (justification : Option Text)
  | heuristicsRuleMatch (command : List Text) (decision : Decision)
  deriving DecidableEq

namespace RuleMatch

def decision : RuleMatch → Decision
  | .prefixRuleMatch _ decision _ _ => decision
  | .heuristicsRuleMatch _ decision => decision

def withResolvedProgram (program : AbsolutePath) : RuleMatch → RuleMatch
  | .prefixRuleMatch matched decision _ justification =>
    .prefixRuleMatch matched decision (some program) justification
  | other => other

end RuleMatch

def PrefixRule.matches (rule : PrefixRule) (cmd : List Text) : Option RuleMatch :=
  (rule.pattern.matchesPrefix cmd).map fun matched =>
    .prefixRuleMatch matched rule.decision none rule.justification

inductive NetworkRuleProtocol where
  | http
  | https
  | socks5Tcp
  | socks5Udp

structure NetworkRule where
  host : Text
  protocol : NetworkRuleProtocol
  decision : Decision
  justification : Option Text

def isPort (port : Text) : Bool := !port.isEmpty && port.all Char.isDigit

/-- The host has one colon, a name before it and a port behind it. -/
def namesPort (host : Text) : Bool :=
  host.count ':' == 1 && host.head? != some ':' && isPort (host.dropWhile (· != ':')).tail

/-- The host of `normalize_network_rule_host` without its brackets and its port. -/
def hostWithoutPort (raw : Text) : Text → Except Text Text
  | '[' :: stripped =>
    match stripped.dropWhile (· != ']') with
    | [] => .error "network_rule host has an invalid bracketed IPv6 literal".toList
    | _ :: rest =>
      if rest.isEmpty || (rest.head? == some ':' && isPort rest.tail) then
        .ok (stripped.takeWhile (· != ']'))
      else .error ("network_rule host contains an unsupported suffix: ".toList ++ raw)
  | host => .ok (if namesPort host then host.takeWhile (· != ':') else host)

def normalizeNetworkRuleHost (raw : Text) : Except Text Text :=
  let host := Text.trim raw
  if host.isEmpty then .error "network_rule host cannot be empty".toList
  -- A host with `://` has a slash.
  else if host.any (['/', '?', '#'].contains ·) then
    .error "network_rule host must be a hostname or IP literal (without scheme or path)".toList
  else do
    let host ← hostWithoutPort raw host
    let normalized := Text.toAsciiLowercase (Text.trim (Text.trimEndMatches '.' host))
    if normalized.isEmpty then .error "network_rule host cannot be empty".toList
    else if normalized.contains '*' then
      .error "network_rule host must be a specific host; wildcards are not allowed".toList
    else if normalized.any Text.isWhitespace then
      .error "network_rule host cannot contain whitespace".toList
    else .ok normalized

/-! ### Policies -/

structure MatchOptions where
  resolveHostExecutables : Bool

/-- `rulesByProgram` holds the entries of the multimap in insertion order. -/
structure Policy where
  rulesByProgram : List (Text × PrefixRule)
  networkRules : List NetworkRule
  hostExecutablesByName : Text → Option (List AbsolutePath)

namespace Policy

/-- The rules of one program, in insertion order. -/
def rulesOf (p : Policy) (program : Text) : List PrefixRule :=
  (p.rulesByProgram.filter (·.1 == program)).map Prod.snd

def upsertDomain (entries : List Text) (host : Text) : List Text :=
  entries.filter (· != host) ++ [host]

def compileNetworkRule (domains : List Text × List Text) (rule : NetworkRule) :
    List Text × List Text :=
  let (allowed, denied) := domains
  match rule.decision with
  | .allow => (upsertDomain allowed rule.host, denied.filter (· != rule.host))
  | .forbidden => (allowed.filter (· != rule.host), upsertDomain denied rule.host)
  | .prompt => (allowed, denied)

def compiledNetworkDomains (p : Policy) : List Text × List Text :=
  p.networkRules.foldl compileNetworkRule ([], [])

/-- The overlay's rules come after the policy's own, and its host lists replace them. -/
def mergeOverlay (p overlay : Policy) : Policy where
  rulesByProgram := p.rulesByProgram ++ overlay.rulesByProgram
  networkRules := p.networkRules ++ overlay.networkRules
  hostExecutablesByName name :=
    (overlay.hostExecutablesByName name).orElse fun _ => p.hostExecutablesByName name

def matchExactRules (p : Policy) : List Text → List RuleMatch
  | [] => []
  | first :: args => (p.rulesOf first).filterMap fun rule => rule.matches (first :: args)

/-- Whether the host list of `basename`, if there is one, lets `program` stand for it. -/
def hostAllows (p : Policy) (basename : Text) (program : AbsolutePath) : Bool :=
  match p.hostExecutablesByName basename with
  | some paths => paths.any (· == program)
  | none => true

/-- The absolute path a command's first word names, and its last component. -/
def hostProgram (env : PathEnv) : List Text → Option (AbsolutePath × Text)
  | [] => none
  | first :: _ => do
    let program ← AbsolutePath.fromAbsolutePath env first
    let basename ← program.fileName
    pure (program, basename)

def matchHostExecutableRules (env : PathEnv) (p : Policy) (cmd : List Text) : List RuleMatch :=
  match hostProgram env cmd with
  | none => []
  | some (program, basename) =>
    if p.hostAllows basename program then
      ((p.rulesOf basename).filterMap fun rule => rule.matches (basename :: cmd.tail)).map
        (RuleMatch.withResolvedProgram program)
    else []

/-- The rules that match, before any fallback. -/
def matchedRules (env : PathEnv) (p : Policy) (cmd : List Text) (options : MatchOptions) :
    List RuleMatch :=
  let exact := p.matchExactRules cmd
  if exact.isEmpty then
    if options.resolveHostExecutables then p.matchHostExecutableRules env cmd else []
  else exact

def matchesForCommandWithOptions (env : PathEnv) (p : Policy) (cmd : List Text)
    (heuristicsFallback : Option (List Text → Decision)) (options : MatchOptions) :
    List RuleMatch :=
  let matched := p.matchedRules env cmd options
  match matched, heuristicsFallback with
  | [], some fallback => [.heuristicsRuleMatch cmd (fallback cmd)]
  | matched, _ => matched

end Policy

structure Evaluation where
  decision : Decision
  matchedRules : List RuleMatch

/-- The strictest of the matches.  Without a match there is no decision to take. -/
def Evaluation.fromMatches (matched : List RuleMatch) : Option Evaluation :=
  (matched.map RuleMatch.decision).max?.map fun decision => ⟨decision, matched⟩

def Policy.checkWithOptions (env : PathEnv) (p : Policy) (cmd : List Text)
    (heuristicsFallback : List Text → Decision) (options : MatchOptions) : Option Evaluation :=
  Evaluation.fromMatches (p.matchesForCommandWithOptions env cmd (some heuristicsFallback) options)

end SushiGpt.ExecPolicy
