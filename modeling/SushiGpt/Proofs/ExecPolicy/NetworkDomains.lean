/-
The domains that network rules compile to.

Each rule edits both lists, so what they hold is told by the newest rule for a host that is no
prompt: which list the host is in, and where it stands there.
-/
import SushiGpt.ExecPolicy.Policy

namespace SushiGpt.ExecPolicy

open Policy List

variable {rules : List NetworkRule} {r : NetworkRule} {d : Decision} {ds : List Text}

def NetworkRule.decides (host : Text) (rule : NetworkRule) : Bool :=
  rule.host == host && rule.decision != .prompt

/-- What the newest rule for the host that is no prompt decides. -/
def lastDecision (rules : List NetworkRule) (host : Text) : Option Decision :=
  (rules.reverse.find? (·.decides host)).map (·.decision)

def age (rules : List NetworkRule) (host : Text) : Nat :=
  rules.reverse.findIdx (·.decides host)

theorem lastDecision_concat (rules : List NetworkRule) (r : NetworkRule) (host : Text) :
    lastDecision (rules ++ [r]) host =
      if r.decides host then some r.decision else lastDecision rules host := by
  by_cases h : r.decides host <;> simp [lastDecision, h]

theorem age_concat (rules : List NetworkRule) (r : NetworkRule) (host : Text) :
    age (rules ++ [r]) host = if r.decides host then 0 else age rules host + 1 := by
  by_cases h : r.decides host <;> simp [age, findIdx_cons, h]

/-- The list holds the hosts of one decision, oldest rule first. -/
structure Compiles (rules : List NetworkRule) (d : Decision) (domains : List Text) : Prop where
  mem_iff : ∀ host, host ∈ domains ↔ lastDecision rules host = some d
  ordered : domains.Pairwise fun first second => age rules second < age rules first

namespace Compiles

theorem nodup (h : Compiles rules d ds) : ds.Nodup :=
  h.ordered.imp fun {first s} hlt heq => by
    rw [heq] at hlt
    exact absurd hlt (lt_irrefl _)

theorem skip (h : Compiles rules d ds) (hp : r.decision = .prompt) :
    Compiles (rules ++ [r]) d ds := by
  have hno : ∀ host, r.decides host = false := by simp [NetworkRule.decides, hp]
  refine ⟨fun host => ?_, h.ordered.imp fun {first s} hlt => ?_⟩
  · rw [lastDecision_concat, hno, h.mem_iff]
    simp
  · simp only [age_concat, hno]
    simpa using hlt

/-- What is left without the host that the rule decides. -/
theorem filter (h : Compiles rules d ds) (r : NetworkRule) :
    (∀ host, host ∈ ds.filter (· != r.host) ↔
      host ≠ r.host ∧ lastDecision (rules ++ [r]) host = some d) ∧
    (ds.filter (· != r.host)).Pairwise fun first s =>
      age (rules ++ [r]) s < age (rules ++ [r]) first := by
  have hno : ∀ {host}, host ≠ r.host → r.decides host = false := by
    intro host hne
    simp [NetworkRule.decides, Ne.symm hne]
  constructor
  · intro host
    rw [mem_filter, h.mem_iff, lastDecision_concat, bne_iff_ne, and_comm]
    refine and_congr_right fun hne => ?_
    rw [hno hne]
    simp
  · refine (h.ordered.filter _).imp_of_mem fun {first s} hfirst hsecond hlt => ?_
    rw [mem_filter, bne_iff_ne] at hfirst hsecond
    simpa [age_concat, hno hfirst.2, hno hsecond.2] using hlt

theorem retain (h : Compiles rules d ds) (hp : r.decision ≠ .prompt)
    (hd : r.decision ≠ d) : Compiles (rules ++ [r]) d (ds.filter (· != r.host)) := by
  obtain ⟨hmem, hord⟩ := h.filter r
  refine ⟨fun host => (hmem host).trans (and_iff_right_of_imp ?_), hord⟩
  rintro hl rfl
  simp [lastDecision_concat, NetworkRule.decides, hp, hd] at hl

theorem upsert (h : Compiles rules d ds) (hp : r.decision ≠ .prompt)
    (hd : r.decision = d) : Compiles (rules ++ [r]) d (upsertDomain ds r.host) := by
  subst hd
  obtain ⟨hmem, hord⟩ := h.filter r
  refine ⟨fun host => ?_, pairwise_append.mpr ⟨hord, pairwise_singleton _ _, ?_⟩⟩
  · rw [upsertDomain, mem_append, hmem, mem_singleton]
    by_cases heq : host = r.host
    · simp [heq, lastDecision_concat, NetworkRule.decides, hp]
    · simp [heq]
  · intro first hfirst s hsecond
    rw [mem_singleton.mp hsecond]
    have hne := ((hmem first).mp hfirst).1
    simp [age_concat, NetworkRule.decides, hp, Ne.symm hne]

end Compiles

theorem compiles (rules : List NetworkRule) :
    Compiles rules .allow (rules.foldl compileNetworkRule ([], [])).1 ∧
      Compiles rules .forbidden (rules.foldl compileNetworkRule ([], [])).2 := by
  induction rules using reverseRecOn with
  | nil => exact ⟨⟨by simp [lastDecision], .nil⟩, by simp [lastDecision], .nil⟩
  | append_singleton rules r ih =>
    obtain ⟨hallow, hdn⟩ := ih
    rw [foldl_append, foldl_cons, foldl_nil, compileNetworkRule]
    cases hd : r.decision with
    | allow => exact ⟨hallow.upsert (by simp [hd]) hd, hdn.retain (by simp [hd]) (by simp [hd])⟩
    | forbidden =>
      exact ⟨hallow.retain (by simp [hd]) (by simp [hd]), hdn.upsert (by simp [hd]) hd⟩
    | prompt => exact ⟨hallow.skip hd, hdn.skip hd⟩

/-- **A host is in the list of the newest rule that decides it, and stands where that rule
does; in a merged policy the overlay decides first.** -/
theorem compiledNetworkDomains_spec (p : Policy) :
    Compiles p.networkRules .allow p.compiledNetworkDomains.1 ∧
    Compiles p.networkRules .forbidden p.compiledNetworkDomains.2 ∧
    p.compiledNetworkDomains.1.Nodup ∧ p.compiledNetworkDomains.2.Nodup ∧
    p.compiledNetworkDomains.1.Disjoint p.compiledNetworkDomains.2 ∧
    ∀ (overlay : Policy) (host : Text),
      let decider := if (lastDecision overlay.networkRules host).isSome then overlay else p
      (host ∈ (p.mergeOverlay overlay).compiledNetworkDomains.1 ↔
        host ∈ decider.compiledNetworkDomains.1) ∧
      (host ∈ (p.mergeOverlay overlay).compiledNetworkDomains.2 ↔
        host ∈ decider.compiledNetworkDomains.2) := by
  obtain ⟨hallow, hdn⟩ := compiles p.networkRules
  refine ⟨hallow, hdn, hallow.nodup, hdn.nodup, fun host hmem hmem' => ?_, fun overlay host => ?_⟩
  · have hboth := ((hallow.mem_iff host).mp hmem).symm.trans ((hdn.mem_iff host).mp hmem')
    cases hboth
  · have happ : lastDecision (p.networkRules ++ overlay.networkRules) host =
        (lastDecision overlay.networkRules host).or (lastDecision p.networkRules host) := by
      simp [lastDecision, find?_append, Option.map_or]
    simp only [compiledNetworkDomains, (compiles _).1.mem_iff, (compiles _).2.mem_iff,
      mergeOverlay, happ]
    cases hl : lastDecision overlay.networkRules host <;> simp [hl]

end SushiGpt.ExecPolicy
