/-
Merging requirements into a local policy.

Managed requirements are merged over the user's own policy, and the result is meant to
be the most restrictive of the two.  The rules of both are kept, so a requirement that
forbids a command through a rule for its first word still does after the merge.  A
requirement that forbids it through the name of the program behind a path does so only
as long as nothing local steps in before the name is looked up: a local rule for the
path itself ends the search, and a local host list that leaves the path out keeps the
name from being looked up at all.
-/
import SushiGpt.ExecPolicy.Policy

namespace SushiGpt.ExecPolicy

open Evaluation Option

/-! ### The strictest decision -/

def Forbids (matched : List RuleMatch) : Prop :=
  ∃ m ∈ matched, m.decision = .forbidden

theorem forbids_append {first s : List RuleMatch} :
    Forbids (first ++ s) ↔ Forbids first ∨ Forbids s := by
  constructor
  · rintro ⟨m, hm, hd⟩
    rcases List.mem_append.1 hm with h | h
    · exact .inl ⟨m, h, hd⟩
    · exact .inr ⟨m, h, hd⟩
  · rintro (⟨m, hm, hd⟩ | ⟨m, hm, hd⟩)
    · exact ⟨m, List.mem_append_left _ hm, hd⟩
    · exact ⟨m, List.mem_append_right _ hm, hd⟩

theorem not_forbids_nil : ¬ Forbids [] := by
  rintro ⟨m, hm, -⟩
  cases hm

theorem Forbids.ne_nil {m : List RuleMatch} (h : Forbids m) : m ≠ [] := by
  rintro rfl
  exact not_forbids_nil h

/-- The evaluation forbids exactly when one of its matches does. -/
theorem fromMatches_forbidden (matched : List RuleMatch) :
    (fromMatches matched).map decision = some .forbidden ↔ Forbids matched := by
  unfold fromMatches
  rw [map_map]
  have hid : decision ∘ (fun decision => mk decision matched) = id := rfl
  rw [hid, map_id, id, List.max?_eq_some_iff]
  constructor
  · rintro ⟨hmem, -⟩
    obtain ⟨m, hm, hd⟩ := List.mem_map.1 hmem
    exact ⟨m, hm, hd⟩
  · rintro ⟨m, hm, hd⟩
    exact ⟨List.mem_map.2 ⟨m, hm, hd⟩, fun d _ => by cases d <;> decide⟩

/-! ### What the merged policy matches -/

namespace Policy

variable (env : PathEnv) (p r : Policy)

theorem mergeOverlay_rulesOf (pro : Text) :
    (p.mergeOverlay r).rulesOf pro = p.rulesOf pro ++ r.rulesOf pro := by
  simp [rulesOf, mergeOverlay]

theorem mergeOverlay_matchExactRules (cmd : List Text) :
    (p.mergeOverlay r).matchExactRules cmd = p.matchExactRules cmd ++ r.matchExactRules cmd := by
  cases cmd with
  | nil => rfl
  | cons first a =>
    simp only [matchExactRules]
    rw [mergeOverlay_rulesOf, List.filterMap_append]

/-- The overlay's host list decides where it has one. -/
theorem mergeOverlay_hostAllows (b : Text) (pro : AbsolutePath) :
    (p.mergeOverlay r).hostAllows b pro =
      if (r.hostExecutablesByName b).isSome then r.hostAllows b pro
      else p.hostAllows b pro := by
  unfold hostAllows mergeOverlay
  cases h : r.hostExecutablesByName b with
  | none | some ps => simp [h]

/-- The local host list leaves out the program whose name a requirement is about, and
the requirements have no list of their own. -/
def HostListShadows (cmd : List Text) : Prop :=
  ∃ program basename, hostProgram env cmd = some (program, basename) ∧
    r.hostExecutablesByName basename = none ∧ p.hostAllows basename program = false

/-- A requirement that matches by name still does after the merge, unless a local host
list leaves the program out. -/
theorem mergeOverlay_host_forbids {cmd : List Text}
    (h : Forbids (r.matchHostExecutableRules env cmd)) :
    (¬ HostListShadows env p r cmd →
        Forbids ((p.mergeOverlay r).matchHostExecutableRules env cmd)) ∧
      (HostListShadows env p r cmd → (p.mergeOverlay r).matchHostExecutableRules env cmd = []) := by
  unfold matchHostExecutableRules at h ⊢
  rcases hprog : hostProgram env cmd with _ | ⟨pro, b⟩
  · rw [hprog] at h
    exact absurd h not_forbids_nil
  · simp only [hprog] at h ⊢
    have hlst : r.hostAllows b pro = true := by
      by_contra hno
      rw [if_neg hno] at h
      exact not_forbids_nil h
    rw [if_pos hlst] at h
    rw [mergeOverlay_hostAllows, mergeOverlay_rulesOf, List.filterMap_append, List.map_append]
    constructor
    · intro hshad
      have hall : (if (r.hostExecutablesByName b).isSome
          then r.hostAllows b pro else p.hostAllows b pro) = true := by
        split
        · exact hlst
        · rename_i hn
          by_contra hno
          exact hshad ⟨pro, b, hprog, by simpa using hn, by simpa using hno⟩
      rw [if_pos hall]
      exact forbids_append.2 (.inr h)
    · rintro ⟨pro', b', hprog', hn, hno⟩
      rw [hprog] at hprog'
      obtain ⟨rfl, rfl⟩ := Prod.mk.inj (some.inj hprog')
      simp [hn, hno]

/-! ### When a requirement survives the merge -/

/-- With the fallback there is always a match, and it forbids when a rule does or when
no rule matches and the fallback does. -/
theorem matches_forbid_iff (cmd : List Text) (f : List Text → Decision) (os : MatchOptions) :
    Forbids (p.matchesForCommandWithOptions env cmd (some f) os) ↔
      Forbids (p.matchedRules env cmd os) ∨
        (p.matchedRules env cmd os = [] ∧ f cmd = .forbidden) := by
  unfold matchesForCommandWithOptions
  cases hmat : p.matchedRules env cmd os with
  | nil =>
    constructor
    · rintro ⟨m, hm, hd⟩
      obtain rfl := List.mem_singleton.1 hm
      exact .inr ⟨rfl, hd⟩
    · rintro (h | ⟨-, hd⟩)
      · exact absurd h not_forbids_nil
      · exact ⟨_, List.mem_singleton_self _, hd⟩
  | cons m rest => simp

/-- A prefix rule of the requirements forbids the command. -/
def RequirementForbids (cmd : List Text) (fallback : List Text → Decision) : Prop :=
  ∃ matched program justification,
    RuleMatch.prefixRuleMatch matched .forbidden program justification ∈
      r.matchesForCommandWithOptions env cmd (some fallback) ⟨true⟩

theorem RequirementForbids.matched {cmd : List Text} {f : List Text → Decision}
    (h : RequirementForbids env r cmd f) :
    Forbids (r.matchExactRules cmd) ∨
      (r.matchExactRules cmd = [] ∧ Forbids (r.matchHostExecutableRules env cmd)) := by
  obtain ⟨mat, pro, j, hmem⟩ := h
  have hrul : Forbids (r.matchedRules env cmd ⟨true⟩) := by
    unfold matchesForCommandWithOptions at hmem
    cases hmat : r.matchedRules env cmd ⟨true⟩ with
    | nil => simp [hmat] at hmem
    | cons m rest =>
      rw [hmat] at hmem
      exact ⟨_, hmem, rfl⟩
  unfold matchedRules at hrul
  by_cases hex : (r.matchExactRules cmd).isEmpty
  · simp only [hex, if_true] at hrul
    exact .inr ⟨List.isEmpty_iff.1 hex, hrul⟩
  · simp only [hex] at hrul
    exact .inl hrul

/-- Nothing local steps in before the requirement is reached, or what steps in forbids
the command itself. -/
def RequirementReached (cmd : List Text) (fallback : List Text → Decision) : Prop :=
  Forbids (r.matchExactRules cmd) ∨ Forbids (p.matchExactRules cmd) ∨
    (p.matchExactRules cmd = [] ∧ (¬ HostListShadows env p r cmd ∨ fallback cmd = .forbidden))

/--
**When a requirement survives the merge.**  Where the requirements alone forbid a command
by a prefix rule, the merged policy forbids it exactly when the rule is one for the
command's first word, or a local rule for that word forbids it too, or no local rule for
that word matches and the program's name is looked up (or the fallback forbids).
-/
theorem merged_policy_forbids_iff (cmd : List Text) (fallback : List Text → Decision)
    (h : RequirementForbids env r cmd fallback) :
    ((p.mergeOverlay r).checkWithOptions env cmd fallback ⟨true⟩).map decision = some .forbidden ↔
      RequirementReached env p r cmd fallback := by
  unfold checkWithOptions
  rw [fromMatches_forbidden, matches_forbid_iff]
  have hex := mergeOverlay_matchExactRules p r cmd
  unfold matchedRules RequirementReached
  rcases h.matched with hr | ⟨hn, hhost⟩
  · -- The requirement's own rule for the first word is among the exact matches.
    have hmer : Forbids ((p.mergeOverlay r).matchExactRules cmd) := by
      rw [hex]
      exact forbids_append.2 (.inr hr)
    have hne : ¬ ((p.mergeOverlay r).matchExactRules cmd).isEmpty := by
      rw [List.isEmpty_iff]
      exact hmer.ne_nil
    simp only [hne]
    exact ⟨fun _ => .inl hr, fun _ => .inl hmer⟩
  · rw [hn, List.append_nil] at hex
    rw [hex, hn]
    by_cases hloc : p.matchExactRules cmd = []
    · obtain ⟨hreac, hshad⟩ := mergeOverlay_host_forbids env p r hhost
      simp only [hloc, List.isEmpty_nil, if_true, not_forbids_nil, false_or, true_and]
      by_cases hshadow : HostListShadows env p r cmd
      · rw [hshad hshadow]
        simp [not_forbids_nil, hshadow]
      · simp [hreac hshadow, hshadow]
    · have hne : ¬ (p.matchExactRules cmd).isEmpty := fun he => hloc (List.isEmpty_iff.1 he)
      simp [hne, hloc, not_forbids_nil]

/-! ### A requirement on `git`

The requirements forbid `git push`, whichever `git` is meant.  The user runs
`/usr/bin/git push`. -/

def gitPush : List Text := ["/usr/bin/git".toList, "push".toList]

def noEnv : PathEnv := ⟨none, none⟩

def usrBinGit : AbsolutePath :=
  [⟨"usr".toList, by decide⟩, ⟨"bin".toList, by decide⟩, ⟨"git".toList, by decide⟩]

def forbidGitPush : Policy :=
  ⟨[("git".toList, ⟨⟨"git".toList, [.single "push".toList]⟩, .forbidden, none⟩)], [], fun _ => none⟩

/-- `/usr/bin/git` is allowed, whatever follows. -/
def allowUsrBinGit : Policy :=
  ⟨[("/usr/bin/git".toList, ⟨⟨"/usr/bin/git".toList, []⟩, .allow, none⟩)], [], fun _ => none⟩

def allowLs : Policy := ⟨[("ls".toList, ⟨⟨"ls".toList, []⟩, .allow, none⟩)], [], fun _ => none⟩

theorem requirement_survives_unrelated_rule :
    RequirementForbids noEnv forbidGitPush gitPush (fun _ => .allow) ∧
      ((allowLs.mergeOverlay forbidGitPush).checkWithOptions noEnv gitPush (fun _ => .allow)
        ⟨true⟩).map decision = some .forbidden := by
  have hreq : RequirementForbids noEnv forbidGitPush gitPush fun _ => .allow :=
    ⟨["git".toList, "push".toList], some usrBinGit, none, by decide⟩
  refine ⟨hreq, (merged_policy_forbids_iff noEnv allowLs forbidGitPush gitPush _ hreq).2 ?_⟩
  refine .inr (.inr ⟨by decide, .inl ?_⟩)
  rintro ⟨pro, b, -, -, hno⟩
  cases hno

/-- A local rule for the path of the program lifts the requirement on its name. -/
theorem requirement_lifted_by_local_path_rule :
    RequirementForbids noEnv forbidGitPush gitPush (fun _ => .allow) ∧
      ((allowUsrBinGit.mergeOverlay forbidGitPush).checkWithOptions noEnv gitPush
        (fun _ => .allow) ⟨true⟩).map decision = some .allow :=
  ⟨⟨["git".toList, "push".toList], some usrBinGit, none, by decide⟩, by decide⟩

end Policy

end SushiGpt.ExecPolicy
