/-
Normalising the host of a network rule twice.

A host is normalised when a rule is made, written to the rules file as it came out, and normalised
again when the file is read.  Brackets, a port and trailing dots are each taken off once, so what
comes out may still begin with a bracket, name a port or end in a dot.  These are the only hosts
that the second reading changes or refuses.
-/
import SushiGpt.ExecPolicy.Policy
import Mathlib

namespace SushiGpt.ExecPolicy

open Text List

variable {raw host out : Text}

/-! ### What is taken off -/

theorem hostWithoutPort_sublist (h : hostWithoutPort raw host = .ok out) :
    out <+ host ∧ (out = host ↔ host.head? ≠ some '[' ∧ namesPort host = false) := by
  unfold hostWithoutPort at h
  split at h
  · next s =>
    split at h
    · cases h
    · split_ifs at h
      cases h
      have hshort := (takeWhile_sublist (p := (· != ']')) (l := s)).length_le
      refine ⟨(takeWhile_sublist _).cons _, iff_of_false (fun heq => ?_) (by simp)⟩
      have := congrArg length heq
      rw [length_cons] at this
      omega
  · next hbrac =>
    have hhead : host.head? ≠ some '[' := by
      intro hhead
      obtain ⟨r, rfl⟩ := head?_eq_some_iff.mp hhead
      exact hbrac r rfl
    cases h
    split_ifs with hport
    · refine ⟨takeWhile_sublist _, iff_of_false (fun heq => ?_) (by simp [hport])⟩
      have hcol : ':' ∈ host := by
        refine count_pos_iff.mp ?_
        simp only [namesPort, Bool.and_eq_true, beq_iff_eq] at hport
        omega
      exact absurd (takeWhile_eq_self_iff.mp heq _ hcol) (by decide)
    · exact ⟨.refl _, iff_of_true rfl ⟨hhead, Bool.eq_false_iff.mpr hport⟩⟩

theorem trim_sublist (t : Text) : trim t <+ t :=
  (List.rdropWhile_prefix _ _).sublist.trans (dropWhile_sublist _)

theorem trim_eq_self {t : Text} (h : t.any isWhitespace = false) : trim t = t := by
  rw [any_eq_false] at h
  have hst : trimStart t = t := dropWhile_eq_self_iff.mpr fun _ => h _ (getElem_mem _)
  rw [trim, hst]
  exact rdropWhile_eq_self_iff.mpr fun hne => h _ (getLast_mem hne)

theorem trimEndMatches_eq_self_iff {c : Char} {t : Text} :
    trimEndMatches c t = t ↔ t.getLast? ≠ some c := by
  refine rdropWhile_eq_self_iff.trans ?_
  by_cases hne : t = []
  · simp [hne]
  · simp [hne, getLast?_eq_some_getLast hne]

/-! ### What a normalised host is -/

theorem normalize_eq_ok_iff : normalizeNetworkRuleHost raw = .ok host ↔
    trim raw ≠ [] ∧ (∀ c ∈ trim raw, c ∉ ['/', '?', '#']) ∧
      ∃ out, hostWithoutPort raw (trim raw) = .ok out ∧
        toAsciiLowercase (trim (trimEndMatches '.' out)) = host ∧
        host ≠ [] ∧ '*' ∉ host ∧ host.any isWhitespace = false := by
  unfold normalizeNetworkRuleHost
  dsimp only
  split_ifs with hem hp
  · grind
  · grind
  · cases hout : hostWithoutPort raw (trim raw) with
    | error e => exact ⟨nofun, fun ⟨_, _, _, h, _⟩ => nomatch h⟩
    | ok out =>
      show (if _ then _ else _) = _ ↔ _
      split_ifs <;> grind

/-- The host comes out in lower case and has nothing in it that would be refused. -/
theorem normalized_chars (h : normalizeNetworkRuleHost raw = .ok host) :
    toAsciiLowercase host = host ∧ ∀ c ∈ host, c ∉ ['/', '?', '#'] := by
  obtain ⟨-, hp, out, hout, rfl, -⟩ := normalize_eq_ok_iff.mp h
  refine ⟨by simp [toAsciiLowercase], fun c hc href => ?_⟩
  obtain ⟨d, hd, rfl⟩ := mem_map.mp hc
  have hout' := ((trim_sublist _).trans (List.rdropWhile_prefix _ _).sublist).subset hd
  refine hp d ((hostWithoutPort_sublist hout).1.subset hout') ?_
  by_cases hupp : d.isUpper
  · have hlow : d.toLower.isAlpha = true := by simp [Char.isAlpha, hupp]
    simp only [mem_cons, not_mem_nil, or_false] at href
    rcases href with heq | heq | heq <;> rw [heq] at hlow <;> cases hlow
  · rwa [Char.toLower_eq_of_not_isUpper hupp] at href

/--
**When a normalised host is normal.**  A host that a rule was made with is read back unchanged
exactly when it neither begins with a bracket nor ends in a dot nor names a port.
-/
theorem normalizeNetworkRuleHost_again_iff (h : normalizeNetworkRuleHost raw = .ok host) :
    normalizeNetworkRuleHost host = .ok host ↔
      host.head? ≠ some '[' ∧ namesPort host = false ∧ host.getLast? ≠ some '.' := by
  obtain ⟨hlow, hp⟩ := normalized_chars h
  obtain ⟨-, -, -, -, -, hne, hwild, hspace⟩ := normalize_eq_ok_iff.mp h
  have htrim := trim_eq_self hspace
  rw [normalize_eq_ok_iff, htrim]
  constructor
  · rintro ⟨-, -, out, hout, heq, -⟩
    -- Nothing can have been taken off, for the host has its length.
    have hfront : trimEndMatches '.' out <+: out := rdropWhile_prefix _ _
    have hlen : host.length ≤ (trimEndMatches '.' out).length := by
      simpa [← heq, toAsciiLowercase] using (trim_sublist _).length_le
    obtain ⟨hsub, hplain⟩ := hostWithoutPort_sublist hout
    obtain rfl := hsub.eq_of_length_le (hlen.trans hfront.length_le)
    obtain ⟨hhead, hport⟩ := hplain.mp rfl
    exact ⟨hhead, hport, trimEndMatches_eq_self_iff.mp (hfront.eq_of_length_le hlen)⟩
  · rintro ⟨hhead, hport, hl⟩
    refine ⟨hne, hp, host, ?_, ?_, hne, hwild, hspace⟩
    · unfold hostWithoutPort
      split
      · simp at hhead
      · rw [hport]
        rfl
    · rw [trimEndMatches_eq_self_iff.mpr hl, htrim, hlow]

theorem plain_host_read_back :
    normalizeNetworkRuleHost "Example.com:443".toList = .ok "example.com".toList ∧
      normalizeNetworkRuleHost "example.com".toList = .ok "example.com".toList := by
  have h : normalizeNetworkRuleHost "Example.com:443".toList = .ok "example.com".toList := by decide
  exact ⟨h, (normalizeNetworkRuleHost_again_iff h).mpr (by decide)⟩

/-- A port inside the brackets is left by the first reading and taken off by the second. -/
theorem bracketed_port_lost :
    normalizeNetworkRuleHost "[a:80]".toList = .ok "a:80".toList ∧
      normalizeNetworkRuleHost "a:80".toList = .ok "a".toList := by
  decide

end SushiGpt.ExecPolicy
