/-
The metadata rule, in places.

A write root protects the directories `.git`, `.agents` and `.codex` in it.  A protected
directory is closed at a place below it unless a write root lies on the way from the one
to the other.  Where the access is write, only one root can have a closed directory: the
one whose grant decides (`decides_of_closed`), because any deeper write root on the way
would open it.  The source however asks the first root that protects the place, whichever
that is, and this is what order and nesting of write roots turn on.
-/
import SushiGpt.Lib.Lists
import SushiGpt.Proofs.Permissions.Resolve

namespace SushiGpt.Permissions

open MostSpecific List

/-! ### Protected directories -/

theorem protectedDir_eq_some {r p dir : List Text} :
    protectedDir r p = some dir ↔
      ∃ name ∈ protectedMetadataPathNames, dir = r ++ [name] ∧ dir <+: p := by
  unfold protectedDir
  rw [Option.map_eq_some_iff]
  constructor
  · rintro ⟨name, hfind, rfl⟩
    have hle := find?_some hfind
    exact ⟨name, mem_of_find?_eq_some hfind, rfl, of_decide_eq_true hle⟩
  · rintro ⟨name, hnm, rfl, hle⟩
    cases hfind : protectedMetadataPathNames.find? fun n => decide (r ++ [n] <+: p) with
    | none =>
      rw [find?_eq_none] at hfind
      exact absurd (decide_eq_true hle) (hfind name hnm)
    | some o =>
      -- Two names below the root on the way to one place are the same.
      have ho := find?_some hfind
      have heq := eq_of_covers (of_decide_eq_true ho) hle (by simp)
      exact ⟨o, rfl, heq⟩

theorem protectedDir_eq_none {r p : List Text} :
    protectedDir r p = none ↔ ∀ name ∈ protectedMetadataPathNames, ¬ r ++ [name] <+: p := by
  constructor
  · intro h name hnm hle
    rw [protectedDir_eq_some.2 ⟨name, hnm, rfl, hle⟩] at h
    cases h
  · intro h
    rw [Option.eq_none_iff_forall_not_mem]
    intro dir hdir
    obtain ⟨name, hnm, rfl, hle⟩ := protectedDir_eq_some.1 hdir
    exact h name hnm hle

/-- The first directory found at a place is also found first at the places between. -/
theorem findSome?_protectedDir_above {p p' dir : List Text} (hle : p' <+: p)
    (hdir : dir <+: p') : ∀ {roots : List (List Text)},
    roots.findSome? (protectedDir · p) = some dir →
      roots.findSome? (protectedDir · p') = some dir := by
  intro roots
  induction roots with
  | nil => intro h; cases h
  | cons r rest ih =>
    intro h
    rw [findSome?_cons] at h ⊢
    cases hr : protectedDir r p with
    | some d =>
      rw [hr] at h
      obtain rfl := Option.some.inj h
      obtain ⟨name, hnm, rfl, -⟩ := protectedDir_eq_some.1 hr
      rw [protectedDir_eq_some.2 ⟨name, hnm, rfl, hdir⟩]
    | none =>
      rw [hr] at h
      have hr' : protectedDir r p' = none := by
        rw [protectedDir_eq_none] at hr ⊢
        intro name hnm hle'
        exact hr name hnm (hle'.trans hle)
      rw [hr']
      exact ih h

/-! ### Closed directories -/

theorem mem_writeRoots_iff {grants : List Grant} {r : List Text} :
    r ∈ writeRoots grants ↔ (r, .write) ∈ grants := by
  unfold writeRoots
  rw [mem_map]
  constructor
  · rintro ⟨g, hg, rfl⟩
    obtain ⟨hmem, hw⟩ := mem_filter.1 hg
    rw [← FileSystemAccessMode.canWrite_iff.1 hw]
    exact hmem
  · intro h
    exact ⟨(r, .write), mem_filter.2 ⟨h, rfl⟩, rfl⟩

section Closed

variable {grants : List Grant} {r p : List Text} {name : Text}

/-- **Where the access is write, a closed directory belongs to the root that decides.** -/
theorem decides_of_closed (hw : accessAt (some grants) p = .write) (hr : r ∈ writeRoots grants)
    (hbel : r ++ [name] <+: p) (hcl : ¬ Opened (writeRoots grants) (r ++ [name]) p) :
    Decides grants p (r, .write) := by
  obtain ⟨g, hg, hg2⟩ := decides_of_accessAt hw (by decide)
  have hle : r <+: p := (prefix_append r [name]).trans hbel
  have hrootg : r <+: g.1 := hg.covers_le (mem_writeRoots_iff.1 hr) hle
  have hgroot : g.1 ∈ writeRoots grants := by
    rw [mem_writeRoots_iff, ← hg2]
    exact hg.mem
  -- The deciding grant does not reach into the directory, so it is no deeper than the root.
  have hnot : ¬ r ++ [name] <+: g.1 := fun hdir => hcl ⟨g.1, hgroot, hdir, hg.covers⟩
  have heq : g.1 = r := by
    rcases prefix_or_prefix_of_prefix hg.covers hbel with h | h
    · rcases prefix_concat_iff.1 h with h | h
      · exact absurd (h ▸ prefix_rfl) hnot
      · exact h.eq_of_length_le hrootg.length_le
    · exact absurd h hnot
  rw [← heq, ← hg2]
  exact hg

/-- Where a write root decides below one of its names, nothing is configured at that name
and nothing is denied at the root. -/
theorem unconfigured_of_decides (h : Decides grants p (r, .write)) (hbel : r ++ [name] <+: p) :
    (∀ g ∈ grants, g.1 ≠ r ++ [name]) ∧ ∀ g ∈ grants, g.1 = r → g.2 ≠ .deny := by
  constructor
  · intro g hg heq
    have hlen : g.1.length ≤ r.length := (h.covers_le hg (heq ▸ hbel)).length_le
    rw [heq, length_append, length_singleton] at hlen
    omega
  · intro g hg heq hdn
    refine h.top g hg (heq ▸ h.covers) (.inr ⟨by rw [heq], ?_⟩)
    rw [hdn]
    show FileSystemAccessMode.write < .deny
    decide

/-- A write root decides at its names for which nothing else is configured. -/
theorem decides_of_unconfigured (hr : r ∈ writeRoots grants)
    (hnot : ∀ g ∈ grants, g.1 ≠ r ++ [name]) (hdn : ∀ g ∈ grants, g.1 = r → g.2 ≠ .deny) :
    Decides grants (r ++ [name]) (r, .write) := by
  refine ⟨mem_writeRoots_iff.1 hr, prefix_append _ _, fun g hg hcov hout => ?_⟩
  rcases prefix_concat_iff.1 hcov with heq | hle
  · exact hnot g hg heq
  · rcases hout with hlt | ⟨hlen, hlt⟩
    · exact absurd hle.length_le (by simpa using hlt)
    · have hne := hdn g hg (hle.eq_of_length hlen.symm)
      revert hlt hne
      dsimp only
      cases g.2 <;> decide

theorem not_opened_of_unconfigured (hnot : ∀ g ∈ grants, g.1 ≠ r ++ [name]) :
    ¬ Opened (writeRoots grants) (r ++ [name]) (r ++ [name]) := by
  rintro ⟨o, hop, hdir, hle⟩
  exact hnot _ (mem_writeRoots_iff.1 hop) (hle.eq_of_length_le hdir.length_le)

end Closed

end SushiGpt.Permissions
