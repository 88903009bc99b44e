/-
Intersecting grants.

What a request asks for and what the user grants are two lists of grants.  The
intersection takes from the granted ones those the request covers at their own place
(`Accepted`), and from both sides the denials that lie above or below an accepted one.

It never exceeds what was granted (`IntersectionOf.le_granted`).  It can exceed what was
requested, and `Overgrants` says when: a requested read-only place below a granted write,
with nothing on either side that keeps the write from reaching it.
-/
import SushiGpt.Proofs.Permissions.Materialize
import SushiGpt.Sandboxing.PolicyTransforms

namespace SushiGpt.Sandboxing

open Permissions MostSpecific List

/-- The request covers the grant at the grant's own place. -/
structure Accepted (requested : List Grant) (g : Grant) : Prop where
  grants : g.2 ≠ .deny
  notDenied : ∀ d ∈ requested, d.2 = .deny → d.1 <+: g.1 → d.1 = []
  covered : accessCovers (accessAt (some requested) g.1) g.2 = true

/-- One lies above the other. -/
def Touches (d g : Grant) : Prop := d.1 <+: g.1 ∨ g.1 <+: d.1

/-- The members of an intersection. -/
def IntersectionOf (requested granted result : List Grant) : Prop :=
  ∀ x, x ∈ result ↔ (x ∈ granted ∧ Accepted requested x) ∨
    (x.2 = .deny ∧ (x ∈ requested ∨ x ∈ granted) ∧
      ∃ g ∈ granted, Accepted requested g ∧ Touches x g)

/-- A place `q` that was requested read-only, below a place `g` that was granted for
writing and requested so too.  No denial and no granted read lies on the way. -/
structure Overgrants (requested granted : List Grant) (q g : Grant) : Prop where
  requestedRead : q ∈ requested ∧ q.2 = .read
  readDecides : ∀ q' ∈ requested, q'.1 = q.1 → q'.2 = .read
  grantedWrite : g ∈ granted ∧ g.2 = .write
  below : g.1 <+: q.1 ∧ g.1 ≠ q.1
  requestedWrite : accessAt (some requested) g.1 = .write
  noRequestedDenial : ∀ d ∈ requested, d.2 = .deny → d.1 <+: q.1 → d.1 = []
  nothingGranted : ∀ d ∈ granted, g.1 <+: d.1 → d.1 <+: q.1 →
    d.2 = .write ∨ (d.2 = .read ∧ d.1 = g.1)

/-! ### Access modes -/

theorem accessCovers_iff {req gra : FileSystemAccessMode} :
    accessCovers req gra = true ↔ gra ≠ .deny ∧ gra.capability ≤ req.capability := by
  cases req <;> cases gra <;> decide

theorem capability_pos {a : FileSystemAccessMode} : 0 < a.capability ↔ a ≠ .deny := by
  cases a <;> decide

section Bounds

variable {req gra result : List Grant}

/-- The request grants an accepted place at least as much. -/
theorem Accepted.exists_decides {g : Grant} (h : Accepted req g) :
    ∃ w, Decides req g.1 w ∧ g.2.capability ≤ w.2.capability ∧ w.2 ≠ .deny := by
  obtain ⟨hne, hle⟩ := accessCovers_iff.1 h.covered
  have hpos := capability_pos.2 hne
  have hw : accessAt (some req) g.1 ≠ .deny := capability_pos.1 (by omega)
  obtain ⟨w, hdec, hwa⟩ := decides_of_accessAt rfl hw
  exact ⟨w, hdec, hwa ▸ hle, hwa ▸ hw⟩

/-- A requested denial that decides below an accepted place lies strictly below it. -/
theorem Accepted.below_of_denial {g d : Grant} {p : List Text} (h : Accepted req g)
    (hle : g.1 <+: p) (hd : Decides req p d) (hdn : d.2 = .deny) : ¬ d.1 <+: g.1 := by
  intro hup
  obtain ⟨w, hw, -, hwne⟩ := h.exists_decides
  have heq := eq_of_not_outranks (hw.top d hd.mem hup) (hd.top w hw.mem (hw.covers.trans hle))
  exact hwne (heq.2.symm.trans hdn)

/-- A read below an accepted grant is accepted, if no denial lies on the way. -/
theorem Accepted.read_below {g d : Grant} (h : Accepted req g) (hle : g.1 <+: d.1)
    (hread : d.2 = .read) (hnone : ∀ e ∈ req, e.2 = .deny → e.1 <+: d.1 → e.1 = []) :
    Accepted req d := by
  obtain ⟨w, hw, -, -⟩ := h.exists_decides
  obtain ⟨e, he⟩ := MostSpecific.exists_decides req ⟨w, hw.mem, hw.covers.trans hle⟩
  have hne : e.2 ≠ .deny := fun hdn =>
    h.below_of_denial hle he hdn (hnone e he.mem hdn he.covers ▸ nil_prefix)
  refine ⟨by rw [hread]; decide, hnone, ?_⟩
  rw [accessAt_of_decides he, hread]
  revert hne
  cases e.2 <;> decide

section

variable (h : IntersectionOf req gra result)
include h

/-- What an intersection decides with, when it grants something. -/
theorem IntersectionOf.accepted_of_decides {p : List Text} {r : Grant}
    (hr : Decides result p r) (hne : r.2 ≠ .deny) : r ∈ gra ∧ Accepted req r := by
  rcases (h r).1 hr.mem with hacc | ⟨hdn, -⟩
  · exact hacc
  · exact absurd hdn hne

/-- A denial that touches the deciding grant lies strictly above it. -/
theorem IntersectionOf.denial_above {p : List Text} {r d : Grant} (hr : Decides result p r)
    (hne : r.2 ≠ .deny) (hd : d ∈ req ∨ d ∈ gra) (hdn : d.2 = .deny)
    (hcov : d.1 <+: p) : d.1.length < r.1.length := by
  obtain ⟨hmem, hacc⟩ := h.accepted_of_decides hr hne
  have hin : d ∈ result := (h d).2
    (.inr ⟨hdn, hd, r, hmem, hacc, prefix_or_prefix_of_prefix hcov hr.covers⟩)
  have hout := hr.top d hin hcov
  by_contra hlen
  rcases Nat.lt_or_ge r.1.length d.1.length with hlt | hge
  · exact hout (.inl hlt)
  · exact hout (.inr ⟨by omega, hdn ▸ lt_of_le_of_ne (by cases r.2 <;> decide) hne⟩)

/-- Below what decides no requested denial lies on the way. -/
theorem IntersectionOf.no_denial_below {p q : List Text} {r : Grant} (hr : Decides result p r)
    (hne : r.2 ≠ .deny) (hle : r.1 <+: q) (hq : q <+: p) :
    ∀ d ∈ req, d.2 = .deny → d.1 <+: q → d.1 = [] := by
  intro d hd hdn hcov
  have habove := h.denial_above hr hne (.inl hd) hdn (hcov.trans hq)
  exact (h.accepted_of_decides hr hne).2.notDenied d hd hdn
    (prefix_of_prefix_length_le hcov hle habove.le)

theorem IntersectionOf.mem_of_read {p : List Text} {r d : Grant} (hr : Decides result p r)
    (hne : r.2 ≠ .deny) (hd : d ∈ gra) (hread : d.2 = .read) (hle : r.1 <+: d.1)
    (hcov : d.1 <+: p) : d ∈ result :=
  (h d).2 (.inl ⟨hd, (h.accepted_of_decides hr hne).2.read_below hle hread
    (h.no_denial_below hr hne hle hcov)⟩)

/-- **An intersection never exceeds what was granted.** -/
theorem IntersectionOf.le_granted (p : List Text) :
    (accessAt (some result) p).capability ≤ (accessAt (some gra) p).capability := by
  by_contra hgt
  rw [not_le] at hgt
  have hne : accessAt (some result) p ≠ .deny := capability_pos.1 (by omega)
  obtain ⟨r, hr, hra⟩ := decides_of_accessAt rfl hne
  rw [← hra] at hne hgt
  obtain ⟨hrmem, -⟩ := h.accepted_of_decides hr hne
  obtain ⟨g, hg⟩ := exists_decides gra ⟨r, hrmem, hr.covers⟩
  rw [accessAt_of_decides hg] at hgt
  -- The granted list decides with something else, which the result does not have.
  have hgout : g ∉ result := by
    intro hgin
    have heq := eq_of_not_outranks (hg.top r hrmem hr.covers) (hr.top g hgin hg.covers)
    rw [heq.2] at hgt
    exact lt_irrefl _ hgt
  by_cases hdn : g.2 = .deny
  · have habove := h.denial_above hr hne (.inr hg.mem) hdn hg.covers
    exact hg.top r hrmem hr.covers (.inl habove)
  -- It is a read below an accepted write, and would be accepted.
  have hread : g.2 = .read := by
    revert hgt hdn
    cases g.2 <;> cases r.2 <;> decide
  exact hgout (h.mem_of_read hr hne hg.mem hread (hg.covers_le hrmem hr.covers) hg.covers)

/-- Where the intersection exceeds the request, an overgrant is the reason. -/
theorem IntersectionOf.exists_overgrants {p : List Text}
    (hgt : (accessAt (some req) p).capability <
      (accessAt (some result) p).capability) : ∃ q g, Overgrants req gra q g := by
  have hne : accessAt (some result) p ≠ .deny := capability_pos.1 (by omega)
  obtain ⟨r, hr, hra⟩ := decides_of_accessAt rfl hne
  rw [← hra] at hne hgt
  obtain ⟨hrmem, hracc⟩ := h.accepted_of_decides hr hne
  obtain ⟨w, hw, hwle, hwne⟩ := hracc.exists_decides
  obtain ⟨q, hq⟩ := exists_decides req ⟨w, hw.mem, hw.covers.trans hr.covers⟩
  rw [accessAt_of_decides hq] at hgt
  have hnot : ¬ q.1 <+: r.1 := by
    intro hup
    have heq := eq_of_not_outranks (hw.top q hq.mem hup)
      (hq.top w hw.mem (hw.covers.trans hr.covers))
    rw [heq.2] at hgt
    omega
  have hle : r.1 <+: q.1 := ( prefix_or_prefix_of_prefix hr.covers hq.covers).resolve_right hnot
  have hqne : q.2 ≠ .deny := by
    intro hdn
    have habove := h.denial_above hr hne (.inl hq.mem) hdn hq.covers
    exact hnot (prefix_of_prefix_length_le hq.covers hr.covers (by omega))
  have hmod : q.2 = .read ∧ r.2 = .write := by
    revert hgt hqne
    cases q.2 <;> cases r.2 <;> decide
  refine ⟨q, r, ⟨hq.mem, hmod.1⟩, ?_, ⟨hrmem, hmod.2⟩, ⟨hle, ?_⟩, ?_,
    h.no_denial_below hr hne hle hq.covers, ?_⟩
  · intro q' hq' hpl
    have hout := hq.top q' hq' (hpl ▸ hq.covers)
    have hmode : ¬ q.2 < q'.2 := fun hlt => hout (.inr ⟨by rw [hpl], hlt⟩)
    rw [hmod.1] at hmode
    revert hmode
    cases q'.2 <;> decide
  · exact fun heq => hnot (heq ▸ prefix_rfl)
  · rw [accessAt_of_decides hw]
    rw [hmod.2] at hwle
    revert hwle
    cases w.2 <;> decide
  · intro d hd hup hcov
    have hcov' := hcov.trans hq.covers
    cases hmode : d.2 with
    | write => exact .inl rfl
    | deny =>
      have habove := h.denial_above hr hne (.inr hd) hmode hcov'
      exact absurd hup.length_le (by omega)
    | read =>
      -- A granted read on the way is accepted, so the write does not decide below it.
      refine .inr ⟨rfl, ?_⟩
      have hout := hr.top d (h.mem_of_read hr hne hd hmode hup hcov') hcov'
      exact (hup.eq_of_length_le (Nat.not_lt.mp fun hlt => hout (.inl hlt))).symm

/-- An overgrant makes the requested read-only place writable. -/
theorem IntersectionOf.write_of_overgrants {q g : Grant} (hover : Overgrants req gra q g) :
    accessAt (some req) q.1 = .read ∧ accessAt (some result) q.1 = .write := by
  constructor
  · have hdec : Decides req q.1 q :=
      decides_self hover.requestedRead.1 fun q' hq' hpl => by
        rw [hover.readDecides q' hq' hpl, hover.requestedRead.2]
    rw [accessAt_of_decides hdec, hover.requestedRead.2]
  · have hacc : Accepted req g := by
      refine ⟨by rw [hover.grantedWrite.2]; decide, fun d hd hdn hcov => ?_, ?_⟩
      · exact hover.noRequestedDenial d hd hdn (hcov.trans hover.below.1)
      · rw [hover.requestedWrite, hover.grantedWrite.2]
        rfl
    have hin : g ∈ result := (h g).2 (.inl ⟨hover.grantedWrite.1, hacc⟩)
    obtain ⟨r, hr⟩ := exists_decides result ⟨g, hin, hover.below.1⟩
    rw [accessAt_of_decides hr]
    have hup : g.1 <+: r.1 := hr.covers_le hin hover.below.1
    have hgran : r ∈ gra → r.2 = .write := by
      intro hmem
      rcases hover.nothingGranted r hmem hup hr.covers with hwr | ⟨hrd, hpl⟩
      · exact hwr
      · refine absurd (.inr ⟨by rw [hpl], ?_⟩) (hr.top g hin hover.below.1)
        rw [hrd, hover.grantedWrite.2]
        decide
    rcases (h r).1 hr.mem with ⟨hmem, -⟩ | ⟨hdn, hmem | hmem, -⟩
    · exact hgran hmem
    · -- A requested denial could only be at the root, where the request allows writing.
      have hrt := hover.noRequestedDenial r hmem hdn hr.covers
      have hgroot : g.1 = [] := prefix_nil.1 (hrt ▸ hup)
      obtain ⟨w, hw, hwa⟩ := decides_of_accessAt hover.requestedWrite (by decide)
      have hwroot : w.1 = [] := prefix_nil.1 (hgroot ▸ hw.covers)
      refine absurd (.inr ⟨by rw [hrt, hwroot], ?_⟩) (hw.top r hmem (hrt ▸ nil_prefix))
      rw [hwa, hdn]
      decide
    · exact hgran hmem

end

end Bounds

end SushiGpt.Sandboxing
