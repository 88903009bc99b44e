/-
The most specific entry decides.

Entries grant something to a place in a tree and to everything below it.  Places are
lists of names from the root, so an entry covers a place when its own is a prefix of
it, and of the entries that cover a place the longest decides.  Two entries of one
length that cover the same place have the same place themselves; between them the
order on grants decides, the greater one winning.

`Decides` says which entry does, without computing it: a member that covers the place
and that no covering member outranks.  Any procedure that picks such an entry is
correct, whatever order it looks at them in, because two deciding entries grant the
same (`lookup_of_decides`).
-/
import Mathlib.Data.List.Infix
import Mathlib.Data.Prod.Lex

namespace SushiGpt

open List Option

namespace MostSpecific

variable {N A : Type*} [LinearOrder A]

abbrev Entry (N A : Type*) := List N × A

/-- `e'` is more specific than `e`, or as specific with the stronger grant. -/
def Outranks (e' e : Entry N A) : Prop :=
  e.1.length < e'.1.length ∨ (e.1.length = e'.1.length ∧ e.2 < e'.2)

instance (e' e : Entry N A) : Decidable (Outranks e' e) :=
  inferInstanceAs (Decidable (_ ∨ _))

/-- The entry that decides at a place. -/
structure Decides (entries : List (Entry N A)) (place : List N) (e : Entry N A) : Prop where
  mem : e ∈ entries
  covers : e.1 <+: place
  top : ∀ e' ∈ entries, e'.1 <+: place → ¬ Outranks e' e

/-- The entries are ranked by their depth, and then by their grants. -/
def weight (e : Entry N A) : ℕ ×ₗ A := toLex (e.1.length, e.2)

theorem outranks_iff {e' e : Entry N A} : Outranks e' e ↔ weight e < weight e' := by
  rw [weight, weight, Prod.Lex.toLex_lt_toLex]
  rfl

theorem not_outranks_self (e : Entry N A) : ¬ Outranks e e :=
  fun h => lt_irrefl _ (outranks_iff.1 h)

/-- Of two entries neither of which outranks the other, both are as deep and grant the
same. -/
theorem eq_of_not_outranks {a b : Entry N A} (hab : ¬ Outranks a b) (hba : ¬ Outranks b a) :
    a.1.length = b.1.length ∧ a.2 = b.2 := by
  rw [outranks_iff, not_lt] at hab hba
  exact Prod.mk.inj (toLex.injective (le_antisymm hab hba))

theorem eq_of_covers {k k' p : List N} (h : k <+: p) (h' : k' <+: p)
    (hlen : k.length = k'.length) : k = k' :=
  (prefix_of_prefix_length_le h h' (le_of_eq hlen)).eq_of_length hlen

section Deciding

variable {es o : List (Entry N A)} {p : List N} {e e' : Entry N A}

theorem Decides.place_unique (h : Decides es p e) (h' : Decides es p e') : e.1 = e'.1 :=
  eq_of_covers h.covers h'.covers
    (eq_of_not_outranks (h'.top e h.mem h.covers) (h.top e' h'.mem h'.covers)).1

/-- The deciding entry is at least as deep as any entry that covers the place. -/
theorem Decides.covers_le (h : Decides es p e) (hmem : e' ∈ es)
    (hcov : e'.1 <+: p) : e'.1 <+: e.1 := by
  refine prefix_of_prefix_length_le hcov h.covers ?_
  by_contra hlt
  exact h.top e' hmem hcov (.inl (by omega))

/-- An entry that decides at a place decides at every place between it and that one. -/
theorem Decides.above (h : Decides es p e) {p' : List N} (hle : p' <+: p)
    (hcov : e.1 <+: p') : Decides es p' e :=
  ⟨h.mem, hcov, fun e' hmem hcov' => h.top e' hmem (hcov'.trans hle)⟩

/-- An entry at the very place decides there when no entry at it grants something
stronger. -/
theorem decides_self (hmem : e ∈ es) (htop : ∀ e' ∈ es, e'.1 = e.1 → e'.2 ≤ e.2) :
    Decides es e.1 e := by
  refine ⟨hmem, prefix_rfl, fun e' he' hcov hout => ?_⟩
  rcases hout with hlt | ⟨hlen, hlt⟩
  · exact absurd hcov.length_le (by omega)
  · exact absurd (htop e' he' (hcov.eq_of_length hlen.symm)) (not_le.2 hlt)

end Deciding

/-! ### Looking the deciding entry up -/

section Lookup

/-- The better of the entry found so far and the next one. -/
def pick (best : Option (Entry N A)) (e : Entry N A) : Option (Entry N A) :=
  match best with
  | none => some e
  | some b => if Outranks b e then some b else some e

/-- Of the entries picked from, none outranks the one that is left. -/
theorem foldl_pick (l : List (Entry N A)) (best : Entry N A) :
    ∃ m, l.foldl pick (some best) = some m ∧ m ∈ best :: l ∧
      ∀ e ∈ best :: l, ¬ Outranks e m := by
  induction l generalizing best with
  | nil =>
    refine ⟨best, rfl, mem_singleton_self best, fun e he => ?_⟩
    rw [mem_singleton.1 he]
    exact not_outranks_self best
  | cons x rest ih =>
    simp only [outranks_iff, not_lt, forall_mem_cons] at ih ⊢
    rw [foldl_cons]
    by_cases hb : Outranks best x
    · obtain ⟨m, hm, hmem, hbest, htop⟩ := ih best
      refine ⟨m, ?_, mem_cons.2 ((mem_cons.1 hmem).imp_right (mem_cons_of_mem x)), hbest,
        (outranks_iff.1 hb).le.trans hbest, htop⟩
      rw [pick, if_pos hb, hm]
    · obtain ⟨m, hm, hmem, hx, htop⟩ := ih x
      have hle := not_lt.1 (outranks_iff.not.1 hb)
      refine ⟨m, ?_, mem_cons_of_mem best hmem, hle.trans hx, hx, htop⟩
      rw [pick, if_neg hb, hm]

variable [DecidableEq N]

/-- What is granted at a place, if anything covers it. -/
def lookup (entries : List (Entry N A)) (place : List N) : Option A :=
  ((entries.filter fun e => decide (e.1 <+: place)).foldl pick none).map Prod.snd

variable {es : List (Entry N A)} {p : List N} {e : Entry N A}

/-- Where something covers a place, the lookup finds an entry that decides. -/
theorem exists_pick (hmem : e ∈ es) (hcov : e.1 <+: p) :
    ∃ m, (es.filter fun e => decide (e.1 <+: p)).foldl pick none = some m ∧ Decides es p m := by
  have hiff {e : Entry N A} : e ∈ es.filter (fun e => decide (e.1 <+: p)) ↔ e ∈ es ∧ e.1 <+: p := by
    rw [mem_filter, decide_eq_true_iff]
  cases hl : es.filter fun e => decide (e.1 <+: p) with
  | nil => exact absurd (hiff.2 ⟨hmem, hcov⟩) (hl ▸ not_mem_nil)
  | cons x rest =>
    rw [hl] at hiff
    obtain ⟨m, hm, hin, htop⟩ := foldl_pick rest x
    obtain ⟨hin, hcovers⟩ := hiff.1 hin
    exact ⟨m, hm, hin, hcovers, fun e' he' hcov' => htop e' (hiff.2 ⟨he', hcov'⟩)⟩

theorem exists_decides (es : List (Entry N A)) (h : ∃ e ∈ es, e.1 <+: p) : ∃ e, Decides es p e := by
  obtain ⟨e, hmem, hcov⟩ := h
  obtain ⟨m, -, hm⟩ := exists_pick hmem hcov
  exact ⟨m, hm⟩

theorem lookup_of_decides (h : Decides es p e) : lookup es p = some e.2 := by
  obtain ⟨m, hpick, hm⟩ := exists_pick h.mem h.covers
  rw [lookup, hpick, map_some,
    (eq_of_not_outranks (h.top m hm.mem hm.covers) (hm.top e h.mem h.covers)).2]

theorem lookup_eq_none_iff : lookup es p = none ↔ ∀ e ∈ es, ¬ e.1 <+: p := by
  constructor
  · intro h e he hcov
    obtain ⟨d, hd⟩ := exists_decides es ⟨e, he, hcov⟩
    rw [lookup_of_decides hd] at h
    cases h
  · intro h
    have hnil : (es.filter fun e => decide (e.1 <+: p)) = [] := by
      rw [filter_eq_nil_iff]
      intro e he hcov
      exact h e he (of_decide_eq_true hcov)
    simp [lookup, hnil]

theorem lookup_eq_some_iff {a : A} : lookup es p = some a ↔ ∃ e, Decides es p e ∧ e.2 = a := by
  constructor
  · intro h
    by_cases hex : ∃ e ∈ es, e.1 <+: p
    · obtain ⟨d, hd⟩ := exists_decides es hex
      refine ⟨d, hd, ?_⟩
      rw [lookup_of_decides hd] at h
      exact some.inj h
    · rw [lookup_eq_none_iff.2 fun e he hcov => hex ⟨e, he, hcov⟩] at h
      cases h
  · rintro ⟨e, he, rfl⟩
    exact lookup_of_decides he

/-- One more entry changes nothing at a place, or decides there. -/
theorem lookup_concat (es : List (Entry N A)) (e : Entry N A) (p : List N) :
    lookup (es ++ [e]) p = lookup es p ∨ Decides (es ++ [e]) p e := by
  by_cases hdec : Decides (es ++ [e]) p e
  · exact .inr hdec
  · left
    cases hl : lookup (es ++ [e]) p with
    | none =>
      rw [eq_comm, lookup_eq_none_iff]
      exact fun d hd => lookup_eq_none_iff.1 hl d (mem_append_left _ hd)
    | some a =>
      obtain ⟨d, hd, rfl⟩ := lookup_eq_some_iff.1 hl
      have hmem : d ∈ es := (mem_append.1 hd.mem).resolve_right fun hnew =>
        hdec (mem_singleton.1 hnew ▸ hd)
      exact (lookup_of_decides ⟨hmem, hd.covers, fun e' he' =>
        hd.top e' (mem_append_left _ he')⟩).symm

theorem lookup_congr {o : List (Entry N A)} (p : List N)
    (hmem : ∀ x, x ∈ es ↔ x ∈ o) : lookup es p = lookup o p := by
  cases h : lookup es p with
  | none =>
    rw [eq_comm, lookup_eq_none_iff]
    intro e he
    exact lookup_eq_none_iff.1 h e ((hmem e).2 he)
  | some a =>
    obtain ⟨e, he, rfl⟩ := lookup_eq_some_iff.1 h
    exact (lookup_of_decides ⟨(hmem e).1 he.mem, he.covers, fun e' he' =>
      he.top e' ((hmem e').2 he')⟩).symm

end Lookup

/-! ### Taking entries away

Two lists share the entries of `kept`.  One has `gone` besides, the other `floor`, whose
entries grant the least there is.  Where does the second list grant more?  Only where an
entry of `gone` decided in the first list, and then at the place of that entry already. -/

section Compare

variable [DecidableEq N] {f l k gone floor : List (Entry N A)} {r : A → Nat} {low : A}

/-- An entry that is gone was all that kept the place of `e` below the grant of `g`. -/
structure Uncovers (full less : List (Entry N A)) (rank : A → Nat) (e g : Entry N A) : Prop where
  covers : g.1 <+: e.1
  gains : rank e.2 < rank g.2
  top : ∀ s ∈ full, s.1 = e.1 → s.2 ≤ e.2
  decides : ∀ m ∈ less, m.1 <+: e.1 → ¬ Outranks m g

/-- Where an entry uncovers a grant, the second list grants more. -/
theorem Uncovers.gain {e g : Entry N A} (h : Uncovers f l r e g) (he : e ∈ f)
    (hg : g ∈ l) (low : A) :
    r ((lookup f e.1).getD low) < r ((lookup l e.1).getD low) := by
  have hfull : Decides f e.1 e := decides_self he h.top
  have hless : Decides l e.1 g := ⟨hg, h.covers, h.decides⟩
  rw [lookup_of_decides hfull, lookup_of_decides hless]
  exact h.gains

/-- **Where the second list grants more, an entry that is gone uncovers one that is
kept.** -/
theorem exists_uncovers_of_gain (hfull : ∀ x, x ∈ f ↔ x ∈ k ∨ x ∈ gone)
    (hless : ∀ x, x ∈ l ↔ x ∈ k ∨ x ∈ floor) (hfloor : ∀ x ∈ floor, r x.2 = 0) (hlow : r low = 0)
    {p : List N} (hgain : r ((lookup f p).getD low) < r ((lookup l p).getD low)) :
    ∃ e ∈ gone, ∃ g ∈ k, Uncovers f l r e g := by
  have hpos : 0 < r ((lookup l p).getD low) := by omega
  cases hg : lookup l p with
  | none => rw [hg, getD_none, hlow] at hpos; exact absurd hpos (lt_irrefl 0)
  | some a =>
    obtain ⟨g, hdec, rfl⟩ := lookup_eq_some_iff.1 hg
    rw [hg, getD_some] at hgain hpos
    have hkept : g ∈ k := by
      rcases (hless g).1 hdec.mem with h | h
      · exact h
      · rw [hfloor g h] at hpos
        exact absurd hpos (lt_irrefl 0)
    -- `g` is in the first list too, so something outranks it there, and that is gone.
    obtain ⟨e, he⟩ := exists_decides f ⟨g, (hfull g).2 (.inl hkept), hdec.covers⟩
    rw [lookup_of_decides he, getD_some] at hgain
    have hgone : e ∈ gone := by
      rcases (hfull e).1 he.mem with h | h
      · have heq := (eq_of_not_outranks (hdec.top e ((hless e).2 (.inl h)) he.covers)
          (he.top g ((hfull g).2 (.inl hkept)) hdec.covers)).2
        rw [heq] at hgain
        exact absurd hgain (lt_irrefl _)
      · exact h
    refine ⟨e, hgone, g, hkept, ?_, hgain, ?_, ?_⟩
    · exact he.covers_le ((hfull g).2 (.inl hkept)) hdec.covers
    · intro s hs hpl
      by_contra hlt
      exact he.top s hs (hpl ▸ he.covers) (.inr ⟨by rw [hpl], not_le.1 hlt⟩)
    · intro m hm hcov
      exact hdec.top m hm (hcov.trans he.covers)

end Compare

end MostSpecific

end SushiGpt
