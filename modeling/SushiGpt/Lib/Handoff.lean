/-
Handing a decision to those who wait for it.

Whoever finds no entry under a key makes one and owns it; others who find the entry wait for its
decision.  The owner takes the entry off the list, publishes the decision and then notifies the
waiters; each waiter looks for the decision only after it has begun to listen, so that it either
sees the decision or is there to be notified.  An entry is decided once, nobody finds a decided
one, and no waiter is left behind.
-/
import Mathlib.Logic.Function.Basic

namespace SushiGpt.Handoff

open Function

variable {κ δ : Type*}

/-- How far the owner of an entry has come. -/
inductive Progress (δ : Type*) where
  | listed
  | unlisted
  | published (decision : δ)
  | told (decision : δ)

@[grind] def Progress.decision? : Progress δ → Option δ
  | listed | unlisted => none
  | published decision | told decision => some decision

/-- What somebody has to do with an entry.  `seen` counts the notifications before it listened. -/
inductive Role (κ δ : Type*) where
  | outside
  | waiting (entry : Nat)
  | listening (entry seen : Nat)
  | parked (entry seen : Nat)
  | owner (key : κ) (entry : Nat) (progress : Progress δ)
  | handed (entry : Nat) (decision : δ)

@[grind] def Role.number? : Role κ δ → Option Nat
  | outside => none
  | waiting entry | listening entry _ | parked entry _ | owner _ entry _ | handed entry _ =>
    some entry

/-- Entries are numbered in the order in which they were made. -/
structure Board (κ δ : Type*) where
  listed : κ → Option Nat
  decision : Nat → Option δ
  notified : Nat → Nat
  made : Nat
  roles : Nat → Role κ δ

namespace Board

def setRole (b : Board κ δ) (i : Nat) (role : Role κ δ) : Board κ δ :=
  { b with roles := update b.roles i role }

structure Settled (b : Board κ δ) : Prop where
  listed_iff : ∀ key g, b.listed key = some g ↔ ∃ i, b.roles i = .owner key g .listed
  unique : ∀ i j key key' g p p', b.roles i = .owner key g p → b.roles j = .owner key' g p' → i = j
  below : ∀ i g, (b.roles i).number? = some g → g < b.made
  owned : ∀ i key g p, b.roles i = .owner key g p → b.decision g = p.decision?
  decided : ∀ g < b.made, (∀ i key p, b.roles i ≠ .owner key g p) → b.decision g ≠ none
  listening : ∀ i g n, b.roles i = .listening g n → n ≤ b.notified g
  parked : ∀ i g n, b.roles i = .parked g n → n < b.notified g ∨ n = b.notified g ∧
    (b.decision g = none ∨ ∃ j key decision, b.roles j = .owner key g (.published decision))
  handed : ∀ i g decision, b.roles i = .handed g decision → b.decision g = some decision

variable {b b' : Board κ δ} {i g n : Nat} {key : κ} {decision : δ} {ro : Role κ δ}

namespace Settled

variable (h : Settled b)

include h

theorem below_of {old : Role κ δ} (hrole : b.roles i = old)
    (he : ro.number? = old.number?) (g : Nat) (hg : ro.number? = some g) : g < b.made :=
  h.below i g (by rw [hrole, ← he, hg])

/-- Somebody who does not own an entry, or has told everybody, takes a role that owns none. -/
theorem setRole {old : Role κ δ} (hrole : b.roles i = old)
    (hold : ∀ key g p, old = .owner key g p → ∃ decision, p = .told decision)
    (hnew : ∀ key g p, ro ≠ .owner key g p) (hbel : ∀ g, ro.number? = some g → g < b.made)
    (hlis : ∀ g n, ro = .listening g n → n ≤ b.notified g)
    (hpk : ∀ g n, ro = .parked g n → n ≤ b.notified g ∧ b.decision g = none)
    (hhan : ∀ g decision, ro = .handed g decision → b.decision g = some decision) :
    Settled (b.setRole i ro) := by
  cases h
  constructor <;> simp only [Board.setRole, update_apply]
  all_goals grind

theorem publish (hrole : b.roles i = .owner key g .unlisted) :
    Settled { b.setRole i (.owner key g (.published decision)) with
      decision := update b.decision g (some decision) } := by
  obtain ⟨hlist, huniq, hbel, hown, hdec, hlis, hpk, hhan⟩ := h
  constructor <;> simp only [Board.setRole, update_apply]
  case parked =>
    intro j g' n hj
    have hj' : b.roles j = .parked g' n := by grind
    rcases hpk j g' n hj' with hlt | ⟨heq, hund⟩
    · exact .inl hlt
    refine .inr ⟨heq, ?_⟩
    by_cases hg : g' = g
    · exact .inr ⟨i, key, decision, by rw [if_pos rfl, hg]⟩
    · grind
  all_goals grind

theorem tell (hrole : b.roles i = .owner key g (.published decision)) :
    Settled { b.setRole i (.owner key g (.told decision)) with
      notified := update b.notified g (b.notified g + 1) } := by
  cases h
  constructor <;> simp only [Board.setRole, update_apply]
  all_goals grind

omit h in
theorem told_of_owner {old : Role κ δ} (hold : old = .owner key g (.told decision)) (key' : κ)
    (g' : Nat) (p : Progress δ) (hp : old = .owner key' g' p) : ∃ decision, p = .told decision := by
  rw [hold] at hp
  cases hp
  exact ⟨decision, rfl⟩

/-! What it means. -/

theorem not_decided (hlst : b.listed key = some g) : b.decision g = none := by
  obtain ⟨i, hi⟩ := (h.listed_iff key g).mp hlst
  exact h.owned i key g .listed hi

theorem exists_decision (hrole : (b.roles i).number? = some g)
    (hgone : ∀ j key p, b.roles j ≠ .owner key g p) : ∃ decision, b.decision g = some decision :=
  Option.ne_none_iff_exists'.mp (h.decided g (h.below i g hrole) hgone)

theorem notified_of_parked (hrole : b.roles i = .parked g n)
    (hgone : ∀ j key p, b.roles j ≠ .owner key g p) : n < b.notified g := by
  obtain ⟨decision, hdec⟩ := h.exists_decision (by rw [hrole]; rfl) hgone
  rcases h.parked i g n hrole with hlt | ⟨-, hn | ⟨j, key, decision', hj⟩⟩
  · exact hlt
  · exact absurd (hn.symm.trans hdec) nofun
  · exact absurd hj (hgone j key _)

end Settled

/-! ### Moves -/

variable [DecidableEq κ]

/-- What can be done with the entries. -/
inductive Move : Board κ δ → Board κ δ → Prop
  | make {b : Board κ δ} {i : Nat} {key : κ} (hrole : b.roles i = .outside)
      (hfree : b.listed key = none) :
      Move b { b with
        listed := update b.listed key (some b.made)
        decision := update b.decision b.made none
        notified := update b.notified b.made 0
        made := b.made + 1
        roles := update b.roles i (.owner key b.made .listed) }
  | attach {b : Board κ δ} {i g : Nat} {key : κ} (hrole : b.roles i = .outside)
      (hlisted : b.listed key = some g) : Move b (b.setRole i (.waiting g))
  | listen {b : Board κ δ} {i g : Nat} (hrole : b.roles i = .waiting g) :
      Move b (b.setRole i (.listening g (b.notified g)))
  | park {b : Board κ δ} {i g n : Nat} (hrole : b.roles i = .listening g n)
      (hnone : b.decision g = none) : Move b (b.setRole i (.parked g n))
  | wake {b : Board κ δ} {i g n : Nat} (hrole : b.roles i = .parked g n)
      (hnotified : n < b.notified g) : Move b (b.setRole i (.waiting g))
  | take {b : Board κ δ} {i g n : Nat} {decision : δ} (hrole : b.roles i = .listening g n)
      (hdecision : b.decision g = some decision) : Move b (b.setRole i (.handed g decision))
  | giveUp {b : Board κ δ} {i g n : Nat} (hrole : b.roles i = .parked g n) :
      Move b (b.setRole i .outside)
  | unlist {b : Board κ δ} {i g : Nat} {key : κ} (hrole : b.roles i = .owner key g .listed) :
      Move b { b.setRole i (.owner key g .unlisted) with
        listed := update b.listed key none }
  | publish {b : Board κ δ} {i g : Nat} {key : κ} {decision : δ}
      (hrole : b.roles i = .owner key g .unlisted) :
      Move b { b.setRole i (.owner key g (.published decision)) with
        decision := update b.decision g (some decision) }
  | tell {b : Board κ δ} {i g : Nat} {key : κ} {decision : δ}
      (hrole : b.roles i = .owner key g (.published decision)) :
      Move b { b.setRole i (.owner key g (.told decision)) with
        notified := update b.notified g (b.notified g + 1) }
  | leave {b : Board κ δ} {i g : Nat} {key : κ} {decision : δ}
      (hrole : b.roles i = .owner key g (.told decision)) :
      Move b (b.setRole i (.handed g decision))
  | vanish {b : Board κ δ} {i g : Nat} {key : κ} {decision : δ}
      (hrole : b.roles i = .owner key g (.told decision)) : Move b (b.setRole i .outside)

namespace Settled

theorem make (h : Settled b) (hrole : b.roles i = .outside) (hfree : b.listed key = none) :
    Settled { b with
      listed := update b.listed key (some b.made)
      decision := update b.decision b.made none
      notified := update b.notified b.made 0
      made := b.made + 1
      roles := update b.roles i (.owner key b.made .listed) } := by
  obtain ⟨hlist, huniq, hbel, hown, hdec, hlis, hpk, hhan⟩ := h
  have hfresh : ∀ j g, (b.roles j).number? = some g → g ≠ b.made := fun j g hg =>
    Nat.ne_of_lt (hbel j g hg)
  constructor <;> simp only [update_apply]
  case decided =>
    intro g hg hn
    have hg' : g ≠ b.made := fun heq => hn i key .listed (by rw [if_pos rfl, heq])
    rw [if_neg hg']
    refine hdec g (by omega) fun j key' p hj => hn j key' p ?_
    rw [if_neg (by grind), hj]
  all_goals grind

theorem unlist (h : Settled b) (hrole : b.roles i = .owner key g .listed) :
    Settled { b.setRole i (.owner key g .unlisted) with
      listed := update b.listed key none } := by
  obtain ⟨hlist, huniq, hbel, hown, hdec, hlis, hpk, hhan⟩ := h
  -- Nobody else is listed under the key.
  have hkey : ∀ j g', b.roles j = .owner key g' .listed → j = i := fun j g' hj => by
    have htwo := (hlist key g').mpr ⟨j, hj⟩
    grind
  constructor <;> simp only [Board.setRole, update_apply]
  all_goals grind

/-- **Every move keeps the board settled.** -/
theorem move (h : Settled b) (hmove : Move b b') : Settled b' := by
  cases hmove with
  | make hrole hfree => exact h.make hrole hfree
  | unlist hrole => exact h.unlist hrole
  | publish hrole => exact h.publish hrole
  | tell hrole => exact h.tell hrole
  | attach hrole hlst =>
    obtain ⟨j, hj⟩ := (h.listed_iff _ _).mp hlst
    exact h.setRole hrole nofun nofun (h.below_of hj rfl) nofun nofun nofun
  | listen hrole =>
    refine h.setRole hrole nofun nofun (h.below_of hrole rfl) ?_ nofun nofun
    intro g n hn
    cases hn
    exact Nat.le_refl _
  | park hrole hno =>
    refine h.setRole hrole nofun nofun (h.below_of hrole rfl) nofun ?_ nofun
    intro g n hn
    cases hn
    exact ⟨h.listening _ _ _ hrole, hno⟩
  | wake hrole hnot =>
    exact h.setRole hrole nofun nofun (h.below_of hrole rfl) nofun nofun nofun
  | take hrole hdec =>
    refine h.setRole hrole nofun nofun (h.below_of hrole rfl) nofun nofun ?_
    intro g decision hd
    cases hd
    exact hdec
  | giveUp hrole => exact h.setRole hrole nofun nofun nofun nofun nofun nofun
  | leave hrole =>
    refine h.setRole hrole (told_of_owner rfl) nofun (h.below_of hrole rfl) nofun nofun ?_
    intro g decision hd
    cases hd
    exact h.owned _ _ _ _ hrole
  | vanish hrole => exact h.setRole hrole (told_of_owner rfl) nofun nofun nofun nofun nofun

end Settled

end Board

end SushiGpt.Handoff
