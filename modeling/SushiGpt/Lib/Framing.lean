/-
Messages cut out of a stream of bytes.

A format says what stands at the front of the bytes: a whole frame, part of one, or something
that no frame starts with.  Whole frames one after the other are decoded into their messages,
whatever comes after them (`decode_flatMap`).
-/
import Mathlib.Data.List.Basic

namespace SushiGpt.Framing

open List

/-- What stands at the front of a buffer. -/
inductive Front (ε β μ : Type*) where
  | incomplete
  | invalid (error : ε)
  | frame (msg : μ) (r : List β)

structure Format (ε β μ : Type*) where
  front : List β → Front ε β μ
  shorter : ∀ {bs msg r}, front bs = .frame msg r → r.length < bs.length

namespace Format

variable {ε β μ : Type*} (f : Format ε β μ)

/-- Takes whole frames off the front as long as there is fuel. -/
def decodeWith : Nat → List β → Except ε (List μ × List β)
  | 0, bs => .ok ([], bs)
  | fuel + 1, bs =>
    match f.front bs with
    | .incomplete => .ok ([], bs)
    | .invalid error => .error error
    | .frame msg r =>
      (decodeWith fuel r).map fun decoded => (msg :: decoded.1, decoded.2)

/-- All whole frames at the front, and the bytes that are left. -/
def decode (bs : List β) : Except ε (List μ × List β) :=
  f.decodeWith (bs.length + 1) bs

variable {f} {bs r : List β} {msg : μ} {ms : List μ}

/-- Every frame takes a byte, so there is always enough fuel. -/
theorem decodeWith_eq {fuel : Nat} (h : bs.length < fuel) : f.decodeWith fuel bs = f.decode bs := by
  suffices hsame : ∀ {bs : List β} {fuel fuel' : Nat}, bs.length < fuel →
      bs.length < fuel' → f.decodeWith fuel bs = f.decodeWith fuel' bs from
    hsame h (Nat.lt_succ_self _)
  intro bs fuel
  induction fuel generalizing bs with
  | zero => exact fun h => absurd h (Nat.not_lt_zero _)
  | succ fuel ih =>
    intro fuel' h h'
    obtain ⟨fuel', rfl⟩ := Nat.exists_eq_succ_of_ne_zero (Nat.ne_zero_of_lt h')
    unfold decodeWith
    cases hfront : f.front bs with
    | incomplete | invalid error => rfl
    | frame msg r =>
      have hshor := f.shorter hfront
      dsimp only
      rw [ih (by omega : r.length < fuel) (by omega : r.length < fuel')]

theorem decode_incomplete (h : f.front bs = .incomplete) : f.decode bs = .ok ([], bs) := by
  unfold decode decodeWith
  rw [h]

theorem decode_frame (h : f.front bs = .frame msg r) :
    f.decode bs = (f.decode r).map fun d => (msg :: d.1, d.2) := by
  rw [decode, decodeWith, h]
  dsimp only
  rw [decodeWith_eq (f.shorter h)]

/-- **Whole frames one after the other are decoded into their messages.** -/
theorem decode_flatMap {e : μ → List β} (m : List β)
    (h : ∀ msg ∈ ms, ∀ m, f.front (e msg ++ m) = .frame msg m) :
    f.decode (ms.flatMap e ++ m) = (f.decode m).map fun d => (ms ++ d.1, d.2) := by
  induction ms with
  | nil =>
    rw [flatMap_nil, nil_append]
    cases f.decode m <;> rfl
  | cons msg r ih =>
    rw [flatMap_cons, append_assoc,
      decode_frame (h msg (mem_cons_self ..) _),
      ih fun o ho => h o (mem_cons_of_mem _ ho)]
    cases f.decode m <;> rfl

end Format

end SushiGpt.Framing
