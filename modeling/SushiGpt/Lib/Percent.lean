/-
Percent-encoding of byte texts.

Here a text is read as bytes, one character each.  `encode` spells every reserved byte
as `%XY` and leaves the rest as it is; `decode` reads the spellings back and leaves a
`%` that no two hexadecimal digits follow alone.  As long as `%` itself is reserved,
decoding undoes encoding (`decode_encode`).
-/
import SushiGpt.Lib.Text

namespace SushiGpt

open List

namespace Percent

def hexDigit (n : Nat) : Char := Char.ofNat (if n < 10 then 48 + n else 55 + n)

def hexValue (c : Char) : Option Nat :=
  let n := c.toNat
  if 48 ≤ n ∧ n ≤ 57 then some (n - 48)
  else if 65 ≤ n ∧ n ≤ 70 then some (n - 55)
  else if 97 ≤ n ∧ n ≤ 102 then some (n - 87)
  else none

/-- One byte, spelled out when it is reserved. -/
def encodeByte (reserved : Char → Bool) (c : Char) : Text :=
  if reserved c ∧ c.toNat < 256 then ['%', hexDigit (c.toNat / 16), hexDigit (c.toNat % 16)]
  else [c]

def encode (reserved : Char → Bool) (t : Text) : Text := t.flatMap (encodeByte reserved)

def decode : Text → Text
  | [] => []
  | [c] => [c]
  | [c, d] => [c, d]
  | c :: a :: b :: rest =>
    if c = '%' then
      match hexValue a, hexValue b with
      | some high, some low => Char.ofNat (16 * high + low) :: decode rest
      | _, _ => c :: decode (a :: b :: rest)
    else c :: decode (a :: b :: rest)

/-! ### The round trip -/

theorem hexValue_hexDigit : ∀ n : Nat, n < 16 → hexValue (hexDigit n) = some n
  | 0, _ | 1, _ | 2, _ | 3, _ | 4, _ | 5, _ | 6, _ | 7, _ | 8, _ | 9, _ | 10, _ | 11, _
  | 12, _ | 13, _ | 14, _ | 15, _ => by decide
  | _ + 16, h => absurd h (by omega)

theorem decode_cons_of_ne {c : Char} (h : c ≠ '%') (t : Text) :
    decode (c :: t) = c :: decode t := by
  match t with
  | [] => rfl
  | [_] => rfl
  | _ :: _ :: _ => rw [decode, if_neg h]

theorem decode_spelled {c : Char} (h : c.toNat < 256) (t : Text) :
    decode ('%' :: hexDigit (c.toNat / 16) :: hexDigit (c.toNat % 16) :: t) = c :: decode t := by
  rw [decode, if_pos rfl, hexValue_hexDigit _ (by omega), hexValue_hexDigit _ (by omega)]
  dsimp only
  rw [show 16 * (c.toNat / 16) + c.toNat % 16 = c.toNat by omega, Char.ofNat_toNat]

/-- **Decoding undoes encoding**, as long as `%` is spelled out. -/
theorem decode_encode {r : Char → Bool} (hper : r '%' = true) :
    ∀ t : Text, decode (encode r t) = t := by
  intro t
  induction t with
  | nil => rfl
  | cons c rest ih =>
    unfold encode at ih ⊢
    rw [flatMap_cons, encodeByte]
    split
    · rename_i h
      simp only [cons_append, nil_append]
      rw [decode_spelled h.2, ih]
    · rename_i h
      rw [singleton_append, decode_cons_of_ne, ih]
      rintro rfl
      exact h ⟨hper, by decide⟩

theorem encode_ne_nil {r : Char → Bool} {t : Text} (h : t ≠ []) : encode r t ≠ [] := by
  cases t with
  | nil => exact absurd rfl h
  | cons c rest =>
    unfold encode
    rw [flatMap_cons, encodeByte]
    split <;> simp

/-- A text without reserved bytes is its own spelling. -/
theorem encode_of_plain {r : Char → Bool} : ∀ t : Text,
    (∀ c ∈ t, r c = false) → encode r t = t := by
  intro t
  induction t with
  | nil => intro _; rfl
  | cons c rest ih =>
    intro h
    have hc := h c (mem_cons_self ..)
    have hrest := ih fun d hd => h d (mem_cons_of_mem _ hd)
    unfold encode at hrest ⊢
    rw [flatMap_cons, encodeByte, hrest]
    simp [hc]

theorem decode_of_plain : ∀ t : Text, '%' ∉ t → decode t = t := by
  intro t
  induction t with
  | nil => intro _; rfl
  | cons c r ih =>
    intro h
    rw [decode_cons_of_ne (fun hc => h (hc ▸ mem_cons_self ..)),
      ih fun hrest => h (mem_cons_of_mem _ hrest)]

end Percent

end SushiGpt
