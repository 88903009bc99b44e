/-
Two logs that mirror each other through queues.

Either side appends entries to its own log and sends them to the other, which appends them
when they arrive.  Entries on their way are in one log and not yet in the other.  As long
as nobody appends while an entry from the other side is on its way, one log is the other
one followed by what is on its way.  An entry appended against one on its way takes the
index that the other has in the other log; from then on the logs differ there, whatever
follows.
-/
import Mathlib.Data.List.Infix

namespace SushiGpt

/-- The two logs, and what is on its way to each of them. -/
structure Logs (α : Type*) where
  left : List α
  right : List α
  toLeft : List α
  toRight : List α

namespace Logs

open List

variable {α : Type*} {l l' : Logs α}

/-- One log is ahead of the other by exactly what is on its way. -/
def InStep (logs : Logs α) : Prop :=
  (logs.left = logs.right ++ logs.toRight ∧ logs.toLeft = []) ∨
    (logs.right = logs.left ++ logs.toLeft ∧ logs.toRight = [])

/-- The logs have different entries at some index. -/
def Diverged (logs : Logs α) : Prop :=
  ∃ (i : Nat) (a b : α), logs.left[i]? = some a ∧ logs.right[i]? = some b ∧ a ≠ b

/-- One side sends, or an entry arrives.  The proposition tells whether the entries sent
cross entries of the other side, which they are never equal to; an entry on its way is in
the log of its sender. -/
inductive Move (logs : Logs α) : Prop → Logs α → Prop where
  | sendLeft (entries : List α)
      (h : ∀ a ∈ entries, ∀ b ∈ logs.right, b ∈ logs.toLeft → a ≠ b) :
      Move logs (entries ≠ [] ∧ logs.toLeft ≠ [])
        ⟨logs.left ++ entries, logs.right, logs.toLeft, logs.toRight ++ entries⟩
  | sendRight (entries : List α)
      (h : ∀ a ∈ logs.left, a ∈ logs.toRight → ∀ b ∈ entries, a ≠ b) :
      Move logs (entries ≠ [] ∧ logs.toRight ≠ [])
        ⟨logs.left, logs.right ++ entries, logs.toLeft ++ entries, logs.toRight⟩
  | arriveLeft (entry : α) (rest : List α) (h : logs.toLeft = entry :: rest) :
      Move logs False ⟨logs.left ++ [entry], logs.right, rest, logs.toRight⟩
  | arriveRight (entry : α) (rest : List α) (h : logs.toRight = entry :: rest) :
      Move logs False ⟨logs.left, logs.right ++ [entry], logs.toLeft, rest⟩

theorem Move.congr {cs cs' : Prop} {m : Logs α} (h : l.Move cs l') (hcs : cs' ↔ cs) (hm : m = l') :
    l.Move cs' m := by
  rw [hcs, hm]
  exact h

theorem Move.refl (l : Logs α) : l.Move False l := by
  have hmove : l.Move ([] ≠ ([] : List α) ∧ l.toLeft ≠ [])
      ⟨l.left ++ [], l.right, l.toLeft, l.toRight ++ []⟩ := .sendLeft [] nofun
  rwa [append_nil, append_nil, Ne, eq_self, not_true, false_and] at hmove

/-! ### In step -/

theorem InStep.eq (h : l.InStep) (hleft : l.toLeft = []) (hr : l.toRight = []) :
    l.left = l.right := by
  rcases h with ⟨h, -⟩ | ⟨h, -⟩
  · rw [h, hr, append_nil]
  · rw [h, hleft, append_nil]

def swap (logs : Logs α) : Logs α := ⟨logs.right, logs.left, logs.toRight, logs.toLeft⟩

theorem Move.swap {cs : Prop} (h : l.Move cs l') : l.swap.Move cs l'.swap := by
  cases h with
  | sendLeft es h => exact .sendRight es fun a ha hto b hb => (h b hb a ha hto).symm
  | sendRight es h => exact .sendLeft es fun a ha b hb hto => (h b hb hto a ha).symm
  | arriveLeft e r h => exact .arriveRight e r h
  | arriveRight e r h => exact .arriveLeft e r h

/-- The left log is ahead by what is on its way to the right. -/
def Ahead (logs : Logs α) : Prop := logs.left = logs.right ++ logs.toRight ∧ logs.toLeft = []

theorem Ahead.move {cs : Prop} (h : l.Ahead) (hmove : l.Move cs l') (hno : ¬ cs) : l'.InStep := by
  obtain ⟨h, hleft⟩ := h
  cases hmove with
  | sendLeft es hne => exact Or.inl ⟨by rw [h, append_assoc], hleft⟩
  | sendRight es hne =>
    by_cases hnil : es = []
    · rw [hnil, append_nil, append_nil]
      exact Or.inl ⟨h, hleft⟩
    · have hr : l.toRight = [] := Decidable.of_not_not fun hto => hno ⟨hnil, hto⟩
      refine Or.inr ⟨?_, hr⟩
      rw [h, hleft, hr, append_nil, nil_append]
  | arriveLeft e r hto => exact absurd (hto.symm.trans hleft) (cons_ne_nil _ _)
  | arriveRight e r hto => exact Or.inl ⟨by rw [h, hto, append_assoc]; rfl, hleft⟩

/-- **A move that crosses nothing keeps the logs in step.** -/
theorem InStep.move {cs : Prop} (h : l.InStep) (hmove : l.Move cs l') (hno : ¬ cs) : l'.InStep := by
  rcases h with h | h
  · exact Ahead.move h hmove hno
  · exact (@Ahead.move _ l.swap _ _ h hmove.swap hno).symm

/-! ### Diverged -/

theorem getElem?_length_append_cons (log : List α) (e : α) (r : List α) :
    (log ++ e :: r)[log.length]? = some e := by
  rw [getElem?_append_right (Nat.le_refl _), Nat.sub_self]
  rfl

theorem Ahead.cross {cs : Prop} (h : l.Ahead) (hmove : l.Move cs l')
    (hcros : cs) : l'.Diverged := by
  obtain ⟨h, hleft⟩ := h
  cases hmove with
  | sendLeft es hne => exact absurd hleft hcros.2
  | sendRight es hne =>
    obtain ⟨e, es', rfl⟩ := exists_cons_of_ne_nil hcros.1
    obtain ⟨o, r, hto⟩ := exists_cons_of_ne_nil hcros.2
    refine ⟨l.right.length, o, e, ?_, getElem?_length_append_cons _ _ _, ?_⟩
    · rw [h, hto]
      exact getElem?_length_append_cons _ _ _
    · have hmem : o ∈ l.toRight := hto ▸ mem_cons_self
      exact hne o (h ▸ mem_append_right _ hmem) hmem e mem_cons_self
  | arriveLeft e r hto | arriveRight e r hto => exact hcros.elim

/-- **An entry sent against one on its way takes its index.** -/
theorem InStep.cross {cs : Prop} (h : l.InStep) (hmove : l.Move cs l')
    (hcros : cs) : l'.Diverged := by
  rcases h with h | h
  · exact Ahead.cross h hmove hcros
  · obtain ⟨i, a, b, ha, hb, hne⟩ := @Ahead.cross _ l.swap _ _ h hmove.swap hcros
    exact ⟨i, b, a, hb, ha, hne.symm⟩

theorem getElem?_append_of_some {log m : List α} {i : Nat} {a : α} (h : log[i]? = some a) :
    (log ++ m)[i]? = some a := by
  have hi : i < log.length := (List.getElem?_eq_some_iff.mp h).1
  rw [getElem?_append_left hi, h]

/-- **Logs that differ at an index stay different there.** -/
theorem Diverged.move {cs : Prop} (h : l.Diverged) (hmove : l.Move cs l') : l'.Diverged := by
  obtain ⟨i, a, b, ha, hb, hne⟩ := h
  cases hmove with
  | sendLeft es _ | arriveLeft e r _ => exact ⟨i, a, b, getElem?_append_of_some ha, hb, hne⟩
  | sendRight es _ | arriveRight e r _ => exact ⟨i, a, b, ha, getElem?_append_of_some hb, hne⟩

theorem Diverged.ne (h : l.Diverged) : l.left ≠ l.right := by
  obtain ⟨i, a, b, ha, hb, hne⟩ := h
  intro heq
  rw [heq, hb] at ha
  exact hne (Option.some.inj ha).symm

end Logs

end SushiGpt
