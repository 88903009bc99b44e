/-
Removing the oldest item.

A call and its output name each other by an id; a function output answers the calls of functions
and those of the local shell.  Where each id has one call and one output of its kind, the search for
the counterpart can hit nothing else, so what is left is paired again and the removals go on until
nothing is left.
-/
import SushiGpt.Core.ContextManager
import SushiGpt.Lib.Halves

namespace SushiGpt.Core

open ContextManager Halves

inductive PairKind where
  | function
  | toolSearch
  | customTool
  deriving DecidableEq

structure Half where
  isCall : Bool
  kind : PairKind
  callId : Text
  deriving DecidableEq

def Half.other (half : Half) : Half :=
  { half with isCall := !half.isCall }

/-- What an item with a call id is; a call of the local shell is answered as one of a function. -/
def ResponseItem.half : ResponseItem → Option Half
  | .functionCall _ callId _ _ => some ⟨true, .function, callId⟩
  | .localShellCall _ callId _ _ => callId.map (⟨true, .function, ·⟩)
  | .functionCallOutput _ callId _ _ => callId.map (⟨false, .function, ·⟩)
  | .toolSearchCall _ callId _ _ => callId.map (⟨true, .toolSearch, ·⟩)
  | .toolSearchOutput _ callId _ _ => callId.map (⟨false, .toolSearch, ·⟩)
  | .customToolCall _ callId _ _ => some ⟨true, .customTool, callId⟩
  | .customToolCallOutput _ callId _ _ => some ⟨false, .customTool, callId⟩
  | _ => none

abbrev ResponseItemEnvelope.half (envelope : ResponseItemEnvelope) : Option Half :=
  envelope.item.half

/-- Each id in the history has one call and one output of its kind. -/
abbrev FullyPaired (items : List ResponseItemEnvelope) : Prop :=
  Paired ResponseItemEnvelope.half Half.other items

variable {l : List ResponseItemEnvelope} {i : ResponseItem} {h : Half} {c : ContextManager}

theorem removeCorrespondingFor_of_none (hh : i.half = none) : removeCorrespondingFor l i = l := by
  unfold removeCorrespondingFor
  split <;> simp_all [ResponseItem.half]

theorem eraseP_congr {α : Type} {p q : α → Bool} {l : List α}
    (hpq : ∀ a ∈ l, p a = true ↔ q a = true) : l.eraseP p = l.eraseP q := by
  induction l with
  | nil => rfl
  | cons a l ih =>
    rw [List.eraseP_cons, List.eraseP_cons, Bool.eq_iff_iff.mpr (hpq a List.mem_cons_self),
      ih fun b hb => hpq b (List.mem_cons_of_mem a hb)]

theorem eq_of_countP_le_one {α : Type} {p : α → Bool} {l : List α} {a b : α} (hone : l.countP p ≤ 1)
    (ha : a ∈ l) (hb : b ∈ l) (hpa : p a = true) (hpb : p b = true) : a = b := by
  rw [List.countP_eq_length_filter] at hone
  obtain ⟨i, hi, hai⟩ := List.getElem_of_mem (List.mem_filter.mpr ⟨ha, hpa⟩)
  obtain ⟨j, hj, hbj⟩ := List.getElem_of_mem (List.mem_filter.mpr ⟨hb, hpb⟩)
  obtain ⟨rfl, rfl⟩ : i = 0 ∧ j = 0 := by omega
  exact hai.symm.trans hbj

theorem half_iff (cid : Text) (i : ResponseItem) :
    (isFunctionCallOutputFor cid i = true ↔ i.half = some ⟨false, .function, cid⟩) ∧
    (isToolSearchOutputFor cid i = true ↔ i.half = some ⟨false, .toolSearch, cid⟩) ∧
    (isToolSearchCallFor cid i = true ↔ i.half = some ⟨true, .toolSearch, cid⟩) ∧
    (isCustomToolCallOutputFor cid i = true ↔ i.half = some ⟨false, .customTool, cid⟩) ∧
    (isCustomToolCallFor cid i = true ↔ i.half = some ⟨true, .customTool, cid⟩) ∧
    (isFunctionCallFor cid i = true ∨ isLocalShellCallFor cid i = true ↔
      i.half = some ⟨true, .function, cid⟩) := by
  cases i <;> simp [ResponseItem.half, isFunctionCallOutputFor, isToolSearchOutputFor,
    isToolSearchCallFor, isCustomToolCallOutputFor, isCustomToolCallFor, isFunctionCallFor,
    isLocalShellCallFor]

theorem removeCorrespondingFor_of_half (hh : i.half = some h)
    (hone : l.countP (isHalf ResponseItemEnvelope.half h.other) ≤ 1) :
    removeCorrespondingFor l i = l.eraseP (isHalf ResponseItemEnvelope.half h.other) := by
  have hsearch {p : ResponseItem → Bool}
      (hp : ∀ e ∈ l, p e.item = true ↔ e.item.half = some h.other) :
      removeFirstMatching l p = l.eraseP (isHalf ResponseItemEnvelope.half h.other) :=
    eraseP_congr fun e he => (hp e he).trans beq_iff_eq.symm
  cases i with
  | functionCall id cid =>
    cases hh
    exact hsearch fun e _ => (half_iff cid e.item).1
  | customToolCall id cid =>
    cases hh
    exact hsearch fun e _ => (half_iff cid e.item).2.2.2.1
  | customToolCallOutput id cid =>
    cases hh
    exact hsearch fun e _ => (half_iff cid e.item).2.2.2.2.1
  | localShellCall id cid =>
    obtain ⟨cid, rfl, rfl⟩ := Option.map_eq_some_iff.mp hh
    exact hsearch fun e _ => (half_iff cid e.item).1
  | toolSearchCall id cid =>
    obtain ⟨cid, rfl, rfl⟩ := Option.map_eq_some_iff.mp hh
    exact hsearch fun e _ => (half_iff cid e.item).2.1
  | toolSearchOutput id cid =>
    obtain ⟨cid, rfl, rfl⟩ := Option.map_eq_some_iff.mp hh
    exact hsearch fun e _ => (half_iff cid e.item).2.2.1
  | functionCallOutput id cid =>
    obtain ⟨cid, rfl, rfl⟩ := Option.map_eq_some_iff.mp hh
    have hcall (e : ResponseItemEnvelope) := (half_iff cid e.item).2.2.2.2.2
    by_cases hany : l.any fun e => isFunctionCallFor cid e.item
    · -- The function call that is found is the only call with this id.
      obtain ⟨b, hb, hpb⟩ := List.any_eq_true.mp hany
      rw [removeCorrespondingFor, if_pos hany]
      refine hsearch fun e he => ⟨fun hpe => (hcall e).mp (.inl hpe), fun hhalf => ?_⟩
      rwa [eq_of_countP_le_one hone he hb (beq_iff_eq.mpr hhalf)
        (beq_iff_eq.mpr ((hcall b).mp (.inl hpb)))]
    · rw [removeCorrespondingFor, if_neg hany]
      simp only [List.any_eq_true, not_exists, not_and] at hany
      exact hsearch fun e he => (or_iff_right (hany e he)).symm.trans (hcall e)
  | _ => cases hh

/-- What is taken out together with the first item: its other half, if it is one. -/
def Counterparts (first : ResponseItemEnvelope) (taken : List ResponseItemEnvelope) : Prop :=
  (first.half = none ∧ taken = []) ∨
    ∃ e h, first.half = some h ∧ e.half = some h.other ∧ taken = [e]

theorem removeFirstItem_step {first : ResponseItemEnvelope}
    (hitems : c.items = first :: l) (hp : FullyPaired c.items) :
    FullyPaired c.removeFirstItem.items ∧ ∃ b t a,
      l = b ++ t ++ a ∧ Counterparts first t ∧ c.removeFirstItem.items = b ++ a := by
  have hremove : c.removeFirstItem.items = removeCorrespondingFor l first.item := by
    rw [removeFirstItem, hitems]
  rw [hitems] at hp
  rw [hremove]
  cases hh : first.half with
  | none =>
    rw [removeCorrespondingFor_of_none hh]
    exact ⟨hp.of_cons hh, [], [], l, rfl, .inl ⟨hh, rfl⟩, rfl⟩
  | some h =>
    have hone := (hp first List.mem_cons_self h hh).2
    rw [List.countP_cons] at hone
    obtain ⟨b, e, a, rfl, he, herase, hpaired⟩ :=
      hp.eraseP (fun h => by cases h; simp [Half.other]) (fun h => by simp [Half.other]) hh
    rw [removeCorrespondingFor_of_half hh (by omega), herase]
    exact ⟨hpaired, b, [e], a, by simp, .inr ⟨e, h, hh, he, rfl⟩, rfl⟩

theorem removeFirstItem_iterate (hp : FullyPaired c.items) (n : Nat) :
    FullyPaired (removeFirstItem^[n] c).items ∧
      (removeFirstItem^[n] c).items.length ≤ c.items.length - n := by
  induction n with
  | zero => exact ⟨hp, le_rfl⟩
  | succ n ih =>
    obtain ⟨hp, hlen⟩ := ih
    rw [Function.iterate_succ_apply']
    generalize removeFirstItem^[n] c = left at hp hlen
    cases hitems : left.items with
    | nil =>
      rw [removeFirstItem, hitems]
      exact ⟨hp, by simp [hitems]⟩
    | cons first r =>
      obtain ⟨hp', b, t, a, rfl, -, hleft⟩ := removeFirstItem_step hitems hp
      refine ⟨hp', ?_⟩
      rw [hitems, List.length_cons] at hlen
      rw [hleft]
      simp only [List.length_append] at hlen ⊢
      omega

/-- **Removing the oldest item of a paired history takes out that item and its counterpart only;
however often it is done, the history stays paired, and in the end it is empty.** -/
theorem removeFirstItem_paired (hp : FullyPaired c.items) :
    (∀ first rest, c.items = first :: rest → ∃ before taken after,
      rest = before ++ taken ++ after ∧ Counterparts first taken ∧
        c.removeFirstItem.items = before ++ after) ∧
    (∀ n, FullyPaired (removeFirstItem^[n] c).items) ∧
    (removeFirstItem^[c.items.length] c).items = [] := by
  refine ⟨fun first rest hitems => (removeFirstItem_step hitems hp).2,
    fun n => (removeFirstItem_iterate hp n).1, ?_⟩
  have hlen := (removeFirstItem_iterate hp c.items.length).2
  exact List.eq_nil_of_length_eq_zero (by omega)

/-- An output before its shell call, and a custom tool's call under the same id. -/
theorem removeFirstItem_shell_call :
    let history : ContextManager := ⟨[.functionCallOutput none (some "a".toList) [] none,
      .customToolCall none "a".toList [] none, .localShellCall none (some "a".toList) [] none,
      .customToolCallOutput none "a".toList [] none].map (⟨·, none⟩), none⟩
    FullyPaired history.items ∧ (removeFirstItem^[history.items.length] history).items = [] := by
  intro history
  have hp : FullyPaired history.items := by decide
  exact ⟨hp, (removeFirstItem_paired hp).2.2⟩

end SushiGpt.Core
