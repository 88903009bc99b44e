/-
Journals: lists of recorded changes, and what it means to replay one.

A component that changes a state and writes down what it did has two stories to
tell about the same run, the states it went through and the entries it wrote.
`Replays s entries s'` says that the second story is the first one: each entry
describes correctly what it was recorded about, in the state in which it was
recorded, and applying the entries in order leads from `s` to `s'`.

The loop here is the shape such components have: a body run once per item, which
may stop the whole loop with an error and leaves a state behind either way.
-/
import Mathlib.Data.List.Basic

namespace SushiGpt

/-! ### Loops that may stop -/

namespace Loop

variable {σ α ε : Type*}

/-- Runs `body` on each item until one of them stops the loop. -/
def run (body : σ → α → σ × Except ε Unit) : List α → σ → σ × Except ε Unit
  | [], s => (s, .ok ())
  | a :: rest, s =>
    match body s a with
    | (s', .ok _) => run body rest s'
    | (s', .error e) => (s', .error e)

end Loop

/-! ### Replaying a journal -/

namespace Journal

variable {σ ε : Type*} (apply : σ → ε → σ) (records : σ → ε → Prop)

/-- `entries` is a correct account of how `s` became `s'`. -/
def Replays : σ → List ε → σ → Prop
  | s, [], s' => s = s'
  | s, e :: rest, s' => records s e ∧ Replays (apply s e) rest s'

variable {apply records}

theorem Replays.nil (s : σ) : Replays apply records s [] s := rfl

theorem replays_append_iff {first : List ε} : ∀ {s s' : σ} {second : List ε},
    Replays apply records s (first ++ second) s' ↔
      ∃ m, Replays apply records s first m ∧ Replays apply records m second s' := by
  induction first with
  | nil => exact fun {s} => ⟨fun h => ⟨s, rfl, h⟩, fun ⟨_, rfl, h⟩ => h⟩
  | cons e r ih =>
    intro s s' second
    simp only [List.cons_append, Replays, ih, exists_and_left, and_assoc]

/-- Entries that tell all that they change lead to one end from one start only. -/
theorem Replays.start_unique
    (hback : ∀ s t e, records s e → records t e → apply s e = apply t e → s = t) :
    ∀ {es : List ε} {s t s' : σ}, Replays apply records s es s' → Replays apply records t es s' →
      s = t := by
  intro es
  induction es with
  | nil => exact fun h h' => h.trans h'.symm
  | cons e r ih => exact fun h h' => hback _ _ e h.1 h'.1 (ih h.2 h'.2)

/-- One more entry, recorded in the state the journal leads to. -/
theorem Replays.single {s s' : σ} {e : ε} (hrec : records s e) (happ : apply s e = s') :
    Replays apply records s [e] s' := ⟨hrec, happ⟩

/-- The end of a replay is determined by its entries: it is the fold over them. -/
theorem Replays.foldl_eq : ∀ {es : List ε} {s s' : σ},
    Replays apply records s es s' → es.foldl apply s = s' := by
  intro es
  induction es with
  | nil => intro s s' h; exact h
  | cons e r ih => intro s s' h; exact ih h.2

/-- **A component that follows a journal entry by entry follows the states it is about.** -/
theorem Replays.follow {τ : Type*} (st : τ → ε → τ) (inv : List ε → σ → τ → Prop)
    (hs : ∀ d s t e, inv d s t → records s e → inv (d ++ [e]) (apply s e) (st t e)) :
    ∀ {es : List ε} {d : List ε} {s s' : σ} {t : τ},
      Replays apply records s es s' → inv d s t → inv (d ++ es) s' (es.foldl st t) := by
  intro es
  induction es with
  | nil =>
    intro d s s' t h hinv
    obtain rfl : s = s' := h
    rwa [List.append_nil]
  | cons e r ih =>
    intro d s s' t h hinv
    have hrest := ih h.2 (hs d s t e hinv h.1)
    rwa [List.append_assoc] at hrest

end Journal

end SushiGpt
