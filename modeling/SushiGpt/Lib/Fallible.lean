/-
Runs of fallible steps.

A loop that stops at the first error is a monadic fold over `Except`.  What one successful
step keeps, a successful run keeps.
-/
import Mathlib.Data.List.Basic

namespace SushiGpt

open List

universe u

variable {α β : Type u} {ε σ : Type*}

theorem ok_bind {a : α} {next : α → Except ε β} : (Except.ok a >>= next) = next a := rfl

/-- A successful bind is two successes. -/
theorem bind_eq_ok {first : Except ε α} {next : α → Except ε β} {b : β} :
    (first >>= next) = .ok b ↔ ∃ a, first = .ok a ∧ next a = .ok b := by
  cases first with
  | error e => exact ⟨nofun, nofun⟩
  | ok a =>
    refine ⟨fun h => ⟨a, rfl, h⟩, ?_⟩
    rintro ⟨a', h, hnext⟩
    cases h
    exact hnext

theorem map_eq_ok {first : Except ε α} {f : α → β} {b : β} :
    first.map f = .ok b ↔ ∃ a, first = .ok a ∧ f a = b := by
  cases first with
  | error e => exact ⟨nofun, fun ⟨_, h, _⟩ => nomatch h⟩
  | ok a => simp [Except.map]

/-- **A property that every successful step keeps holds at the end of a successful run.** -/
theorem foldlM_keeps {st : σ → α → Except ε σ} (ks : σ → Prop) (l : List α)
    (hst : ∀ s, ∀ x ∈ l, ∀ s', ks s → st s x = .ok s' → ks s') :
    ∀ s s' : σ, ks s → l.foldlM st s = .ok s' → ks s' := by
  induction l with
  | nil =>
    intro s s' hs hrun
    cases hrun
    exact hs
  | cons x r ih =>
    intro s s' hs hrun
    rw [foldlM_cons, bind_eq_ok] at hrun
    obtain ⟨mid, hmid, hrest⟩ := hrun
    refine ih (fun s x hx => hst s x (mem_cons_of_mem _ hx)) mid s' ?_ hrest
    exact hst s x mem_cons_self mid hs hmid

theorem mapM_eq_ok_map {f : α → Except ε β} {g : α → β} : ∀ {l : List α},
    (∀ x ∈ l, f x = .ok (g x)) → l.mapM f = .ok (l.map g)
  | [], _ => rfl
  | x :: r, h => by
    rw [mapM_cons, h x mem_cons_self, mapM_eq_ok_map fun y hy => h y (mem_cons_of_mem _ hy)]
    rfl

/-- What a successful traversal returns comes from its steps. -/
theorem exists_of_mem_mapM {f : α → Except ε β} : ∀ {l : List α} {results : List β} {b : β},
    l.mapM f = .ok results → b ∈ results → ∃ a ∈ l, f a = .ok b
  | [], results, b, h, hb => by
    cases h
    cases hb
  | x :: r, results, b, h, hb => by
    rw [mapM_cons, bind_eq_ok] at h
    obtain ⟨first, hfst, h⟩ := h
    rw [bind_eq_ok] at h
    obtain ⟨os, hoth, h⟩ := h
    cases h
    rcases mem_cons.mp hb with rfl | hb
    · exact ⟨x, mem_cons_self, hfst⟩
    · obtain ⟨a, ha, hab⟩ := exists_of_mem_mapM hoth hb
      exact ⟨a, mem_cons_of_mem _ ha, hab⟩

end SushiGpt
