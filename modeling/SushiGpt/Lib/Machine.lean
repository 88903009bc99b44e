/-
Machines: a state and the actions that are enabled in it.

An interleaving of several tasks is a run of the machine whose actions are theirs.  A run is a
list of actions each of which is enabled when its turn comes; what every step keeps, every run
keeps.
-/
import Mathlib.Data.List.Basic

namespace SushiGpt.Machine

variable {σ α : Type*} (st : σ → α → Option σ)

/-- The state after the actions; `none` when one of them is not enabled. -/
def run : σ → List α → Option σ
  | s, [] => some s
  | s, a :: rest => (st s a).bind fun next => run next rest

variable {st} {s s' : σ} {a : α} {acts m : List α}

theorem run_cons : run st s (a :: acts) = some s' ↔
    ∃ next, st s a = some next ∧ run st next acts = some s' :=
  Option.bind_eq_some_iff

theorem run_append : run st s (acts ++ m) = (run st s acts).bind (run st · m) := by
  induction acts generalizing s with
  | nil => rfl
  | cons a acts ih => simp [run, ih, Option.bind_assoc]

/-- **What every step keeps, every run keeps.** -/
theorem run_keeps (ks : σ → Prop) (hst : ∀ s a s', ks s → st s a = some s' → ks s') :
    ∀ (acts : List α) {s s' : σ}, ks s → run st s acts = some s' → ks s' := by
  intro acts
  induction acts with
  | nil =>
    intro s s' hs hrun
    cases hrun
    exact hs
  | cons a r ih =>
    intro s s' hs hrun
    obtain ⟨next, hnext, hrest⟩ := run_cons.mp hrun
    exact ih (hst s a next hs hnext) hrest

/-! ### Conditions on steps -/

variable (st) in
/-- Every action of the run meets the condition in the state in which it is taken. -/
def Along (meets : σ → α → Prop) : σ → List α → Prop
  | _, [] => True
  | s, a :: rest => meets s a ∧ ∀ next, st s a = some next → Along meets next rest

instance decidableAlong {meets : σ → α → Prop} [∀ s a, Decidable (meets s a)] :
    ∀ (s : σ) (actions : List α), Decidable (Along st meets s actions)
  | _, [] => .isTrue trivial
  | s, a :: rest =>
    match h : st s a with
    | none => decidable_of_iff (meets s a) (by simp [Along, h])
    | some next =>
      have : Decidable (Along st meets next rest) := decidableAlong next rest
      decidable_of_iff (meets s a ∧ Along st meets next rest) (by simp [Along, h])

variable (st) in
/-- The property holds at every point of the run. -/
def Throughout (keeps : σ → Prop) (s : σ) (actions : List α) : Prop :=
  ∀ earlier reached, earlier <+: actions → run st s earlier = some reached → keeps reached

/-- **A run whose actions meet the condition keeps the property.** -/
theorem throughout_of_along {ks : σ → Prop} {ms : σ → α → Prop}
    (hst : ∀ s a s', ks s → ms s a → st s a = some s' → ks s') :
    ∀ (acts : List α) {s : σ}, ks s → Along st ms s acts → Throughout st ks s acts := by
  intro acts s hs halong e
  induction e generalizing acts s with
  | nil =>
    intro r _ hrun
    cases hrun
    exact hs
  | cons a e ih =>
    rintro r ⟨rest, rfl⟩ hrun
    obtain ⟨next, hnext, hrun⟩ := run_cons.mp hrun
    exact ih (e ++ rest) (hst s a next hs halong.1 hnext) (halong.2 next hnext) r
      (List.prefix_append _ _) hrun

/-- **A run keeps a property exactly when every step of it meets the condition**, given that
a step from a state with the property keeps it exactly under the condition. -/
theorem throughout_iff_along {inv ks : σ → Prop} {ms : σ → α → Prop}
    (hinv : ∀ s a s', inv s → ks s → st s a = some s' → ks s' → inv s')
    (hst : ∀ s a s', inv s → ks s → st s a = some s' → (ks s' ↔ ms s a)) :
    ∀ (acts : List α) {s s' : σ}, inv s → ks s → run st s acts = some s' →
      (Throughout st ks s acts ↔ Along st ms s acts) := by
  intro acts s s' hsinv hs hrun
  constructor
  · intro h
    induction acts generalizing s with
    | nil => trivial
    | cons a rest ih =>
      obtain ⟨next, hnext, hrest⟩ := run_cons.mp hrun
      have haft : Throughout st ks next rest := fun e r hear hrun =>
        h (a :: e) r (List.cons_prefix_cons.mpr ⟨rfl, hear⟩) (run_cons.mpr ⟨next, hnext, hrun⟩)
      have hkeeps : ks next := haft [] next List.nil_prefix rfl
      refine ⟨(hst s a next hsinv hs hnext).mp hkeeps, fun next' hnext' => ?_⟩
      rw [hnext] at hnext'
      cases hnext'
      exact ih (hinv s a next hsinv hs hnext hkeeps) hkeeps hrest haft
  · intro h
    have hboth : Throughout st (fun s => inv s ∧ ks s) s acts := by
      refine throughout_of_along (fun s a s' hs hmeets hnext => ?_) acts ⟨hsinv, hs⟩ h
      have hkeeps := (hst s a s' hs.1 hs.2 hnext).mpr hmeets
      exact ⟨hinv s a s' hs.1 hs.2 hnext hkeeps, hkeeps⟩
    exact fun e r hear hrun => (hboth e r hear hrun).2

end SushiGpt.Machine
