/-
Plans of edits to a store: all at once against one by one.

A plan lists edits to a keyed store.  Each edit names one key, its target, reads what
the target holds and then rewrites it, drops it, or moves what it makes of it to
another key.  A plan has two meanings.  Read all at once, every edit looks at the
store the plan starts from, and together they describe the store it should end in.
Run one by one, every edit looks at what the edits before it left.

No two edits of a plan share a target, but the destination of a move may be the
target of another edit, or another move's destination.  `Compatible` is what the
destinations have to satisfy, and `runAll_describes_iff` says that it is exactly the
condition under which the two meanings agree.
-/
import Mathlib.Data.List.Induction
import Mathlib.Data.List.Nodup

namespace SushiGpt

open List Option Function

/-- A keyed store. -/
abbrev Store (K V : Type*) := K → Option V

/-- An edit.  `set` rewrites its key from what it holds, which may be nothing. -/
inductive Edit (K V : Type*) where
  | set (key : K) (f : Option V → Option V)
  | drop (key : K)
  | move (source dest : K) (f : V → Option V)

namespace Edit

variable {K V : Type*} {s s' : Store K V}

def target : Edit K V → K
  | .set key _ => key
  | .drop key => key
  | .move source _ _ => source

def removes : Edit K V → Option K
  | .set _ _ => none
  | .drop key => some key
  | .move source _ _ => some source

def writes : Edit K V → Option K
  | .set key _ => some key
  | .drop _ => none
  | .move _ dest _ => some dest

/-- What the edit makes of the contents of its target; `none` when it does not apply. -/
def value : Edit K V → Option V → Option V
  | .set _ f, held => f held
  | .drop _, held => held
  | .move _ _ f, held => held.bind f

variable {e : Edit K V}

theorem removes_eq_target {k : K} (h : e.removes = some k) : e.target = k := by
  cases e with
  | set key f => cases h
  | drop key | move src d f => exact some.inj h

theorem removes_target_of_writes_ne (h : e.writes ≠ some e.target) : e.removes = some e.target := by
  cases e with
  | set key f => exact absurd rfl h
  | drop key | move src d f => rfl

variable [DecidableEq K]

def run (e : Edit K V) (s : Store K V) : Option (Store K V) :=
  (e.value (s e.target)).map fun v k =>
    if e.removes = some k then none else if e.writes = some k then some v else s k

theorem run_writes {k : K} (h : e.run s = some s') (hk : e.writes = some k)
    (hr : e.removes ≠ some k) : s' k = e.value (s e.target) := by
  obtain ⟨v, hv, rfl⟩ := map_eq_some_iff.1 h
  simp [hk, hr, hv]

theorem run_frame {k : K} (h : e.run s = some s') (hw : e.writes ≠ some k)
    (hr : e.removes ≠ some k) : s' k = s k := by
  obtain ⟨v, -, rfl⟩ := map_eq_some_iff.1 h
  simp [hw, hr]

theorem run_set (k : K) (f : Option V → Option V) (s : Store K V) :
    (set k f).run s = (f (s k)).map fun v => update s k (some v) := by
  rw [run]
  congr 1
  funext v j
  by_cases hj : j = k
  · subst hj; simp [removes, writes]
  · simp [removes, writes, hj, Ne.symm hj]

theorem run_drop (k : K) (s : Store K V) : (drop k).run s = (s k).map fun _ => update s k none := by
  rw [run]
  congr 1
  funext v j
  by_cases hj : j = k
  · subst hj; simp [removes]
  · simp [removes, writes, hj, Ne.symm hj]

theorem run_move (a b : K) (f : V → Option V) (s : Store K V) :
    (move a b f).run s = ((s a).bind f).map fun v => update (update s b (some v)) a none := by
  rw [run]
  congr 1
  funext v j
  by_cases ha : j = a
  · subst ha; simp [removes]
  · by_cases hb : j = b
    · subst hb; simp [removes, writes, ha, Ne.symm ha]
    · simp [removes, writes, ha, hb, Ne.symm ha, Ne.symm hb]

def runAll : List (Edit K V) → Store K V → Option (Store K V)
  | [], s => some s
  | e :: rest, s => (e.run s).bind (runAll rest)

theorem runAll_append : ∀ (first second : List (Edit K V)) (s : Store K V),
    runAll (first ++ second) s = (runAll first s).bind (runAll second) := by
  intro first
  induction first with
  | nil => intro second s; rfl
  | cons e r ih =>
    intro second s
    rw [cons_append, runAll, runAll]
    cases e.run s with
    | none => rfl
    | some s' => exact ih second s'

theorem runAll_frame : ∀ {plan : List (Edit K V)} {s s' : Store K V} {k : K},
    runAll plan s = some s' → (∀ e ∈ plan, e.writes ≠ some k ∧ e.removes ≠ some k) →
      s' k = s k := by
  intro plan
  induction plan with
  | nil =>
    intro s s' k h _
    rw [← some.inj h]
  | cons e r ih =>
    intro s s' k h hk
    obtain ⟨m, hm, hrest⟩ := bind_eq_some_iff.1 h
    have he := hk e (mem_cons_self ..)
    rw [ih hrest fun e' he' => hk e' (mem_cons_of_mem _ he'), run_frame hm he.1 he.2]

end Edit

/-! ### The two meanings -/

namespace Plan

open Edit

variable {K V : Type*}

/-- What the plan describes when all its edits look at `s`. -/
structure Describes (s : Store K V) (plan : List (Edit K V)) (s' : Store K V) : Prop where
  removed : ∀ e ∈ plan, ∀ k, e.removes = some k → s' k = none
  written : ∀ e ∈ plan, ∀ k, e.writes = some k → s' k = e.value (s e.target)
  kept : ∀ k, (∀ e ∈ plan, e.writes ≠ some k ∧ e.removes ≠ some k) → s' k = s k

/-- The description contradicts itself nowhere. -/
structure Consistent (s : Store K V) (plan : List (Edit K V)) : Prop where
  /-- What one edit removes, no edit writes. -/
  apart : ∀ e ∈ plan, ∀ e' ∈ plan, ∀ k, e.removes = some k → e'.writes ≠ some k
  /-- Edits that write the same key write the same value. -/
  agree : ∀ e ∈ plan, ∀ e' ∈ plan, ∀ k, e.writes = some k → e'.writes = some k →
    e.value (s e.target) = e'.value (s e'.target)

/-- The two meanings of the plan agree. -/
structure Compatible (s : Store K V) (plan : List (Edit K V)) : Prop
    extends Consistent s plan where
  /-- A key written before its own edit comes up: the edit still applies, and what it
  makes of the value is the value again unless a later edit writes that key once more. -/
  settled : ∀ pre k f post, plan = pre ++ .set k f :: post →
    ∀ e ∈ pre, e.writes = some k → ∀ v, e.value (s e.target) = some v →
      ∃ u, f (some v) = some u ∧ (u = v ∨ ∃ e' ∈ post, e'.writes = some k)

variable {s s' m m' : Store K V} {pre p first second : List (Edit K V)} {e : Edit K V} {k : K}
  {f : Option V → Option V}

theorem Consistent.of_append (h : Consistent s (first ++ second)) : Consistent s first where
  apart e he e' he' := h.apart e (mem_append_left _ he) e' (mem_append_left _ he')
  agree e he e' he' := h.agree e (mem_append_left _ he) e' (mem_append_left _ he')

theorem nodup_of_append (h : ((first ++ second).map target).Nodup) : (first.map target).Nodup := by
  rw [map_append] at h
  exact (nodup_append.1 h).1

/-- A target named once is named by no edit before and no edit after. -/
theorem target_ne_of_nodup (h : ((pre ++ e :: p).map target).Nodup) :
    (∀ e' ∈ pre, e'.target ≠ e.target) ∧ (∀ e' ∈ p, e'.target ≠ e.target) := by
  rw [map_append, map_cons, nodup_append] at h
  obtain ⟨-, hpost, hpre⟩ := h
  constructor
  · intro e' he'
    exact hpre _ (mem_map_of_mem he') _ (mem_cons_self ..)
  · intro e' he' heq
    exact (nodup_cons.1 hpost).1 (heq ▸ mem_map_of_mem he')

/-! ### Running a consistent plan

What is known of the store after a prefix of the plan. -/

structure Upto (s : Store K V) (pre : List (Edit K V)) (s' : Store K V) : Prop where
  removed : ∀ e ∈ pre, ∀ k, e.removes = some k → s' k = none
  /-- A move wrote the key and the key's own edit has not come up since. -/
  written : ∀ p e q, pre = p ++ e :: q → ∀ k, e.writes = some k → e.target ≠ k →
    (∀ e' ∈ q, e'.target ≠ k) → s' k = e.value (s e.target)
  kept : ∀ k, (∀ e ∈ pre, e.writes ≠ some k ∧ e.removes ≠ some k) → s' k = s k

/-- What an edit removes is still there when its turn comes. -/
theorem Upto.source (hupto : Upto s pre m) (hcons : Consistent s (pre ++ e :: p))
    (hnodup : ((pre ++ e :: p).map target).Nodup) (hk : e.removes = some k) :
    m e.target = s e.target := by
  have he : e ∈ pre ++ e :: p := mem_append_right _ (mem_cons_self ..)
  rw [removes_eq_target hk]
  refine hupto.kept k fun e' he' => ⟨hcons.apart e he e' (mem_append_left _ he') k hk, ?_⟩
  intro hr
  refine (target_ne_of_nodup hnodup).1 e' he' ?_
  rw [removes_eq_target hr, removes_eq_target hk]

/-- When a key's own edit comes up, the key holds what an earlier move put there, or
what it held at the start. -/
theorem Upto.before_set (hupto : Upto s pre m)
    (hnodup : ((pre ++ .set k f :: p).map target).Nodup) :
    (∀ e ∈ pre, e.writes = some k → m k = e.value (s e.target)) ∧
      ((∀ e ∈ pre, e.writes ≠ some k) → m k = s k) := by
  have hbefore := (target_ne_of_nodup hnodup).1
  constructor
  · intro e he hw
    obtain ⟨p, q, hsp⟩ := append_of_mem he
    refine hupto.written p e q hsp k hw (hbefore e he) fun e' he' => hbefore e' ?_
    rw [hsp]
    exact mem_append_right _ (mem_cons_of_mem _ he')
  · intro hn
    refine hupto.kept k fun e he => ⟨hn e he, fun hr => hbefore e he ?_⟩
    exact removes_eq_target hr

variable [DecidableEq K]

theorem Upto.step (hupto : Upto s pre m)
    (hcons : Consistent s (pre ++ [e])) (hnodup : ((pre ++ [e]).map target).Nodup)
    (hrun : e.run m = some m') : Upto s (pre ++ [e]) m' := by
  have he : e ∈ pre ++ [e] := mem_append_right _ (mem_singleton_self e)
  have hpre : ∀ {e'}, e' ∈ pre → e' ∈ pre ++ [e] := fun h => mem_append_left _ h
  -- An edit that writes another key than its target is a move: it read its source intact.
  have hmov : ∀ k, e.writes = some k → e.target ≠ k → m' k = e.value (s e.target) := by
    intro k hw ht
    have hr : e.removes = some e.target :=
      removes_target_of_writes_ne fun h => ht (some.inj (h.symm.trans hw))
    rw [run_writes hrun hw fun h => hcons.apart e he e he k h hw, hupto.source hcons hnodup hr]
  refine ⟨?_, ?_, ?_⟩
  · intro e' he' k hk
    by_cases hr : e.removes = some k
    · obtain ⟨v, -, rfl⟩ := map_eq_some_iff.1 hrun
      simp [hr]
    · rcases mem_append.1 he' with hmem | hmem
      · rw [run_frame hrun (hcons.apart e' he' e he k hk) hr]
        exact hupto.removed e' hmem k hk
      · rw [mem_singleton.1 hmem] at hk
        exact absurd hk hr
  · intro p e' q hsp k hw ht hq
    rcases eq_nil_or_concat q with rfl | ⟨q', last, rfl⟩
    · obtain ⟨-, heq⟩ := append_inj' hsp rfl
      obtain rfl : e = e' := singleton_inj.1 heq
      exact hmov k hw ht
    · rw [concat_eq_append] at hsp hq
      rw [← cons_append, ← append_assoc] at hsp
      obtain ⟨hpre', heq⟩ := append_inj' hsp rfl
      obtain rfl : e = last := singleton_inj.1 heq
      have hbefore := hupto.written p e' q' hpre' k hw ht fun e'' h => hq e'' (mem_append_left _ h)
      have hl : e.target ≠ k := hq e (mem_append_right _ (mem_singleton_self e))
      by_cases hwe : e.writes = some k
      · have he' : e' ∈ pre := by rw [hpre']; simp
        rw [hmov k hwe hl]
        exact hcons.agree e he e' (hpre he') k hwe hw
      · rw [run_frame hrun hwe fun h => hl (removes_eq_target h), hbefore]
  · intro k hk
    rw [run_frame hrun (hk e he).1 (hk e he).2]
    exact hupto.kept k fun e' he' => hk e' (hpre he')

theorem upto_of_run : ∀ (pre : List (Edit K V)) (m : Store K V),
    Consistent s pre → (pre.map target).Nodup → runAll pre s = some m → Upto s pre m := by
  intro pre
  induction pre using List.reverseRecOn with
  | nil =>
    intro m _ _ hrun
    obtain rfl := some.inj hrun
    refine ⟨nofun, ?_, fun _ _ => rfl⟩
    intro p e q hsp
    simp at hsp
  | append_singleton pre e ih =>
    intro m hcons hnodup hrun
    rw [runAll_append] at hrun
    obtain ⟨m1, hm1, hl⟩ := bind_eq_some_iff.1 hrun
    obtain ⟨m2, hm2, hnil⟩ := bind_eq_some_iff.1 hl
    obtain rfl := some.inj hnil
    exact (ih m1 hcons.of_append (nodup_of_append hnodup) hm1).step hcons hnodup hm2

/-- A plan run up to the edit of a key, which looks at what is there; the last word on the key is
that of the edit unless a later one writes it. -/
theorem split_at_set (hcons : Consistent s (pre ++ .set k f :: p))
    (hnodup : ((pre ++ .set k f :: p).map target).Nodup)
    (hrun : runAll (pre ++ .set k f :: p) s = some s') :
    ∃ m : Store K V, (∀ e ∈ pre, e.writes = some k → m k = e.value (s e.target)) ∧
      ((∀ e ∈ pre, e.writes ≠ some k) → m k = s k) ∧ (f (m k)).isSome ∧
      ((∀ e ∈ p, e.writes ≠ some k) → s' k = f (m k)) := by
  rw [runAll_append] at hrun
  obtain ⟨m, hm, hrest⟩ := bind_eq_some_iff.1 hrun
  obtain ⟨m', hm', hpost⟩ := bind_eq_some_iff.1 hrest
  obtain ⟨hmov, hfresh⟩ :=
    (upto_of_run pre m hcons.of_append (nodup_of_append hnodup) hm).before_set hnodup
  refine ⟨m, hmov, hfresh, ?_, fun hlat => ?_⟩
  · obtain ⟨u, hu, -⟩ := map_eq_some_iff.1 hm'
    exact isSome_iff_exists.2 ⟨u, hu⟩
  · have hmade : m' k = f (m k) := run_writes hm' rfl nofun
    rw [← hmade]
    refine runAll_frame hpost fun e he => ⟨hlat e he, fun h => ?_⟩
    exact hcons.apart e (by simp [he]) (.set k f) (by simp) k h rfl

/-! ### When the two meanings agree -/

section Agree

variable {plan : List (Edit K V)} (hnodup : (plan.map target).Nodup)
  (happlies : ∀ e ∈ plan, (e.value (s e.target)).isSome)
include hnodup happlies

/-- A plan that ends where it describes is compatible. -/
theorem compatible_of_describes (hrun : runAll plan s = some s') (hdesc : Describes s plan s') :
    Compatible s plan := by
  have hcons : Consistent s plan := by
    refine ⟨fun e he e' he' k hr hw => ?_, fun e he e' he' k hw hw' => ?_⟩
    · have hsome := happlies e' he'
      rw [← hdesc.written e' he' k hw, hdesc.removed e he k hr] at hsome
      cases hsome
    · rw [← hdesc.written e he k hw, hdesc.written e' he' k hw']
  refine ⟨hcons, ?_⟩
  intro pre k f p hsp e he hw v hv
  subst hsp
  obtain ⟨m, hmov, -, hsome, hend⟩ := split_at_set hcons hnodup hrun
  rw [hmov e he hw, hv] at hsome hend
  obtain ⟨u, hu⟩ := isSome_iff_exists.1 hsome
  refine ⟨u, hu, ?_⟩
  by_cases hlat : ∃ e' ∈ p, e'.writes = some k
  · exact .inr hlat
  · have hdes : s' k = some v := by
      rw [hdesc.written e (mem_append_left _ he) k hw, hv]
    rw [hend fun e' he' h => hlat ⟨e', he', h⟩, hu] at hdes
    exact .inl (some.inj hdes)

/-- Every edit of a compatible plan applies when its turn comes. -/
theorem runAll_of_compatible (hcom : Compatible s plan) :
    ∀ pre p, plan = pre ++ p → ∃ m, runAll pre s = some m := by
  intro pre
  induction pre using List.reverseRecOn with
  | nil => intro p _; exact ⟨s, rfl⟩
  | append_singleton pre e ih =>
    intro p hsp
    rw [append_assoc, singleton_append] at hsp
    obtain ⟨m, hm⟩ := ih (e :: p) hsp
    subst hsp
    have hcons := hcom.toConsistent
    have hupto := upto_of_run pre m hcons.of_append (nodup_of_append hnodup) hm
    have happ : (e.value (m e.target)).isSome := by
      by_cases hw : e.writes = some e.target
      · -- The edit rewrites its key, which an earlier move may have written.
        cases e with
        | drop key => cases hw
        | move src d f =>
          have hmem : move src d f ∈ pre ++ .move src d f :: p := by simp
          exact absurd hw (hcons.apart _ hmem _ hmem src rfl)
        | set k f =>
          obtain ⟨hmov, hfresh⟩ := hupto.before_set hnodup
          by_cases hear : ∃ e' ∈ pre, e'.writes = some k
          · obtain ⟨e', he', hw'⟩ := hear
            obtain ⟨v, hv⟩ := isSome_iff_exists.1 (happlies e' (mem_append_left _ he'))
            obtain ⟨u, hu, -⟩ := hcom.settled pre k f p rfl e' he' hw' v hv
            have hheld : m k = some v := by rw [hmov e' he' hw', hv]
            show (f (m k)).isSome
            rw [hheld, hu]
            rfl
          · have hheld : m k = s k := hfresh fun e' he' h => hear ⟨e', he', h⟩
            show (f (m k)).isSome
            rw [hheld]
            exact happlies (.set k f) (by simp)
      · rw [hupto.source hcons hnodup (removes_target_of_writes_ne hw)]
        exact happlies e (by simp)
    obtain ⟨m', hm'⟩ : ∃ m', e.run m = some m' := by
      obtain ⟨v, hv⟩ := isSome_iff_exists.1 happ
      exact ⟨_, by rw [run, hv]; rfl⟩
    refine ⟨m', ?_⟩
    rw [runAll_append, hm]
    show (e.run m).bind (runAll []) = some m'
    rw [hm']
    rfl

theorem describes_of_compatible (hcom : Compatible s plan) (hrun : runAll plan s = some s') :
    Describes s plan s' := by
  have hcons := hcom.toConsistent
  have hupto := upto_of_run plan s' hcons hnodup hrun
  refine ⟨hupto.removed, fun e he k hw => ?_, hupto.kept⟩
  by_cases hown : ∃ f, set k f ∈ plan
  · obtain ⟨f, hset⟩ := hown
    rw [hcons.agree e he _ hset k hw rfl]
    obtain ⟨pre, post, rfl⟩ := append_of_mem hset
    have haft := (target_ne_of_nodup hnodup).2
    by_cases hlat : ∃ e' ∈ post, e'.writes = some k
    · -- The last word on the key is a move's.
      obtain ⟨e', he', hw'⟩ := hlat
      obtain ⟨p, q, rfl⟩ := append_of_mem he'
      rw [← hcons.agree e' (by simp) _ hset k hw' rfl]
      refine hupto.written (pre ++ .set k f :: p) e' q (by simp) k hw' (haft e' he') ?_
      intro e'' he''
      exact haft e'' (by simp [he''])
    · obtain ⟨m, hmov, hfresh, -, hend⟩ := split_at_set hcons hnodup hrun
      rw [hend fun e' he' h => hlat ⟨e', he', h⟩]
      show f (m k) = f (s k)
      by_cases hear : ∃ e' ∈ pre, e'.writes = some k
      · obtain ⟨e', he', hw'⟩ := hear
        obtain ⟨v, hv⟩ := isSome_iff_exists.1 (happlies e' (by simp [he']))
        obtain ⟨u, hu, hl⟩ := hcom.settled pre k f post rfl e' he' hw' v hv
        obtain rfl : u = v := hl.resolve_right hlat
        have hplan : e'.value (s e'.target) = f (s k) :=
          hcons.agree e' (by simp [he']) _ hset k hw' rfl
        rw [hmov e' he' hw', hv, hu, ← hplan, hv]
      · rw [hfresh fun e' he' h => hear ⟨e', he', h⟩]
  · -- No edit has the key as its target: whoever has removes it, or sets it.
    have htgt : ∀ e' ∈ plan, e'.target ≠ k := by
      rintro e' he' rfl
      cases e' with
      | set key f => exact hown ⟨f, he'⟩
      | drop key => exact hcons.apart _ he' e he key rfl hw
      | move src d f => exact hcons.apart _ he' e he src rfl hw
    obtain ⟨p, q, rfl⟩ := append_of_mem he
    exact hupto.written p e q rfl k hw (htgt e he) fun e' he' => htgt e' (by simp [he'])

/--
**The two meanings of a plan agree exactly when it is compatible.**  The edits have
different targets and each of them applies to the store the plan starts from.
-/
theorem runAll_describes_iff :
    (∃ s', runAll plan s = some s' ∧ Describes s plan s') ↔ Compatible s plan := by
  constructor
  · rintro ⟨s', hrun, hdesc⟩
    exact compatible_of_describes hnodup happlies hrun hdesc
  · intro hcom
    obtain ⟨s', hrun⟩ := runAll_of_compatible hnodup happlies hcom plan [] (by simp)
    exact ⟨s', hrun, describes_of_compatible hnodup happlies hcom hrun⟩

end Agree

end Plan

end SushiGpt
