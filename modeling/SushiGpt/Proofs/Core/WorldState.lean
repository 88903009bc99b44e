/-
Merge patches are exact.

A patch is read key by key: `patchAt` is what the patch says at a key, given what the two objects
have there, and `applyAt` what applying it leaves there.  The two meet in
`applyMergePatchValue_createMergePatch`, by induction on the current value, whose objects have no
null fields; for snapshots this says that the patch from one to the next, applied, gives the next.
-/
import SushiGpt.Core.WorldState

namespace SushiGpt.Core

open Json Option Ordered

open Json (insertField eraseField lookup Ordered Canonical NullFree)

variable {old new : List (Text × Json)} {ps c p : Json}

/-! ### A patch at one key -/

/-- What the patch between two objects has under a key. -/
def patchAt : Option Json → Option Json → Option Json
  | none, current => current
  | some _, none => some .null
  | some previous, some current => createMergePatch previous current

/-- What an object has under a key after a patch. -/
def applyAt (target : Option Json) : Option Json → Option Json
  | none => target
  | some .null => none
  | some patch => some (applyMergePatchValue (target.getD .null) patch)

theorem lookup_removals (ps c : List (Text × Json)) (key : Text) :
    lookup (removals ps c) key =
      if (lookup ps key).isSome ∧ (lookup c key).isNone then some .null
      else none := by
  suffices h : ∀ p, lookup (ps.foldl (fun p f =>
      if (lookup c f.1).isNone then insertField f.1 .null p else p) p)
      key = if (lookup ps key).isSome ∧ (lookup c key).isNone then some .null
        else lookup p key from h []
  induction ps with
  | nil => simp [lookup_nil]
  | cons f r ih =>
    intro p
    rw [List.foldl_cons, ih, lookup_cons]
    by_cases hkey : f.1 = key
    · subst hkey
      cases hcur : lookup c f.1 <;> simp [lookup_insertField]
    · have hkey' : key ≠ f.1 := Ne.symm hkey
      cases hcur : lookup c f.1 <;> simp [hkey, hkey', lookup_insertField]

theorem lookup_patchField (ps : Option (List (Text × Json))) (p : List (Text × Json))
    (f : Text × Json) (key : Text) :
    lookup (patchField ps p f) key =
      if f.1 = key then
        match ps.bind (lookup · key) with
        | none => some f.2
        | some v => (createMergePatch v f.2).or (lookup p key)
      else lookup p key := by
  obtain ⟨n, c⟩ := f
  unfold patchField
  by_cases hkey : n = key
  · subst hkey
    rw [if_pos rfl]
    cases hprev : ps.bind (lookup · n) with
    | none => exact lookup_insertField_self
    | some v =>
      dsimp only
      cases createMergePatch v c with
      | none => rfl
      | some change => exact lookup_insertField_self
  · rw [if_neg hkey]
    have hkey' : key ≠ n := Ne.symm hkey
    split
    · exact lookup_insertField_of_ne hkey'
    · split
      · exact lookup_insertField_of_ne hkey'
      · rfl

theorem lookup_patchFields (ps : Option (List (Text × Json))) (key : Text) :
    ∀ {fs : List (Text × Json)} (p : List (Text × Json)), Ordered fs →
      lookup (patchFields ps p fs) key =
        match lookup fs key with
        | none => lookup p key
        | some c =>
          match ps.bind (lookup · key) with
          | none => some c
          | some v => (createMergePatch v c).or (lookup p key) := by
  intro fs
  induction fs with
  | nil => intro p _; rfl
  | cons f r ih =>
    intro p hord
    rw [patchFields, ih _ (List.pairwise_cons.mp hord).2, lookup_cons, lookup_patchField]
    by_cases hkey : f.1 = key
    · subst hkey
      rw [hord.lookup_tail, if_pos rfl, if_pos rfl]
    · rw [if_neg hkey, if_neg hkey]

theorem lookup_patch {ps c : List (Text × Json)} (h : Ordered c) (key : Text) :
    lookup (patchFields (some ps) (removals ps c) c) key =
      patchAt (lookup ps key) (lookup c key) := by
  rw [lookup_patchFields _ _ _ h, lookup_removals]
  cases lookup c key with
  | none =>
    cases lookup ps key with
    | none | some _ => rfl
  | some v =>
    dsimp only [bind_some]
    cases lookup ps key with
    | none => rfl
    | some _ => simp [patchAt]

theorem lookup_applyField (t : List (Text × Json)) (f : Text × Json) (key : Text) :
    lookup (applyField t f) key =
      if f.1 = key then applyAt (lookup t key) (some f.2) else lookup t key := by
  obtain ⟨n, v⟩ := f
  unfold applyField
  by_cases hkey : n = key
  · subst hkey
    rw [if_pos rfl]
    cases v with
    | null => exact (lookup_eraseField).trans (if_pos rfl)
    | _ =>
      cases lookup t n with
      | none | some c => exact lookup_insertField_self
  · have hkey' : key ≠ n := Ne.symm hkey
    split_ifs
    · rw [lookup_eraseField, if_neg hkey']
    · split <;> exact lookup_insertField_of_ne hkey'

theorem lookup_applyFields (key : Text) :
    ∀ {p : List (Text × Json)} (t : List (Text × Json)), Ordered p →
      lookup (applyFields t p) key = applyAt (lookup t key) (lookup p key) := by
  intro p
  induction p with
  | nil => intro t _; rfl
  | cons f r ih =>
    intro t hord
    rw [applyFields, ih _ (List.pairwise_cons.mp hord).2, lookup_cons, lookup_applyField]
    by_cases hkey : f.1 = key
    · subst hkey
      rw [hord.lookup_tail, if_pos rfl, if_pos rfl]
      rfl
    · rw [if_neg hkey, if_neg hkey]

/-! ### The round trip -/

theorem createMergePatch_eq_none : createMergePatch ps c = none ↔ ps = c := by
  cases c <;> simp [createMergePatch]

theorem createMergePatch_ne_null (hcur : c ≠ .null)
    (h : createMergePatch ps c = some p) : p ≠ .null := by
  rintro rfl
  cases c with
  | null => exact hcur rfl
  | _ => simp [createMergePatch] at h

theorem applyAt_of_ne_null {t : Option Json} (h : p ≠ .null) :
    applyAt t (some p) = some (applyMergePatchValue (t.getD .null) p) := by
  cases p with
  | null => exact absurd rfl h
  | _ => rfl

/-- A value without null fields replaces what is not an object as it stands. -/
theorem applyMergePatchValue_of_nullFree {v : Json} (h : NullFree v) :
    Canonical v → ∀ {t : Json}, t.asObject = none → applyMergePatchValue t v = v := by
  induction h with
  | @obj fs pre h ih =>
    intro hcan t htgt
    have hfs : applyFields [] fs = fs := by
      refine ext ?_ hcan.ordered fun key => ?_
      · exact (canonical_applyFields
          (fun _ hf _ => canonical_applyMergePatchValue (hcan.field hf))
          canonical_empty).ordered
      · rw [lookup_applyFields key [] hcan.ordered, lookup_nil]
        cases hlk : lookup fs key with
        | none => rfl
        | some v =>
          have hmem := mem_of_lookup hlk
          rw [applyAt_of_ne_null (pre _ hmem)]
          exact congrArg some (ih _ hmem (hcan.lookup hlk) rfl)
    rw [applyMergePatchValue, htgt, getD_none, hfs]
  | _ =>
    intros
    rfl

theorem canonical_patch {ps : Option (List (Text × Json))} (hnew : Canonical (.obj new)) :
    Canonical (.obj (patchFields ps (removals old new) new)) :=
  canonical_patchFields (fun _ hf => hnew.field hf)
    (fun _ hf _ _ => canonical_createMergePatch (hnew.field hf))
    (canonical_removals old new)

/-- The patch of an object, applied to what it was taken from. -/
theorem applyFields_patchFields (hold : Canonical (.obj old)) (hnew : Canonical (.obj new))
    (hnull : NullFree (.obj new))
    (hval : ∀ key c, lookup new key = some c → ∀ ps, Canonical ps →
      ∀ p, createMergePatch ps c = some p → applyMergePatchValue ps p = c) :
    applyFields old (patchFields (some old) (removals old new) new) = new := by
  have hpat : Canonical (.obj (patchFields (some old) (removals old new) new)) :=
    canonical_patch hnew
  refine ext ?_ hnew.ordered fun key => ?_
  · exact (canonical_applyFields
      (fun _ hf _ => canonical_applyMergePatchValue (hpat.field hf)) hold).ordered
  rw [lookup_applyFields key old hpat.ordered, lookup_patch hnew.ordered]
  cases hlk : lookup new key with
  | none =>
    cases lookup old key with
    | none | some _ => rfl
  | some c =>
    have hcur : c ≠ .null := hnull.present hlk
    cases hprev : lookup old key with
    | none =>
      rw [patchAt, applyAt_of_ne_null hcur]
      exact congrArg some (applyMergePatchValue_of_nullFree (hnull.lookup hlk)
        (hnew.lookup hlk) rfl)
    | some ps =>
      rw [patchAt]
      cases hcreate : createMergePatch ps c with
      | none => exact congrArg some (createMergePatch_eq_none.mp hcreate)
      | some p =>
        rw [applyAt_of_ne_null (createMergePatch_ne_null hcur hcreate)]
        exact congrArg some (hval key c hlk ps (hold.lookup hprev) p hcreate)

/-- The patch of a value that was not an object is the value. -/
theorem patchFields_none (hnew : Canonical (.obj new)) :
    patchFields none (removals [] new) new = new := by
  refine ext (canonical_patch hnew).ordered hnew.ordered fun key => ?_
  rw [lookup_patchFields none key _ hnew.ordered, lookup_removals]
  cases lookup new key with
  | none | some _ => rfl

/-- **The patch from one value to another, applied to the first, gives the second.** -/
theorem applyMergePatchValue_createMergePatch (h : NullFree c) :
    Canonical c → ∀ {ps p : Json}, Canonical ps →
      createMergePatch ps c = some p →
      applyMergePatchValue ps p = c := by
  induction h with
  | @obj fs pre h ih =>
    intro hcan ps p hprev hcreate
    have hnull : NullFree (.obj fs) := .obj pre h
    unfold createMergePatch at hcreate
    split_ifs at hcreate
    obtain rfl := some.inj hcreate
    cases hobj : ps.asObject with
    | none =>
      rw [getD_none, patchFields_none hcan]
      exact applyMergePatchValue_of_nullFree hnull hcan hobj
    | some old =>
      obtain rfl : ps = .obj old := by
        cases ps <;> cases hobj
        rfl
      refine congrArg obj (applyFields_patchFields hprev hcan hnull ?_)
      intro key c hlk ps hprev p hcreate
      exact ih _ (mem_of_lookup hlk) (hcan.lookup hlk) hprev hcreate
  | _ =>
    intro _ ps p _ hcreate
    unfold createMergePatch at hcreate
    split_ifs at hcreate
    obtain rfl := some.inj hcreate
    rfl

/-- The patch has no field exactly when the objects are equal. -/
theorem patchFields_eq_nil (hold : Canonical (.obj old)) (hnew : Canonical (.obj new)) :
    patchFields (some old) (removals old new) new = [] ↔ old = new := by
  have hpat : Canonical (.obj (patchFields (some old) (removals old new) new)) :=
    canonical_patch hnew
  constructor
  · intro hem
    refine ext hold.ordered hnew.ordered fun key => ?_
    have hkey : _ = patchAt (lookup old key) _ := lookup_patch hnew.ordered key
    rw [hem, lookup_nil] at hkey
    cases hprev : lookup old key with
    | none =>
      rw [hprev] at hkey
      exact hkey
    | some ps =>
      cases hcur : lookup new key with
      | none =>
        rw [hprev, hcur] at hkey
        cases hkey
      | some c =>
        rw [hprev, hcur] at hkey
        exact congrArg some (createMergePatch_eq_none.mp hkey.symm)
  · rintro rfl
    refine ext hpat.ordered .nil fun key => ?_
    rw [lookup_patch hnew.ordered, lookup_nil]
    cases lookup old key with
    | none => rfl
    | some v => exact createMergePatch_eq_none.mpr rfl

/-- A patch settles each field: what it has done once it does not do again. -/
theorem applyFields_twice {p : List (Text × Json)} (hpat : Canonical (.obj p))
    (hold : Canonical (.obj old))
    (hval : ∀ f ∈ p, ∀ t, Canonical t →
      applyMergePatchValue (applyMergePatchValue t f.2) f.2 = applyMergePatchValue t f.2) :
    applyFields (applyFields old p) p = applyFields old p := by
  have happlied {t} (ht : Canonical (.obj t)) : Canonical (.obj (applyFields t p)) :=
    canonical_applyFields (fun _ hf _ => canonical_applyMergePatchValue (hpat.field hf)) ht
  refine ext (happlied (happlied hold)).ordered (happlied hold).ordered fun key => ?_
  rw [lookup_applyFields key _ hpat.ordered, lookup_applyFields key _ hpat.ordered]
  cases hlk : lookup p key with
  | none => rfl
  | some v =>
    by_cases hnull : v = .null
    · subst hnull
      rfl
    rw [applyAt_of_ne_null hnull, applyAt_of_ne_null hnull]
    refine congrArg some (hval _ (mem_of_lookup hlk) _ ?_)
    cases hcur : lookup old key with
    | none => exact .null
    | some current => exact hold.lookup hcur

theorem applyMergePatchValue_twice {p : Json} (h : Canonical p) :
    ∀ t, Canonical t →
      applyMergePatchValue (applyMergePatchValue t p) p = applyMergePatchValue t p := by
  induction h with
  | obj hord hfs ih =>
    intro t ht
    exact congrArg Json.obj (applyFields_twice (.obj hord hfs) (canonical_asObject ht) ih)
  | _ => exact fun _ _ => rfl

namespace WorldStateSnapshot

/-- **A patch that is replayed changes nothing.** -/
theorem applyMergePatch_idempotent (snapshot : WorldStateSnapshot) (patch : Json.Object) :
    (snapshot.applyMergePatch patch).applyMergePatch patch = snapshot.applyMergePatch patch :=
  WorldStateSnapshot.ext (Json.Object.ext (applyFields_twice patch.canonical
    snapshot.sections.canonical fun _ hf => applyMergePatchValue_twice (patch.canonical.field hf)))

/-- No object in the snapshot has a null field, outside arrays. -/
def NullFree (snapshot : WorldStateSnapshot) : Prop := Json.NullFree (.obj snapshot.sections.fields)

variable {ps c : WorldStateSnapshot}

theorem applyMergePatch_mergePatchFrom (h : c.NullFree) {p : Json.Object}
    (hpat : c.mergePatchFrom ps = some p) : ps.applyMergePatch p = c := by
  unfold mergePatchFrom at hpat
  dsimp only at hpat
  split_ifs at hpat
  obtain rfl := some.inj hpat
  refine WorldStateSnapshot.ext (Json.Object.ext ?_)
  refine applyFields_patchFields ps.sections.canonical c.sections.canonical h ?_
  intro key v hlk old hold p hcreate
  exact applyMergePatchValue_createMergePatch (h.lookup hlk)
    (c.sections.canonical.lookup hlk) hold hcreate

/-- There is no patch exactly between equal snapshots. -/
theorem mergePatchFrom_eq_none : c.mergePatchFrom ps = none ↔ ps = c := by
  have hem := patchFields_eq_nil ps.sections.canonical c.sections.canonical
  unfold mergePatchFrom
  dsimp only
  split_ifs with h
  · have heq := hem.mp (List.isEmpty_iff.mp h)
    exact iff_of_true rfl (WorldStateSnapshot.ext (Json.Object.ext heq))
  · refine iff_of_false nofun ?_
    rintro rfl
    exact h (List.isEmpty_iff.mpr (hem.mpr rfl))

end WorldStateSnapshot

end SushiGpt.Core
