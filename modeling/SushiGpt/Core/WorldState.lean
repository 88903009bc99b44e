/-
The model-visible world state and its snapshots.

A section of the world state serialises to JSON; the snapshot keeps the sections that are to be
persisted, without null fields, because in a merge patch (RFC 7386) a null field means deletion.
Rollouts hold a full snapshot or the patch that advances the previous one.
-/
import SushiGpt.Lib.JsonMap

namespace SushiGpt.Core

open Json (insertField eraseField lookup Canonical NullFree)

/-! ### Null fields -/

mutual

def removeNullObjectFields : Json → Json
  | .obj fields => .obj (removeNullFields fields)
  | value => value
termination_by structural value => value

def removeNullFields : List (Text × Json) → List (Text × Json)
  | [] => []
  | field :: rest =>
    if field.2.isNull then removeNullFields rest
    else removeNullField field :: removeNullFields rest
termination_by structural fields => fields

def removeNullField : Text × Json → Text × Json
  | (key, value) => (key, removeNullObjectFields value)
termination_by structural field => field

end

/-! ### Merge patches -/

/-- The deletions of a patch, for the keys that are no longer there. -/
def removals (previous current : List (Text × Json)) : List (Text × Json) :=
  previous.foldl
    (fun patch field =>
      if (lookup current field.1).isNone then insertField field.1 .null patch else patch) []

mutual

/-- The patch that advances `previous` to `current`, `none` when they are equal. -/
def createMergePatch (previous : Json) : Json → Option Json
  | .obj current =>
    if previous = .obj current then none
    else
      some (.obj (patchFields previous.asObject
        (removals (previous.asObject.getD []) current) current))
  | current => if previous = current then none else some current
termination_by structural current => current

/-- The loop over the current fields, which adds to the patch. -/
def patchFields (previous : Option (List (Text × Json))) (patch : List (Text × Json)) :
    List (Text × Json) → List (Text × Json)
  | [] => patch
  | field :: rest => patchFields previous (patchField previous patch field) rest
termination_by structural current => current

def patchField (previous : Option (List (Text × Json))) (patch : List (Text × Json)) :
    Text × Json → List (Text × Json)
  | (key, current) =>
    match previous.bind (lookup · key) with
    | none => insertField key current patch
    | some previousValue =>
      match createMergePatch previousValue current with
      | some value => insertField key value patch
      | none => patch
termination_by structural field => field

end

mutual

def applyMergePatchValue (target : Json) : Json → Json
  | .obj patch => .obj (applyFields (target.asObject.getD []) patch)
  | patch => patch
termination_by structural patch => patch

def applyFields (target : List (Text × Json)) : List (Text × Json) → List (Text × Json)
  | [] => target
  | field :: rest => applyFields (applyField target field) rest
termination_by structural patch => patch

def applyField (target : List (Text × Json)) : Text × Json → List (Text × Json)
  | (key, value) =>
    if value.isNull then eraseField key target
    else
      match lookup target key with
      | some current => insertField key (applyMergePatchValue current value) target
      | none => insertField key (applyMergePatchValue .null value) target
termination_by structural field => field

end

/-! ### Values stay canonical -/

theorem removeNullFields_eq (fs : List (Text × Json)) :
    removeNullFields fs = (fs.filter fun f => !f.2.isNull).map removeNullField := by
  induction fs with
  | nil => rfl
  | cons f r ih =>
    rw [removeNullFields, List.filter_cons, ih]
    cases f.2.isNull <;> rfl

theorem removeNullField_eq (f : Text × Json) :
    removeNullField f = (f.1, removeNullObjectFields f.2) := by
  cases f
  rfl

theorem canonical_removeNullObjectFields {v : Json} (h : Canonical v) :
    Canonical (removeNullObjectFields v) := by
  induction h with
  | obj o _ ih =>
    rw [removeNullObjectFields, removeNullFields_eq]
    refine .obj ?_ ?_
    · simp only [Json.Ordered, List.pairwise_map, removeNullField_eq]
      exact o.filter _
    · intro f hf
      obtain ⟨s, hsrc, rfl⟩ := List.mem_map.mp hf
      rw [removeNullField_eq]
      exact ih s (List.mem_of_mem_filter hsrc)
  | arr h _ => exact .arr h
  | _ => constructor

theorem canonical_removals (ps c : List (Text × Json)) : Canonical (.obj (removals ps c)) := by
  unfold removals
  induction ps using List.reverseRecOn with
  | nil => exact Json.canonical_empty
  | append_singleton r f ih =>
    rw [List.foldl_append]
    simp only [List.foldl_cons, List.foldl_nil]
    split_ifs
    · exact ih.insertField .null
    · exact ih

theorem canonical_patchFields {ps : Option (List (Text × Json))} :
    ∀ {fs p : List (Text × Json)}, (∀ f ∈ fs, Canonical f.2) →
      (∀ f ∈ fs, ∀ ps v, createMergePatch ps f.2 = some v → Canonical v) →
      Canonical (.obj p) → Canonical (.obj (patchFields ps p fs))
  | [], _, _, _, hpat => hpat
  | (key, c) :: r, p, hfs, hcreate, hpat => by
    rw [patchFields]
    refine canonical_patchFields (fun f hf => hfs f (.tail _ hf))
      (fun f hf => hcreate f (.tail _ hf)) ?_
    unfold patchField
    split
    · exact hpat.insertField (hfs _ (.head _))
    · split
      case h_1 v hv => exact hpat.insertField (hcreate _ (.head _) _ v hv)
      case h_2 => exact hpat

theorem canonical_createMergePatch {c : Json} (h : Canonical c) :
    ∀ {ps p : Json}, createMergePatch ps c = some p → Canonical p := by
  induction h with
  | @obj fs o h ih =>
    intro ps p hpat
    unfold createMergePatch at hpat
    split_ifs at hpat
    obtain rfl := Option.some.inj hpat
    exact canonical_patchFields h (fun f hf _ _ => ih f hf) (canonical_removals _ _)
  | _ =>
    intro ps p hpat
    unfold createMergePatch at hpat
    split_ifs at hpat
    obtain rfl := Option.some.inj hpat
    constructor <;> assumption

theorem canonical_asObject {v : Json} (h : Canonical v) :
    Canonical (.obj (v.asObject.getD [])) := by
  cases v with
  | obj fs => exact h
  | _ => exact Json.canonical_empty

theorem canonical_applyFields : ∀ {p t : List (Text × Json)},
      (∀ f ∈ p, ∀ t, Canonical t → Canonical (applyMergePatchValue t f.2)) →
      Canonical (.obj t) → Canonical (.obj (applyFields t p))
  | [], _, _, htgt => htgt
  | (key, v) :: r, t, hpat, htgt => by
    rw [applyFields]
    refine canonical_applyFields (fun f hf => hpat f (.tail _ hf)) ?_
    have hv := hpat _ (.head _)
    unfold applyField
    split_ifs
    · exact htgt.eraseField
    · split
      case h_1 c hcur =>
          exact htgt.insertField (hv c (htgt.lookup hcur))
      case h_2 => exact htgt.insertField (hv .null .null)

theorem canonical_applyMergePatchValue {p : Json} (h : Canonical p) :
    ∀ {t : Json}, Canonical t → Canonical (applyMergePatchValue t p) := by
  induction h with
  | obj _ _ ih =>
    intro t htgt
    exact canonical_applyFields (fun f hf _ => ih f hf) (canonical_asObject htgt)
  | _ =>
    intro t _
    constructor <;> assumption

/-! ### Snapshots -/

/-- Comparison state of each section, by section id. -/
@[ext]
structure WorldStateSnapshot where
  sections : Json.Object

/-- What a rollout keeps of the world state: a full snapshot or a patch. -/
structure WorldStateItem where
  full : Bool
  state : Json.Object

namespace WorldStateSnapshot

def ofState (state : Json.Object) : WorldStateSnapshot := ⟨state⟩

def intoObject (snapshot : WorldStateSnapshot) : Json.Object := snapshot.sections

/-- The merge patch that advances `previous` to the snapshot. -/
def mergePatchFrom (current previous : WorldStateSnapshot) : Option Json.Object :=
  let old := previous.sections.fields
  let new := current.sections.fields
  let patch : Json.Object :=
    ⟨patchFields (some old) (removals old new) new,
      canonical_patchFields (fun _ hfield => current.sections.canonical.field hfield)
        (fun _ hfield _ _ => canonical_createMergePatch (current.sections.canonical.field hfield))
        (canonical_removals old new)⟩
  if patch.fields.isEmpty then none else some patch

def applyMergePatch (snapshot : WorldStateSnapshot) (patch : Json.Object) : WorldStateSnapshot :=
  ⟨applyFields snapshot.sections.fields patch.fields,
    canonical_applyFields
      (fun _ hfield _ => canonical_applyMergePatchValue (patch.canonical.field hfield))
      snapshot.sections.canonical⟩

end WorldStateSnapshot

/-! ### The live state -/

/-- A section with the JSON it serialises to, which is missing when the section is not to be
persisted or does not serialise. -/
structure WorldStateSection where
  id : Text
  serialized : Option { value : Json // Canonical value }

/-- What a section adds to a snapshot. -/
def WorldStateSection.snapshot (s : WorldStateSection) :
    Option { value : Json // Canonical value } :=
  s.serialized.bind fun value =>
    let stripped := removeNullObjectFields value.1
    if stripped.isNull then none
    else some ⟨stripped, canonical_removeNullObjectFields value.2⟩

/-- Live model-visible state. -/
structure WorldState where
  sections : List WorldStateSection

def WorldState.snapshot (state : WorldState) : WorldStateSnapshot :=
  ⟨state.sections.foldl
    (fun object s =>
      match s.snapshot with
      | some value => object.insert s.id value.1 value.2
      | none => object) Json.Object.empty⟩

end SushiGpt.Core
