/-
JSON objects as maps.

`Json` keeps the fields of an object as a list.  A value is canonical when every object in it
has its keys in order, each once; of canonical objects nothing matters but what is found under
each key (`Ordered.ext`), so a function on objects is described by what it does at one key.
-/
import SushiGpt.Lib.Json
import Mathlib.Data.List.Sort

namespace SushiGpt.Json

open List

/-! ### Looking up a key -/

def lookup (fields : List (Text × Json)) (key : Text) : Option Json :=
  (fields.find? fun field => field.1 == key).map Prod.snd

def eraseField (key : Text) (fields : List (Text × Json)) : List (Text × Json) :=
  fields.filter fun field => field.1 != key

variable {fields o : List (Text × Json)} {key key' : Text} {v : Json}

theorem lookup_nil : lookup [] key = none := rfl

theorem lookup_cons (f : Text × Json) :
    lookup (f :: fields) key = if f.1 = key then some f.2 else lookup fields key := by
  unfold lookup
  rw [find?_cons]
  split_ifs with h
  · rw [beq_iff_eq.mpr h]
    rfl
  · rw [beq_eq_false_iff_ne.mpr h]

theorem lookup_eq : lookup fields key = IndexMap.get? fields key := by
  simp only [lookup, IndexMap.get?, beq_decide]

theorem lookup_insertField :
    lookup (insertField key v fields) key' = if key' = key then some v else lookup fields key' := by
  rw [lookup_eq, lookup_eq, insertField_eq, OrderedMap.get?_insertEntry]

theorem lookup_insertField_self : lookup (insertField key v fields) key = some v :=
  lookup_insertField.trans (if_pos rfl)

theorem lookup_insertField_of_ne (h : key' ≠ key) :
    lookup (insertField key v fields) key' = lookup fields key' :=
  lookup_insertField.trans (if_neg h)

theorem lookup_eraseField :
    lookup (eraseField key fields) key' = if key' = key then none else lookup fields key' := by
  rw [lookup_eq, lookup_eq, eraseField, IndexMap.get?_filter (· != key)]
  by_cases h : key' = key <;> simp [h]

theorem mem_of_lookup (h : lookup fields key = some v) : (key, v) ∈ fields := by
  obtain ⟨⟨f, v'⟩, hfind, rfl⟩ := Option.map_eq_some_iff.mp h
  have hkey : f = key := by simpa using find?_some hfind
  rw [← hkey]
  exact mem_of_find?_eq_some hfind

theorem Ordered.lookup_tail {f : Text × Json} (h : Ordered (f :: fields)) :
    Json.lookup fields f.1 = none := by
  cases hlk : Json.lookup fields f.1 with
  | none => rfl
  | some v =>
    exact absurd rfl ((pairwise_cons.mp h).1 _ (mem_of_lookup hlk)).ne

theorem Ordered.eraseField (h : Ordered fields) : Ordered (Json.eraseField key fields) := h.filter _

/-- **Objects with the same value under every key are the same.** -/
theorem Ordered.ext (h : Ordered fields) (h' : Ordered o)
    (hlk : ∀ key, lookup fields key = lookup o key) : fields = o := by
  have hsame : (⟨fields, h⟩ : OrderedMap Text Json) = ⟨o, h'⟩ := by
    refine OrderedMap.ext_get? fun key => ?_
    rw [OrderedMap.get?_eq, OrderedMap.get?_eq, ← lookup_eq, hlk, lookup_eq]
  exact congrArg OrderedMap.entries hsame

/-! ### Canonical values -/

/-- Every object in the value has its keys in order, each once. -/
inductive Canonical : Json → Prop
  | null : Canonical null
  | bool (value : Bool) : Canonical (bool value)
  | int (value : Int) : Canonical (int value)
  | float (digits : Text) : Canonical (float digits)
  | str (text : Text) : Canonical (str text)
  | arr {items : List Json} (h : ∀ item ∈ items, Canonical item) : Canonical (arr items)
  | obj {fields : List (Text × Json)} (ordered : Ordered fields)
      (h : ∀ field ∈ fields, Canonical field.2) : Canonical (obj fields)

theorem canonical_empty : Canonical (Json.obj []) := .obj .nil nofun

section

variable (h : Canonical (Json.obj fields))

include h

theorem Canonical.ordered : Ordered fields := by
  cases h with
  | obj ord _ => exact ord

theorem Canonical.field {f : Text × Json} (hmem : f ∈ fields) : Canonical f.2 := by
  cases h with
  | obj _ h => exact h f hmem

theorem Canonical.lookup (hlk : Json.lookup fields key = some v) : Canonical v :=
  h.field (mem_of_lookup hlk)

theorem Canonical.insertField (hv : Canonical v) :
    Canonical (Json.obj (Json.insertField key v fields)) := by
  refine .obj h.ordered.insertField fun f hf => ?_
  rcases mem_insertField hf with rfl | hf
  · exact hv
  · exact h.field hf

theorem Canonical.eraseField : Canonical (Json.obj (Json.eraseField key fields)) :=
  .obj h.ordered.eraseField fun _ hf => h.field (mem_of_mem_filter hf)

end

/-- The fields of an object, `serde_json::Map`. -/
@[ext]
structure Object where
  fields : List (Text × Json)
  canonical : Canonical (Json.obj fields)

instance : DecidableEq Object := fun a b =>
  decidable_of_iff (a.fields = b.fields) Object.ext_iff.symm

def Object.empty : Object := ⟨[], canonical_empty⟩

def Object.insert (object : Object) (key : Text) (value : Json) (h : Canonical value) : Object :=
  ⟨insertField key value object.fields, object.canonical.insertField h⟩

/-! ### Values without null fields -/

/-- No object in the value has a null field; arrays are not looked into. -/
inductive NullFree : Json → Prop
  | null : NullFree null
  | bool (value : Bool) : NullFree (bool value)
  | int (value : Int) : NullFree (int value)
  | float (digits : Text) : NullFree (float digits)
  | str (text : Text) : NullFree (str text)
  | arr (items : List Json) : NullFree (arr items)
  | obj {fields : List (Text × Json)} (present : ∀ field ∈ fields, field.2 ≠ Json.null)
      (h : ∀ field ∈ fields, NullFree field.2) : NullFree (Json.obj fields)

theorem nullFree_empty : NullFree (obj []) := .obj nofun nofun

theorem NullFree.present (h : NullFree (Json.obj fields))
    (hlk : Json.lookup fields key = some v) : v ≠ Json.null := by
  cases h with
  | obj p _ => exact p _ (mem_of_lookup hlk)

theorem NullFree.lookup (h : NullFree (Json.obj fields))
    (hlk : Json.lookup fields key = some v) : NullFree v := by
  cases h with
  | obj _ h => exact h _ (mem_of_lookup hlk)

theorem NullFree.insertField (h : NullFree (Json.obj fields)) (hv : NullFree v)
    (hne : v ≠ Json.null) : NullFree (Json.obj (Json.insertField key v fields)) := by
  cases h with
  | obj p h =>
    refine .obj ?_ ?_
    · intro f hf
      rcases mem_insertField hf with rfl | hf
      · exact hne
      · exact p f hf
    · intro f hf
      rcases mem_insertField hf with rfl | hf
      · exact hv
      · exact h f hf

end SushiGpt.Json
