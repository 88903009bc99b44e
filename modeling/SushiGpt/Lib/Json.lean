/-
JSON values.

An object is the list of its fields in the order of their keys, each key once, so that
equality of values is equality of objects as maps.  Indexing is total: what is not there
is `null`, which is how code that reads foreign JSON field by field treats it.
-/
import SushiGpt.Lib.OrderedMap
import SushiGpt.Lib.Text
import Mathlib.Data.Char

namespace SushiGpt

open List String

inductive Json where
  | null
  | bool (value : Bool)
  | int (value : Int)
  | float (digits : Text)
  | str (text : Text)
  | arr (items : List Json)
  | obj (fields : List (Text × Json))

namespace Json

variable {fs : List (Text × Json)} {v : Json} {key : Text}

/-! ### Equality -/

mutual

def beq : Json → Json → Bool
  | null, null => true
  | bool a, bool b => a == b
  | int a, int b => a == b
  | float a, float b => a == b
  | str a, str b => a == b
  | arr a, arr b => beqItems a b
  | obj a, obj b => beqFields a b
  | _, _ => false
termination_by structural a => a

def beqItems : List Json → List Json → Bool
  | [], [] => true
  | a :: as, b :: bs => beq a b && beqItems as bs
  | _, _ => false
termination_by structural a => a

def beqFields : List (Text × Json) → List (Text × Json) → Bool
  | [], [] => true
  | a :: as, b :: bs => beqField a b && beqFields as bs
  | _, _ => false
termination_by structural a => a

def beqField : Text × Json → Text × Json → Bool
  | (key, a), (key', b) => key == key' && beq a b
termination_by structural a => a

end

mutual

theorem beq_iff : ∀ a b : Json, beq a b = true ↔ a = b
  | null, b => by cases b <;> simp [beq]
  | bool a, b => by cases b <;> simp [beq]
  | int a, b => by cases b <;> simp [beq]
  | float a, b => by cases b <;> simp [beq]
  | str a, b => by cases b <;> simp [beq]
  | arr a, b => by cases b <;> simp [beq, beqItems_iff a]
  | obj a, b => by cases b <;> simp [beq, beqFields_iff a]

theorem beqItems_iff : ∀ a b : List Json, beqItems a b = true ↔ a = b
  | [], b => by cases b <;> simp [beqItems]
  | a :: as, b => by cases b <;> simp [beqItems, beq_iff a, beqItems_iff as]

theorem beqFields_iff : ∀ a b : List (Text × Json), beqFields a b = true ↔ a = b
  | [], b => by cases b <;> simp [beqFields]
  | a :: as, b => by cases b <;> simp [beqFields, beqField_iff a, beqFields_iff as]

theorem beqField_iff : ∀ a b : Text × Json, beqField a b = true ↔ a = b
  | (key, a), (key', b) => by simp [beqField, beq_iff a]

end

instance : DecidableEq Json := fun a b => decidable_of_iff _ (beq_iff a b)

/-! ### Objects -/

/-- The order of keys, by their scalar values. -/
def keyBefore : Text → Text → Bool
  | _, [] => false
  | [], _ :: _ => true
  | a :: as, b :: bs => Nat.blt a.toNat b.toNat || (a == b && keyBefore as bs)

/-- The fields with one more, or with a field replaced. -/
def insertField (key : Text) (value : Json) : List (Text × Json) → List (Text × Json)
  | [] => [(key, value)]
  | (o, old) :: rest =>
    if key == o then (key, value) :: rest
    else if keyBefore key o then (key, value) :: (o, old) :: rest
    else (o, old) :: insertField key value rest

/-- The fields of a literal in the order of their keys, the last of equal keys staying. -/
def objectFields (fields : List (String × Json)) : List (Text × Json) :=
  fields.foldl (fun done field => insertField field.1.toList field.2 done) []

def object (fields : List (String × Json)) : Json := obj (objectFields fields)

def get? (value : Json) (key : String) : Option Json :=
  match value with
  | obj fields => (fields.find? fun field => field.1 == key.toList).map Prod.snd
  | _ => none

def get (value : Json) (key : String) : Json := (value.get? key).getD null

/-- Assignment to an index; a `null` becomes an object, any other value has no indices. -/
def set? (value : Json) (key : String) (field : Json) : Option Json :=
  match value with
  | obj fields => some (obj (insertField key.toList field fields))
  | null => some (obj [(key.toList, field)])
  | _ => none

def set (value : Json) (key : String) (field : Json) : Json :=
  (value.set? key field).getD value

def erase (value : Json) (key : String) : Json :=
  match value with
  | obj fields => obj (fields.filter fun field => field.1 != key.toList)
  | _ => value

/-- An object with the fields of the given keys only. -/
def retain (value : Json) (keys : List String) : Json :=
  match value with
  | obj fields => obj (fields.filter fun field => keys.any fun key => field.1 == key.toList)
  | _ => value

/-! ### Reading -/

def asStr : Json → Option Text
  | str text => some text
  | _ => none

def asArray : Json → Option (List Json)
  | arr items => some items
  | _ => none

def asObject : Json → Option (List (Text × Json))
  | obj fields => some fields
  | _ => none

def asU64 : Json → Option Nat
  | int n => if 0 ≤ n ∧ n < 2 ^ 64 then some n.toNat else none
  | _ => none

def asI64 : Json → Option Int
  | int n => if -2 ^ 63 ≤ n ∧ n < 2 ^ 63 then some n else none
  | _ => none

def isNull : Json → Bool
  | null => true
  | _ => false

def isStr (value : Json) (text : String) : Bool := value == str text.toList

theorem isStr_iff {t : String} : v.isStr t = true ↔ v = str t.toList :=
  beq_iff_eq

theorem not_isStr_of_isStr {t o : String} (h : v.isStr t = true)
    (hne : t ≠ o) : ¬ v.isStr o = true := by
  rw [isStr_iff] at h ⊢
  rw [h]
  intro heq
  exact hne (toList_inj.mp (Json.str.inj heq))

/-! ### Fields in order -/

theorem keyBefore_iff : ∀ a b : Text, keyBefore a b = true ↔ a < b
  | a, [] => by simp [keyBefore]
  | [], b :: bs => by simp [keyBefore]
  | a :: as, b :: bs => by
    rw [keyBefore, cons_lt_cons_iff, Bool.or_eq_true, Bool.and_eq_true, beq_iff_eq,
      keyBefore_iff as bs, Nat.blt_eq]
    rfl

/-- The keys are in order, each once. -/
def Ordered (fields : List (Text × Json)) : Prop :=
  fields.Pairwise fun a b => a.1 < b.1

theorem insertField_eq : insertField key v fs = OrderedMap.insertEntry key v fs := by
  induction fs with
  | nil => rfl
  | cons f r ih =>
    rw [insertField, OrderedMap.insertEntry, ih]
    simp only [beq_iff_eq, keyBefore_iff]
    by_cases hkey : key = f.1
    · rw [if_pos hkey, if_neg (hkey ▸ lt_irrefl key), if_pos hkey]
    · rw [if_neg hkey, if_neg hkey]
      split_ifs <;> rfl

theorem mem_insertField {f : Text × Json} (h : f ∈ insertField key v fs) : f = (key, v) ∨ f ∈ fs :=
  OrderedMap.mem_insertEntry (insertField_eq ▸ h)

theorem Ordered.insertField (h : Ordered fs) : Ordered (insertField key v fs) :=
  insertField_eq ▸ OrderedMap.sorted_insertEntry key v h

theorem Ordered.filter_bne (h : Ordered fs) (key : Text) :
    fs.filter (fun f => f.1 != key) = ((⟨fs, h⟩ : OrderedMap Text Json).erase key).entries :=
  filter_congr fun f _ => by rw [Bool.eq_iff_iff]; simp

/-- Removing one field and setting another are independent. -/
theorem filter_insertField {o : Text} (hne : key ≠ o) (v : Json) (h : Ordered fs) :
    (insertField key v fs).filter (fun f => f.1 != o) =
      insertField key v (fs.filter fun f => f.1 != o) := by
  rw [insertField_eq, insertField_eq, h.filter_bne,
    Ordered.filter_bne (OrderedMap.sorted_insertEntry key v h)]
  exact congrArg OrderedMap.entries (OrderedMap.erase_insert_of_ne (m := ⟨fs, h⟩) hne)

theorem filter_insertField_self (key : Text) (v : Json) (h : Ordered fs) :
    (insertField key v fs).filter (fun f => f.1 != key) = fs.filter fun f => f.1 != key := by
  rw [insertField_eq, h.filter_bne, Ordered.filter_bne (OrderedMap.sorted_insertEntry key v h)]
  exact congrArg OrderedMap.entries (OrderedMap.erase_insert (m := ⟨fs, h⟩))

theorem beq_decide (a b : Text) : (a == b) = decide (a = b) := by
  rw [Bool.eq_iff_iff, beq_iff_eq, decide_eq_true_iff]

theorem get?_obj {key : String} : (obj fs).get? key = IndexMap.get? fs key.toList := by
  simp only [get?, IndexMap.get?, beq_decide]

/-! ### Literals -/

theorem objectFields_concat (fs : List (String × Json)) (f : String × Json) :
    objectFields (fs ++ [f]) = insertField f.1.toList f.2 (objectFields fs) := by
  rw [objectFields, foldl_append]
  rfl

theorem ordered_objectFields (fs : List (String × Json)) : Ordered (objectFields fs) := by
  induction fs using reverseRecOn with
  | nil => exact List.Pairwise.nil
  | append_singleton r f ih =>
    rw [objectFields_concat]
    exact ih.insertField

theorem mem_objectFields {f : Text × Json} :
    ∀ {fs : List (String × Json)}, f ∈ objectFields fs → ∃ s ∈ fs, f = (s.1.toList, s.2) := by
  intro fs
  induction fs using reverseRecOn with
  | nil => exact nofun
  | append_singleton r last ih =>
    intro h
    rw [objectFields_concat] at h
    rcases mem_insertField h with rfl | h
    · exact ⟨last, mem_append_right _ mem_cons_self, rfl⟩
    · obtain ⟨s, hsrc, heq⟩ := ih h
      exact ⟨s, mem_append_left _ hsrc, heq⟩

/-- A field is removed from a literal by leaving it out. -/
theorem filter_objectFields (key : String) (fs : List (String × Json)) :
    (objectFields fs).filter (fun f => f.1 != key.toList) =
      objectFields (fs.filter fun f => f.1 != key) := by
  induction fs using reverseRecOn with
  | nil => rfl
  | append_singleton r last ih =>
    rw [objectFields_concat, filter_append, filter_cons, filter_nil]
    by_cases hl : last.1 = key
    · rw [if_neg (by simpa using hl), append_nil, ← ih, ← hl,
        filter_insertField_self _ _ (ordered_objectFields r)]
    · have hne : last.1.toList ≠ key.toList := fun h => hl (toList_inj.mp h)
      rw [if_pos (by simpa using hl), objectFields_concat,
        filter_insertField hne _ (ordered_objectFields r), ih]

/-! ### Objects as maps -/

/-- The value is an object with its keys in order. -/
def IsMap (value : Json) : Prop := ∃ fields, value = obj fields ∧ Ordered fields

theorem isMap_object (fs : List (String × Json)) : (object fs).IsMap :=
  ⟨_, rfl, ordered_objectFields fs⟩

namespace IsMap

variable {v f : Json} {key o : String}

theorem set (h : v.IsMap) : (v.set key f).IsMap := by
  obtain ⟨fs, rfl, h⟩ := h
  exact ⟨_, rfl, h.insertField⟩

theorem get_set (h : v.IsMap) : (v.set key f).get o =
    if o.toList = key.toList then f else v.get o := by
  obtain ⟨fs, rfl, -⟩ := h
  show ((obj (insertField _ _ fs)).get? o).getD null = _
  rw [get?_obj, insertField_eq, OrderedMap.get?_insertEntry, get, get?_obj]
  split_ifs <;> rfl

theorem get_set_self (h : v.IsMap) : (v.set key f).get key = f :=
  h.get_set.trans (if_pos rfl)

theorem get_set_of_ne (h : v.IsMap) (hne : key ≠ o) : (v.set key f).get o = v.get o :=
  h.get_set.trans (if_neg fun heq => hne (toList_inj.mp heq).symm)

theorem erase_set (h : v.IsMap) (hne : key ≠ o) :
    (v.set key f).erase o = (v.erase o).set key f := by
  obtain ⟨fs, rfl, h⟩ := h
  exact congrArg obj (filter_insertField (fun heq => hne (toList_inj.mp heq)) _ h)

end IsMap

theorem object_concat (fs : List (String × Json)) (f : String × Json) :
    object (fs ++ [f]) = (object fs).set f.1 f.2 :=
  congrArg obj (objectFields_concat fs f)

theorem get_object {key : String} :
    ∀ {fs : List (String × Json)}, (fs.map Prod.fst).Nodup → (key, v) ∈ fs →
      (object fs).get key = v := by
  intro fs
  induction fs using reverseRecOn with
  | nil => exact nofun
  | append_singleton r last ih =>
    intro hnd hmem
    rw [map_append, nodup_append] at hnd
    obtain ⟨hrest, -, hdis⟩ := hnd
    rw [object_concat]
    rcases mem_append.mp hmem with hmem | hmem
    · have hne : last.1 ≠ key := (hdis key (mem_map_of_mem hmem) last.1 mem_cons_self).symm
      rw [(isMap_object r).get_set_of_ne hne, ih hrest hmem]
    · rw [← mem_singleton.mp hmem]
      exact (isMap_object r).get_set_self

theorem get_object_eq (fs : List (String × Json)) (key : String) :
    (object fs).get key = ((fs.reverse.find? fun f => f.1 == key).map Prod.snd).getD null := by
  induction fs using reverseRecOn with
  | nil => rfl
  | append_singleton r last ih =>
    rw [object_concat, reverse_concat, find?_cons]
    by_cases hl : last.1 = key
    · rw [← hl, (isMap_object r).get_set_self, beq_self_eq_true]
      rfl
    · rw [(isMap_object r).get_set_of_ne hl, ih, beq_eq_false_iff_ne.mpr hl]

theorem erase_comm (v : Json) (key o : String) : (v.erase key).erase o = (v.erase o).erase key := by
  cases v with
  | obj fs => exact congrArg obj (filter_comm _ _ fs)
  | _ => rfl

theorem erase_retain (v : Json) (key : String) (k : List String) :
    (v.retain k).erase key = (v.erase key).retain k := by
  cases v with
  | obj fs => exact congrArg obj (filter_comm _ _ fs)
  | _ => rfl

theorem get_filter {p : Text → Bool} {key : String} (h : p key.toList = true) :
    (obj (fs.filter fun f => p f.1)).get key = (obj fs).get key := by
  rw [get, get, get?_obj, get?_obj, IndexMap.get?_filter, if_pos h]

theorem get_erase_of_ne (v : Json) {key o : String} (hne : key ≠ o) :
    (v.erase key).get o = v.get o := by
  cases v with
  | obj fs => exact get_filter (p := (· != key.toList)) (by simpa [toList_inj] using hne.symm)
  | _ => rfl

theorem get_retain_of_mem (v : Json) {key : String} {k : List String}
    (hmem : key ∈ k) : (v.retain k).get key = v.get key := by
  cases v with
  | obj fs =>
    exact get_filter (p := fun o => k.any fun key => o == key.toList)
      (any_eq_true.mpr ⟨key, hmem, beq_self_eq_true _⟩)
  | _ => rfl

theorem get_retain_of_notMem (v : Json) {key : String} {k : List String} (h : key ∉ k) :
    (v.retain k).get key = null := by
  cases v with
  | obj fs =>
    rw [retain, get, get?_obj, IndexMap.get?_filter (p := fun o => k.any (o == ·.toList)),
      if_neg (by simpa [toList_inj] using h)]
    rfl
  | _ => rfl

end Json

end SushiGpt
