/-
What the adapter makes of an item.

An item's identifier plays no part: preparing it with or without one gives the same value
once the identifier is dropped.  And the kind of a prepared item tells a call or a message
from the output of a call, whatever the item was.
-/
import SushiGpt.CodexApi.OpenResponses

namespace SushiGpt.CodexApi

open Json Option Adapter ResponseItem

variable {d : Serde} {a : Adapter} {i : ResponseItem}

/-! ### Encrypted content -/

theorem anyEncryptedField_eq (fs : List (Text × Json)) :
    anyEncryptedField fs = fs.any encryptsField := by
  induction fs with
  | nil => rfl
  | cons f r ih => rw [anyEncryptedField, ih, List.any_cons]

theorem anyEncryptedItem_eq (l : List Json) : anyEncryptedItem l = l.any containsEncryption := by
  induction l with
  | nil => rfl
  | cons i r ih => rw [anyEncryptedItem, ih, List.any_cons]

/-- Every identifier among the fields is a string. -/
def PlainIds (fields : List (Text × Json)) : Prop :=
  ∀ field ∈ fields, field.1 = "id".toList → ∃ text, field.2 = str text

theorem containsEncryption_erase_id {fs : List (Text × Json)} (hid : PlainIds fs) :
    containsEncryption ((obj fs).erase "id") = containsEncryption (obj fs) := by
  show anyEncryptedField (fs.filter _) = anyEncryptedField fs
  rw [anyEncryptedField_eq, anyEncryptedField_eq, Bool.eq_iff_iff, List.any_eq_true,
    List.any_eq_true]
  constructor
  · rintro ⟨f, hf, h⟩
    exact ⟨f, List.mem_of_mem_filter hf, h⟩
  · rintro ⟨⟨key, v⟩, hf, h⟩
    refine ⟨(key, v), List.mem_filter.mpr ⟨hf, ?_⟩, h⟩
    rw [bne_iff_ne]
    rintro rfl
    obtain ⟨t, rfl⟩ := hid _ hf rfl
    cases h

/-! ### Identifiers -/

/-- What `flattenCall` sets and drops in every call. -/
def flattened (value : Json) (aliasName : Text) : Json :=
  ((((value.set "type" (str "function_call".toList)).set "name" (str aliasName)).erase
    "namespace").erase "input").erase "encrypted_function_args"

theorem flattenCall_erase_id {i : Json} (hmap : i.IsMap) (an : Text) (t : Tool) :
    flattenCall d (i.erase "id") an t = (flattenCall d i an t).erase "id" := by
  have hflat {v : Json} (hv : v.IsMap) :
      (flattened v an).erase "id" = flattened (v.erase "id") an := by
    rw [flattened, flattened, erase_comm, erase_comm _ "input", erase_comm _ "namespace",
      hv.set.erase_set (by decide), hv.erase_set (by decide)]
  unfold flattenCall
  rw [get_erase_of_ne i (by decide : "id" ≠ "input")]
  split_ifs
  · rw [← hmap.erase_set (by decide)]
    exact (hflat hmap.set).symm
  · exact (hflat hmap).symm

theorem rewriteItem_erase_id {i : Json} (hmap : i.IsMap) :
    a.rewriteItem d (i.erase "id") = (a.rewriteItem d i).map fun v => v.erase "id" := by
  have hget : ∀ {key : String}, "id" ≠ key → (i.erase "id").get key = i.get key :=
    fun hne => get_erase_of_ne i hne
  unfold rewriteItem
  dsimp only
  rw [hget (by decide), hget (by decide), hget (by decide), hget (by decide)]
  split_ifs
  · cases (i.get "content").asArray with
    | none => rfl
    | some c =>
      simp only [bind_eq_bind, bind_some]
      split_ifs
      · rfl
      · refine congrArg some (congrArg obj ?_)
        rw [filter_objectFields]
        rfl
  · simp only [bind_eq_bind, map_bind, Function.comp_def, map_some, flattenCall_erase_id hmap]
  · exact congrArg some (hmap.erase_set (by decide)).symm
  · rfl
  · rfl

/-- Preparing an item and then dropping its identifier does not depend on the identifier. -/
theorem prepareItem_erase_id {fs : List (Text × Json)} (hord : Ordered fs) (hid : PlainIds fs) :
    a.prepareItem d ((obj fs).erase "id") =
      (a.prepareItem d (obj fs)).map fun v => v.erase "id" := by
  unfold prepareItem
  rw [containsEncryption_erase_id hid, rewriteItem_erase_id ⟨fs, rfl, hord⟩]
  split_ifs
  · rfl
  · cases a.rewriteItem d (obj fs) with
    | none => rfl
    | some i =>
      refine congrArg some ?_
      show (i.erase "id").retain (keptFields ((i.erase "id").get "type")) =
        (i.retain (keptFields (i.get "type"))).erase "id"
      rw [get_erase_of_ne i (by decide), erase_retain]

/-! ### Native items -/

namespace ResponseItem

/-- The item is one of the variants that a transport and a turn exchange. -/
def Typed (item : ResponseItem) : Prop := ∀ value, item ≠ other value

variable {i : ResponseItem}

theorem toValue_eq (h : i.Typed) : i.toValue = object (i.body ++ optionalField "id" i.id) := by
  cases i with
  | other v => exact absurd rfl (h v)
  | _ => rfl

theorem Typed.setId (h : i.Typed) (id : Option Text) : (i.setId id).Typed := by
  cases i with
  | other v => exact absurd rfl (h v)
  | _ => exact nofun

theorem optionalField_key {key : String} {v : Option Text} :
    ∀ f ∈ optionalField key v, ∃ t, f = (key, str t) := by
  intro f hf
  cases v with
  | none => cases hf
  | some t => exact ⟨t, List.mem_singleton.mp hf⟩

theorem body_key (i : ResponseItem) : ∀ f ∈ i.body, f.1 ≠ "id" := by
  have hall : (i.body.all fun f => f.1 != "id") = true := by
    cases i with
    | functionCall id n nn arg efa cid =>
      cases nn <;> cases efa <;> rfl
    | functionCallOutput id cid o => cases cid <;> rfl
    | customToolCall id cid n nn input => cases nn <;> rfl
    | _ => rfl
  exact fun f hf => bne_iff_ne.mp (List.all_eq_true.mp hall f hf)

theorem nodup_body_keys (i : ResponseItem) : (i.body.map Prod.fst).Nodup := by
  cases i with
  | message id ro c | customToolCallOutput id cid o => simp [body]
  | functionCall id n nn arg efa cid =>
    cases nn <;> cases efa <;>
      simp [body, optionalField, encryptedArgsField]
  | functionCallOutput id cid o => cases cid <;> simp [body, optionalField]
  | customToolCall id cid n nn input =>
    cases nn <;> simp [body, optionalField]
  | other v => exact List.nodup_nil

theorem erase_id_toValue (h : i.Typed) : i.toValue.erase "id" = object i.body := by
  rw [toValue_eq h]
  refine congrArg obj ?_
  rw [filter_objectFields, List.filter_append]
  have hbody : i.body.filter (fun f => f.1 != "id") = i.body :=
    List.filter_eq_self.mpr fun f hf => bne_iff_ne.mpr (i.body_key f hf)
  have hid : (optionalField "id" i.id).filter (fun f => f.1 != "id") = [] := by
    refine List.filter_eq_nil_iff.mpr fun f hf => ?_
    obtain ⟨t, rfl⟩ := optionalField_key f hf
    simp
  rw [hbody, hid, List.append_nil]

theorem plainIds_toValue : PlainIds (objectFields (i.body ++ optionalField "id" i.id)) := by
  intro f hf hkey
  obtain ⟨s, hsrc, rfl⟩ := mem_objectFields hf
  rcases List.mem_append.mp hsrc with hsrc | hsrc
  · exact absurd (String.toList_inj.mp hkey) (i.body_key s hsrc)
  · obtain ⟨t, rfl⟩ := optionalField_key s hsrc
    exact ⟨t, rfl⟩

end ResponseItem

/-- An item of native history in the flattened vocabulary, without its identifier. -/
def mirror (serde : Serde) (adapter : Adapter) (item : ResponseItem) : Option Json :=
  (adapter.prepareItem serde item.toValue).map fun value => value.erase "id"

theorem mirror_eq (h : i.Typed) : mirror d a i = a.prepareItem d (object i.body) := by
  rw [mirror, ← erase_id_toValue h, toValue_eq h]
  exact (prepareItem_erase_id (ordered_objectFields _) plainIds_toValue).symm

theorem mirror_assignMissing (h : i.Typed) (f : Text) :
    mirror d a (i.assignMissingResponseItemId f) = mirror d a i := by
  unfold assignMissingResponseItemId
  split_ifs
  · rfl
  · rw [mirror_eq h, mirror_eq (h.setId _)]
    cases i with
    | other v => exact absurd rfl (h v)
    | _ => rfl

/-! ### Kinds -/

/-- The kind of an item in the flattened vocabulary. -/
def flatKind (kind : Json) : Json :=
  if kind.isStr "agent_message" then str "message".toList
  else if kind.isStr "function_call" || kind.isStr "custom_tool_call" then
    str "function_call".toList
  else if kind.isStr "custom_tool_call_output" then str "function_call_output".toList
  else kind

theorem type_flattenCall {i : Json} (hmap : i.IsMap) (an : Text) (t : Tool) :
    (flattenCall d i an t).get "type" = str "function_call".toList := by
  have hflat {v : Json} (hv : v.IsMap) :
      (flattened v an).get "type" = str "function_call".toList := by
    rw [flattened, get_erase_of_ne _ (by decide), get_erase_of_ne _ (by decide),
      get_erase_of_ne _ (by decide), hv.set.get_set_of_ne (by decide), hv.get_set_self]
  unfold flattenCall
  split_ifs
  · exact hflat hmap.set
  · exact hflat hmap

theorem type_rewriteItem {i r : Json} (hmap : i.IsMap) (h : a.rewriteItem d i = some r) :
    r.get "type" = flatKind (i.get "type") ∧ "type" ∈ keptFields (r.get "type") := by
  unfold rewriteItem at h
  dsimp only at h
  unfold flatKind
  split_ifs at h ⊢ with h1 h2 h3 h4
  · obtain ⟨c, -, h⟩ := bind_eq_some_iff.mp h
    split_ifs at h
    cases h
    have htype : (object [("type", str "message".toList), ("role", str "user".toList),
        ("content", arr c)]).get "type" = str "message".toList :=
      get_object (by simp) List.mem_cons_self
    rw [htype]
    exact ⟨rfl, by decide⟩
  · obtain ⟨n, -, h⟩ := bind_eq_some_iff.mp h
    obtain ⟨an, -, h⟩ := bind_eq_some_iff.mp h
    obtain ⟨t, -, h⟩ := bind_eq_some_iff.mp h
    cases h
    rw [type_flattenCall hmap]
    exact ⟨rfl, by decide⟩
  · cases h
    rw [hmap.get_set_self]
    exact ⟨rfl, by decide⟩
  · cases h
    refine ⟨rfl, ?_⟩
    rcases Bool.or_eq_true _ _ ▸ h4 with hk | hk <;> rw [isStr_iff.mp hk] <;> decide

/-- **The kind of a prepared item is the flattened kind of the item.** -/
theorem type_prepareItem {i r : Json} (hmap : i.IsMap) (h : a.prepareItem d i = some r) :
    r.get "type" = flatKind (i.get "type") := by
  unfold prepareItem at h
  split_ifs at h
  obtain ⟨rew, hrew, hres⟩ := bind_eq_some_iff.mp h
  obtain ⟨htype, hkept⟩ := type_rewriteItem hmap hrew
  cases hres
  rw [get_retain_of_mem _ hkept, htype]

namespace ResponseItem

def IsOutput : ResponseItem → Prop
  | functionCallOutput _ _ _ | customToolCallOutput _ _ _ => True
  | _ => False

instance (item : ResponseItem) : Decidable item.IsOutput := by
  unfold IsOutput
  split <;> infer_instance

end ResponseItem

theorem type_mirror {v : Json} (htyp : i.Typed) (h : mirror d a i = some v) :
    v.get "type" = str "function_call_output".toList ↔ i.IsOutput := by
  rw [mirror_eq htyp] at h
  rw [type_prepareItem (isMap_object _) h]
  cases i with
  | other v => exact absurd rfl (htyp v)
  | _ =>
    rw [get_object (nodup_body_keys _) List.mem_cons_self]
    simp only [ResponseItem.IsOutput]
    decide

/-! ### JSON text in the examples -/

def quoted (text : Text) : Text :=
  text.flatMap fun c => if c = '\x22' ∨ c = '\x5c' then ['\x5c', c] else [c]

/-- The text up to the closing quotation mark, and what follows it.  A backslash takes the next
character as it is. -/
def readQuoted : (escaped : Bool) → Text → Option (Text × Text)
  | _, [] => none
  | true, c :: rest => (readQuoted false rest).map fun (text, after) => (c :: text, after)
  | false, c :: rest =>
    if c = '\x22' then some ([], rest)
    else if c = '\x5c' then readQuoted true rest
    else (readQuoted false rest).map fun (text, after) => (c :: text, after)

def inputOpening : Text := "\x7b\x22input\x22:\x22".toList

/-- JSON text as `serde_json` writes it for numbers and for an object whose one field `input` is a
text without control characters; the latter is read back. -/
def wireSerde : Serde where
  print
    | .int value => (toString value).toList
    | .obj [(_, .str text)] => inputOpening ++ (quoted text ++ ['\x22', '\x7d'])
    | _ => "null".toList
  parse text := do
    let (input, after) ← (inputOpening.isPrefixOf? text).bind (readQuoted false)
    if after = ['\x7d'] then some (object [("input", str input)]) else none

theorem readQuoted_quoted (text after : Text) :
    readQuoted false (quoted text ++ '\x22' :: after) = some (text, after) := by
  induction text with
  | nil => rfl
  | cons c text ih =>
    unfold quoted at ih ⊢
    rw [List.flatMap_cons]
    split_ifs with h
    · simp [readQuoted, ih]
    · rw [not_or] at h
      simp [readQuoted, h, ih]

theorem wireSerde_input (input : Text) :
    wireSerde.parse (wireSerde.print (object [("input", str input)])) =
      some (object [("input", str input)]) := by
  show (do
    let (input, after) ← (inputOpening.isPrefixOf? (inputOpening ++ _)).bind (readQuoted false)
    if after = ['\x7d'] then some (object [("input", str input)]) else none) = _
  rw [show inputOpening.isPrefixOf? (inputOpening ++ (quoted input ++ ['\x22', '\x7d'])) = some _
    from List.isPrefixOf?_eq_some_iff_append_eq.mpr rfl, Option.bind_some, readQuoted_quoted]
  rfl

end SushiGpt.CodexApi
