/-
Tool calls through the adapter and back.

The tools of a request are numbered in their order, and no two have the same namespace and name.
So a call finds the alias of its tool, the alias finds the tool again, and what a call says besides
is carried along: as it is, or as the one field of a JSON argument.
-/
import SushiGpt.Proofs.CodexApi.OpenResponses
import SushiGpt.Lib.Lists

namespace SushiGpt.CodexApi

open Json List Adapter ResponseItem

/-! ### The tools of a request -/

def declaredTool (namespaceName : Option Text) (definition : Json) : Tool :=
  ⟨(definition.get "name").asStr.getD [], namespaceName, (definition.get "type").isStr "custom"⟩

/-- The tools that an entry of the request declares. -/
def declaredBy (tool : Json) : List Tool :=
  if (tool.get "type").isStr "namespace" then
    ((tool.get "tools").asArray.getD []).map (declaredTool (tool.get "name").asStr)
  else [declaredTool none tool]

def declaredTools (tools : Json) : List Tool :=
  (tools.asArray.getD []).flatMap declaredBy

def wireAlias (i : Nat) : Text := "codex_tool_".toList ++ (Nat.repr i).toList

abbrev Tool.key (tool : Tool) : Option Text × Text := (tool.namespaceName, tool.name)

variable {d : Serde} {a : Adapter} {ts : List Tool} {s s' : Adapter × List Json} {ns : Option Text}

/-- The adapter knows these tools, numbered in this order. -/
structure Numbers (a : Adapter) (ts : List Tool) : Prop where
  tools : a.tools = ts.zipIdx.map fun t => (wireAlias t.2, t.1)
  aliases : a.aliases = ts.zipIdx.map fun t => (t.1.key, wireAlias t.2)
  nodup : (ts.map Tool.key).Nodup

theorem wireAlias_inj {i j : Nat} (h : wireAlias i = wireAlias j) : i = j := by
  have hrepr : (Nat.repr i).toList = (Nat.repr j).toList := append_cancel_left h
  rw [Nat.repr_eq_ofList_toDigits, Nat.repr_eq_ofList_toDigits, String.toList_ofList,
    String.toList_ofList] at hrepr
  have hback (n : Nat) : Nat.ofDigitChars 10 (Nat.toDigits 10 n) 0 = n :=
    Nat.ofDigitChars_toDigits (by omega) (by omega)
  rw [← hback i, hrepr, hback]

theorem addDefinition_eq_some {v : Json} (h : addDefinition ns s v = some s') :
    s.1.aliases.lookup (declaredTool ns v).key = none ∧
      s'.1 = ⟨s.1.tools ++ [(wireAlias s.1.tools.length, declaredTool ns v)],
        s.1.aliases ++ [((declaredTool ns v).key, wireAlias s.1.tools.length)]⟩ := by
  obtain ⟨a, f⟩ := s
  have hcustom : ∃ c n, declaredTool ns v = ⟨n, ns, c⟩ ∧
      a.aliases.lookup (ns, n) = none ∧
      s'.1 = ⟨a.tools ++ [(wireAlias a.tools.length, ⟨n, ns, c⟩)],
        a.aliases ++ [((ns, n), wireAlias a.tools.length)]⟩ := by
    unfold addDefinition at h
    split_ifs at h with hfun hcus
    rotate_left 2
    · cases h
    all_goals
      obtain ⟨c, hcustom, h⟩ := Option.bind_eq_some_iff.mp h
      obtain ⟨n, hname, h⟩ := Option.bind_eq_some_iff.mp h
      obtain ⟨hnew, h⟩ := Option.ite_none_left_eq_some.mp h
      cases hcustom
      cases h
      refine ⟨_, n, ?_, Option.not_isSome_iff_eq_none.mp hnew, rfl⟩
      rw [declaredTool, hname]
    · rw [Bool.eq_false_of_not_eq_true (not_isStr_of_isStr hfun (by decide))]
      rfl
    · rw [hcus]
      rfl
  obtain ⟨c, n, htool, hnew, hs⟩ := hcustom
  rw [htool]
  exact ⟨hnew, hs⟩

theorem Numbers.addDefinition (h : Numbers s.1 ts) {v : Json}
    (hadd : addDefinition ns s v = some s') : Numbers s'.1 (ts ++ [declaredTool ns v]) := by
  obtain ⟨hnew, hs⟩ := addDefinition_eq_some hadd
  rw [hs]
  refine ⟨by simp [h.tools, zipIdx_append], by simp [h.aliases, h.tools, zipIdx_append], ?_⟩
  rw [map_append, nodup_append]
  refine ⟨h.nodup, nodup_singleton _, ?_⟩
  intro k hk k' hk' heq
  rw [map_singleton, mem_singleton] at hk'
  obtain ⟨t, ht, rfl⟩ := mem_map.mp hk
  obtain ⟨i, hi, rfl⟩ := getElem_of_mem ht
  have hmem : (ts[i].key, wireAlias i) ∈ s.1.aliases := by
    rw [h.aliases]
    exact mem_map.mpr ⟨(ts[i], i), by simp [mem_zipIdx_iff_getElem?], rfl⟩
  have := lookup_eq_none_iff.mp hnew _ hmem
  simp [heq, hk'] at this

theorem foldlM_numbers {f : Adapter × List Json → Json → Option (Adapter × List Json)}
    {ds : Json → List Tool}
    (hf : ∀ {s s' ts v}, Numbers s.1 ts → f s v = some s' → Numbers s'.1 (ts ++ ds v)) :
    ∀ {vs : List Json} {s ts}, Numbers s.1 ts → vs.foldlM f s = some s' →
      Numbers s'.1 (ts ++ vs.flatMap ds) := by
  intro vs
  induction vs with
  | nil =>
    intro s ts h hrun
    cases hrun
    simpa using h
  | cons v vs ih =>
    intro s ts h hrun
    obtain ⟨s1, hs1, hrun⟩ := Option.bind_eq_some_iff.mp hrun
    rw [flatMap_cons, ← append_assoc]
    exact ih (hf h hs1) hrun

theorem Numbers.addTool (h : Numbers s.1 ts) {v : Json} (hadd : addTool s v = some s') :
    Numbers s'.1 (ts ++ declaredBy v) := by
  unfold Adapter.addTool at hadd
  unfold declaredBy
  split_ifs at hadd ⊢ with hns
  · obtain ⟨n, hname, hadd⟩ := Option.bind_eq_some_iff.mp hadd
    obtain ⟨vs, hvs, hadd⟩ := Option.bind_eq_some_iff.mp hadd
    rw [hname, hvs, map_eq_flatMap]
    exact foldlM_numbers (fun h hadd => h.addDefinition hadd) h hadd
  · exact h.addDefinition hadd

theorem Numbers.lookup {t : Tool} (h : Numbers a ts) (ht : t ∈ ts) :
    ∃ al, a.aliases.lookup t.key = some al ∧ a.tools.lookup al = some t := by
  obtain ⟨i, hi, rfl⟩ := getElem_of_mem ht
  have hmem : (ts[i], i) ∈ ts.zipIdx := by simp [mem_zipIdx_iff_getElem?]
  have hkeys : a.aliases.map Prod.fst = (ts.zipIdx.map Prod.fst).map Tool.key := by
    rw [h.aliases, map_map, map_map]
    rfl
  have hwires : a.tools.map Prod.fst = (ts.zipIdx.map Prod.snd).map wireAlias := by
    rw [h.tools, map_map, map_map]
    rfl
  rw [zipIdx_map_fst] at hkeys
  rw [zipIdx_map_snd] at hwires
  refine ⟨wireAlias i, Lists.lookup_of_mem (hkeys ▸ h.nodup) ?_, Lists.lookup_of_mem ?_ ?_⟩
  · rw [h.aliases]
    exact mem_map.mpr ⟨_, hmem, rfl⟩
  · rw [hwires]
    exact Nodup.map (fun i j => wireAlias_inj) nodup_range'
  · rw [h.tools]
    exact mem_map.mpr ⟨_, hmem, rfl⟩

/-! ### Calls -/

theorem containsEncryption_object {fs : List (String × Json)}
    (h : ∀ f ∈ fs, encryptsField (f.1.toList, f.2) = false) :
    containsEncryption (object fs) = false := by
  rw [object, containsEncryption, anyEncryptedField_eq, any_eq_false]
  intro f hf
  obtain ⟨f', hf', rfl⟩ := mem_objectFields hf
  simp [h f' hf']

theorem ofFunctionCall_flattened {v : Json} {al arg cid : Text} (hv : v.IsMap)
    (harg : v.get "arguments" = str arg) (hcid : v.get "call_id" = str cid) :
    ofFunctionCall ((flattened v al).retain (keptFields (str "function_call".toList))) =
      some (functionCall (v.get "id").asStr al none arg none cid) := by
  have hfields : keptFields (str "function_call".toList) =
      ["type", "name", "arguments", "call_id", "id"] := by decide
  have hget {key : String} (hk : key ∈ ["type", "name", "arguments", "call_id", "id"])
      (hne : "namespace" ≠ key ∧ "input" ≠ key ∧ "encrypted_function_args" ≠ key) :
      ((flattened v al).retain (keptFields (str "function_call".toList))).get key =
        if key.toList = "name".toList then str al
        else if key.toList = "type".toList then str "function_call".toList else v.get key := by
    rw [get_retain_of_mem _ (hfields ▸ hk), flattened, get_erase_of_ne _ hne.2.2,
      get_erase_of_ne _ hne.2.1, get_erase_of_ne _ hne.1, hv.set.get_set, hv.get_set]
  rw [ofFunctionCall, hget (by decide) (by decide), hget (by decide) (by decide),
    hget (by decide) (by decide), hget (by decide) (by decide), hget (by decide) (by decide),
    get_retain_of_notMem _ (by rw [hfields]; decide), harg, hcid]
  rfl

variable {t : Tool} {al : Text}

theorem prepareItem_of_call {v : Json} {k : String} (hv : v.IsMap)
    (henc : containsEncryption v = false) (hk : (v.get "type").isStr k = true)
    (hcall : k = "function_call" ∨ k = "custom_tool_call") (hname : v.get "name" = str t.name)
    (hns : (v.get "namespace").asStr = t.namespaceName)
    (hal : a.aliases.lookup t.key = some al) (ht : a.tools.lookup al = some t) :
    a.prepareItem d v =
      some ((flattenCall d v al t).retain (keptFields (str "function_call".toList))) := by
  have hagent : ¬ (v.get "type").isStr "agent_message" = true :=
    not_isStr_of_isStr hk (by rcases hcall with rfl | rfl <;> decide)
  have hboth : ((v.get "type").isStr "function_call" || (v.get "type").isStr "custom_tool_call") =
      true := by
    rcases hcall with rfl | rfl <;> simp [hk]
  rw [prepareItem, henc, if_neg (by decide), rewriteItem, if_neg hagent, if_pos hboth, hname, hns]
  simp only [asStr, Option.bind_eq_bind, Option.bind_some, hal, ht, type_flattenCall hv]

theorem functionCall_fields (id ns : Option Text) (n arg cid : Text) (e : Option (List Text)) :
    let v := (functionCall id n ns arg e cid).toValue
    v.IsMap ∧ v.get "type" = str "function_call".toList ∧ v.get "name" = str n ∧
      (v.get "namespace").asStr = ns ∧ v.get "arguments" = str arg ∧ v.get "call_id" = str cid ∧
      (v.get "id").asStr = id := by
  refine ⟨isMap_object _, ?_⟩
  simp only [toValue, get_object_eq]
  cases id <;> cases ns <;> cases e <;>
    simp [body, optionalField, encryptedArgsField, ResponseItem.id, asStr]

theorem customToolCall_fields (id ns : Option Text) (n inp cid : Text) :
    let v := (customToolCall id cid n ns inp).toValue
    v.IsMap ∧ v.get "type" = str "custom_tool_call".toList ∧ v.get "name" = str n ∧
      (v.get "namespace").asStr = ns ∧ v.get "input" = str inp ∧ v.get "call_id" = str cid ∧
      (v.get "id").asStr = id := by
  refine ⟨isMap_object _, ?_⟩
  simp only [toValue, get_object_eq]
  cases id <;> cases ns <;> simp [body, optionalField, ResponseItem.id, asStr]

theorem functionCall_plain (id ns : Option Text) (n arg cid : Text) {e : Option (List Text)}
    (he : e.getD [] = []) :
    containsEncryption (functionCall id n ns arg e cid).toValue = false := by
  refine containsEncryption_object ?_
  cases id <;> cases ns <;> cases e <;>
    simp_all [body, optionalField, encryptedArgsField, ResponseItem.id, encryptsField,
      encryptedField, containsEncryption, anyEncryptedItem, asArray]

theorem customToolCall_plain (id ns : Option Text) (n inp cid : Text) :
    containsEncryption (customToolCall id cid n ns inp).toValue = false := by
  refine containsEncryption_object ?_
  cases id <;> cases ns <;>
    simp [body, optionalField, ResponseItem.id, encryptsField, encryptedField, containsEncryption]

/-- A native call is prepared, read on the other side, and restored from there. -/
def roundTrip (serde : Serde) (adapter : Adapter) (call : ResponseItem) : Option ResponseItem := do
  let value ← adapter.prepareItem serde call.toValue
  let wire ← ofFunctionCall value
  adapter.restore serde wire true

theorem roundTrip_functionCall {id : Option Text} {arg cid : Text} {e : Option (List Text)}
    (hal : a.aliases.lookup t.key = some al) (ht : a.tools.lookup al = some t)
    (hc : t.custom = false) (he : e.getD [] = []) :
    roundTrip d a (functionCall id t.name t.namespaceName arg e cid) =
      some (functionCall id t.name t.namespaceName arg (some []) cid) := by
  obtain ⟨hv, hk, hname, hns, harg, hcid, hid⟩ :=
    functionCall_fields id t.namespaceName t.name arg cid e
  rw [roundTrip, prepareItem_of_call hv (functionCall_plain _ _ _ _ _ he) (isStr_iff.mpr hk)
    (.inl rfl) hname hns hal ht, flattenCall, hc]
  simp only [Bool.false_eq_true, if_false, Option.bind_eq_bind, Option.bind_some]
  rw [← flattened, ofFunctionCall_flattened hv harg hcid, hid]
  simp [restore, functionCall_plain, ht, hc]

theorem roundTrip_customToolCall {id : Option Text} {inp cid : Text}
    (hd : d.parse (d.print (object [("input", str inp)])) = some (object [("input", str inp)]))
    (hal : a.aliases.lookup t.key = some al) (ht : a.tools.lookup al = some t)
    (hc : t.custom = true) :
    roundTrip d a (customToolCall id cid t.name t.namespaceName inp) =
      some (customToolCall id cid t.name t.namespaceName inp) := by
  obtain ⟨hv, hk, hname, hns, hinp, hcid, hid⟩ :=
    customToolCall_fields id t.namespaceName t.name inp cid
  rw [roundTrip, prepareItem_of_call hv (customToolCall_plain _ _ _ _ _) (isStr_iff.mpr hk)
    (.inr rfl) hname hns hal ht, flattenCall, hc, hinp]
  simp only [if_true, Option.bind_eq_bind, Option.bind_some]
  rw [← flattened, ofFunctionCall_flattened hv.set hv.get_set_self
    ((hv.get_set_of_ne (by decide)).trans hcid), hv.get_set_of_ne (by decide), hid]
  simp [restore, restoreInput, functionCall_plain, ht, hc, hd, get_object_eq, asStr]

/-- The argument text of a free-form call is parsed to what was printed. -/
def InputRoundTrips (serde : Serde) : Prop :=
  ∀ input, serde.parse (serde.print (object [("input", str input)])) =
    some (object [("input", str input)])

/-- **A call of a declared tool comes back as it was, and no two tools share an alias.** -/
theorem roundTrip_declared {input flat prepared : List Json} {tools : Json} (hd : InputRoundTrips d)
    (h : Adapter.prepare d input tools = some (a, flat, prepared)) :
    ∀ t ∈ declaredTools tools,
      (∀ id callId, if t.custom then
        ∀ input, roundTrip d a (customToolCall id callId t.name t.namespaceName input) =
          some (customToolCall id callId t.name t.namespaceName input)
      else
        ∀ arguments encrypted, encrypted.getD [] = [] →
          roundTrip d a (functionCall id t.name t.namespaceName arguments encrypted callId) =
            some (functionCall id t.name t.namespaceName arguments (some []) callId)) ∧
      ∃ al, a.aliases.lookup t.key = some al ∧
        ∀ t' ∈ declaredTools tools, a.aliases.lookup t'.key = some al → t' = t := by
  obtain ⟨-, h⟩ := Option.ite_none_left_eq_some.mp h
  obtain ⟨⟨a', flat'⟩, htools, h⟩ := Option.bind_eq_some_iff.mp h
  obtain ⟨input', -, h⟩ := Option.bind_eq_some_iff.mp h
  cases h
  have hempty : Numbers Adapter.empty [] := ⟨rfl, rfl, nodup_nil⟩
  have hnum := foldlM_numbers (fun h ha => h.addTool ha) (s := (Adapter.empty, [])) hempty htools
  intro t ht
  obtain ⟨al, hal, htool⟩ := hnum.lookup ht
  refine ⟨fun id callId => ?_, al, hal, fun t' ht' hal' => ?_⟩
  · split_ifs with hc
    · exact fun input => roundTrip_customToolCall (hd input) hal htool hc
    · exact fun arguments encrypted he =>
        roundTrip_functionCall hal htool (Bool.eq_false_of_not_eq_true hc) he
  · obtain ⟨al', hal'', htool'⟩ := hnum.lookup ht'
    rw [hal'] at hal''
    cases hal''
    rw [htool] at htool'
    cases htool'
    rfl

def mixedTools : Json :=
  arr [object [("type", str "function".toList), ("name", str "run".toList)],
    object [("type", str "namespace".toList), ("name", str "mcp".toList),
      ("tools", arr [object [("type", str "custom".toList), ("name", str "run".toList)]])]]

theorem roundTrip_mixedTools : InputRoundTrips wireSerde ∧
    ∃ r, Adapter.prepare wireSerde [] mixedTools = some r ∧
      roundTrip wireSerde r.1
          (customToolCall none "c1".toList "run".toList (some "mcp".toList) "ls".toList) =
        some (customToolCall none "c1".toList "run".toList (some "mcp".toList) "ls".toList) := by
  obtain ⟨⟨a, f, p⟩, h⟩ := Option.isSome_iff_exists.mp
    (by decide : (Adapter.prepare wireSerde [] mixedTools).isSome = true)
  have hall := roundTrip_declared wireSerde_input h ⟨"run".toList, some "mcp".toList, true⟩
    (by decide)
  exact ⟨wireSerde_input, _, h, hall.1 none "c1".toList "ls".toList⟩

/-- A call whose arguments are encrypted is refused. -/
theorem roundTrip_encrypted :
    ((Adapter.prepare wireSerde [] mixedTools).map fun r => roundTrip wireSerde r.1
      (functionCall none "run".toList none [] (some ["key".toList]) [])) = some none ∧
      ⟨"run".toList, none, false⟩ ∈ declaredTools mixedTools := by
  decide

end SushiGpt.CodexApi
