/-
A normalized history pairs its calls and outputs, and normalizing it again changes nothing.

Insertion at recorded indices, from the last on, is the same as putting every output behind its
call; retaining by position is filtering.  So the two pairing steps together are one reading of
the history (`pairing_eq`), and a history whose calls and outputs are paired is left as it is.
Replacing media keeps the ids, so it keeps the pairs.
-/
import SushiGpt.Core.Normalize

namespace SushiGpt.Core.Normalize

open List

/-! ### Positions -/

section Positions

variable {α : Type}

theorem insertIdx_length (d r : List α) (i : α) : (d ++ r).insertIdx d.length i = d ++ i :: r := by
  induction d with
  | nil => rfl
  | cons first d ih => exact congrArg (first :: ·) ih

theorem insert_eq_flatMap (f : α → Option α) (l d : List α) :
    ((l.zipIdx d.length).filterMap fun (i, idx) => (f i).map (idx, ·)).foldr
        (fun (idx, output) l => l.insertIdx (idx + 1) output) (d ++ l) =
      d ++ l.flatMap fun i => i :: (f i).toList := by
  induction l generalizing d with
  | nil => simp
  | cons i l ih =>
    have hrest := ih (d ++ [i])
    rw [append_assoc, singleton_append, length_append, length_singleton] at hrest
    cases hi : f i with
    | none => simpa [hi] using hrest
    | some output =>
      have hins := insertIdx_length (d ++ [i]) (l.flatMap fun i => i :: (f i).toList) output
      simpa [hi, hrest] using hins

theorem retainExcept_eq_filter (p : α → Bool) (l : List α) (pos : Nat) :
    retainExcept ((l.zipIdx pos).filterMap fun (i, idx) =>
      if p i then some idx else none) pos l = l.filter fun i => !p i := by
  induction l generalizing pos with
  | nil => rfl
  | cons i l ih =>
    rw [zipIdx_cons]
    cases hi : p i with
    | true => simp [retainExcept, hi, ih]
    | false =>
      -- The positions to come lie behind this one.
      have hbeh : ((l.zipIdx (pos + 1)).filterMap fun (i, idx) =>
          if p i then some idx else none).head? ≠ some pos := by
        intro hhead
        obtain ⟨⟨o, idx⟩, hmem, hidx⟩ := mem_filterMap.mp (mem_of_mem_head? hhead)
        have hle := le_snd_of_mem_zipIdx hmem
        simp only [Option.ite_none_right_eq_some, Option.some.injEq] at hidx
        omega
      rw [filterMap_cons_none (by simp [hi]), retainExcept, if_neg hbeh, ih,
        filter_cons_of_pos (by simp [hi])]

theorem retainExcept_nil (l : List α) (p : Nat) : retainExcept [] p l = l := by
  induction l generalizing p with
  | nil => rfl
  | cons i l ih => exact congrArg (i :: ·) (ih _)

theorem filter_flatMap {f : α → Option α} {p : α → Bool} {l : List α}
    (h : ∀ i ∈ l, ∀ next, f i = some next → p i = true ∧ p next = true) :
    (l.flatMap fun i => i :: (f i).toList).filter p =
      (l.filter p).flatMap fun i => i :: (f i).toList := by
  induction l with
  | nil => rfl
  | cons i l ih =>
    rw [forall_mem_cons] at h
    rw [flatMap_cons, filter_append, ih h.2]
    cases hnext : f i with
    | none => cases hi : p i <;> simp [hnext, hi]
    | some next =>
      obtain ⟨hi, hkept⟩ := h.1 next hnext
      simp [hnext, hi, hkept]

end Positions

/-! ### The pairing steps -/

section Pairing

variable {uv5 : Text → Text} {l : List Envelope} {env : Envelope}
  {key : ToolKind × Text}

theorem mem_callIds : key ∈ callIds l ↔ ∃ e ∈ l, e.item.call? = some key :=
  mem_filterMap

theorem mem_outputIds : key ∈ outputIds l ↔ ∃ e ∈ l, e.item.output? = some key :=
  mem_filterMap

theorem ensureCallOutputsPresent_eq (uv5 : Text → Text) (l : List Envelope) :
    ensureCallOutputsPresent uv5 l = l.flatMap fun env =>
      env :: (missingOutput uv5 (outputIds l) env).toList := by
  rw [ensureCallOutputsPresent, foldl_reverse]
  exact insert_eq_flatMap _ l []

theorem removeOrphanOutputs_eq (l : List Envelope) :
    removeOrphanOutputs l = l.filter fun env => !isOrphan (callIds l) env := by
  rw [removeOrphanOutputs]
  split
  · rename_i hn
    rw [← retainExcept_eq_filter, isEmpty_iff.mp hn, retainExcept_nil]
  · exact retainExcept_eq_filter _ l 0

theorem output?_of_call? {i : Item} (h : i.call? = some key) : i.output? = none := by
  cases i <;> first | rfl | cases h

theorem syntheticOutput_of_call? (uv5 : Text → Text) {i : Item} (h : i.call? = some key) :
    ∃ output, syntheticOutput uv5 i = some output ∧ output.call? = none ∧
      output.output? = some key := by
  cases i with
  | functionCall id cid p | customToolCall id cid p => exact ⟨_, rfl, rfl, h⟩
  | localShellCall id cid p | toolSearchCall id cid p =>
    obtain ⟨cid, rfl, rfl⟩ := Option.map_eq_some_iff.mp h
    exact ⟨_, rfl, rfl, rfl⟩
  | _ => cases h

/-- An output is inserted for a call that is not answered, with its id. -/
theorem missingOutput_eq_some {ids : List (ToolKind × Text)} {output : Envelope}
    (h : missingOutput uv5 ids env = some output) :
    ∃ key, env.item.call? = some key ∧ output.item.call? = none ∧
      output.item.output? = some key := by
  rw [missingOutput] at h
  split at h
  · rename_i hany
    obtain ⟨key, hkey, -⟩ := (Option.any_eq_true _ _).mp hany
    obtain ⟨i, hi, hc, hout⟩ := syntheticOutput_of_call? uv5 hkey
    rw [hi, Option.map_some, Option.some.injEq] at h
    exact ⟨key, hkey, h ▸ hc, h ▸ hout⟩
  · cases h

theorem missingOutput_eq_none {ids : List (ToolKind × Text)} :
    missingOutput uv5 ids env = none ↔ ∀ key, env.item.call? = some key → key ∈ ids := by
  rw [missingOutput]
  cases hc : env.item.call? with
  | none => simp
  | some key =>
    obtain ⟨i, hi, -⟩ := syntheticOutput_of_call? uv5 hc
    simp [hi]

theorem isOrphan_eq_false {ids : List (ToolKind × Text)} :
    isOrphan ids env = false ↔ ∀ key, env.item.output? = some key →
      env.item.isServerToolSearchOutput = false → key ∈ ids := by
  rw [isOrphan]
  cases env.item.output? <;> cases env.item.isServerToolSearchOutput <;> simp

theorem not_isOrphan_eq : (!isOrphan (callIds l) env) = (env.item.isServerToolSearchOutput ||
    env.item.output?.all fun key => l.any (·.item.call? == some key)) := by
  rw [Bool.eq_iff_iff, Bool.not_eq_true', isOrphan_eq_false]
  simp only [mem_callIds]
  cases env.item.output? <;> cases env.item.isServerToolSearchOutput <;> simp

theorem missingOutput_toList : (missingOutput uv5 (outputIds l) env).toList =
    if env.item.call?.any fun key => l.all (·.item.output? != some key)
      then ((syntheticOutput uv5 env.item).map (⟨·, none⟩)).toList else [] := by
  rw [missingOutput, outputIds]
  cases env.item.call? with
  | none => rfl
  | some key => simp [apply_ite Option.toList]

/-- **The two pairing steps together**: what is no orphan stays, in order and as it is, each call
without an output followed by one. -/
theorem pairing_eq (uv5 : Text → Text) (l : List Envelope) :
    removeOrphanOutputs (ensureCallOutputsPresent uv5 l) =
      (l.filter fun env => !isOrphan (callIds l) env).flatMap fun env =>
        env :: (missingOutput uv5 (outputIds l) env).toList := by
  have hids : callIds (ensureCallOutputsPresent uv5 l) = callIds l := by
    rw [ensureCallOutputsPresent_eq, callIds, filterMap_flatMap, callIds,
      filterMap_eq_flatMap_toList]
    refine flatMap_congr fun env _ => ?_
    cases hmiss : missingOutput uv5 (outputIds l) env with
    | none => cases hc : env.item.call? <;> simp [hc]
    | some output =>
      obtain ⟨key, hc, hn, -⟩ := missingOutput_eq_some hmiss
      simp [hc, hn]
  rw [removeOrphanOutputs_eq, hids, ensureCallOutputsPresent_eq]
  refine filter_flatMap fun env hmem output hout => ?_
  obtain ⟨key, hc, -, hkey⟩ := missingOutput_eq_some hout
  simp only [Bool.not_eq_true', isOrphan_eq_false, output?_of_call? hc, hkey]
  exact ⟨nofun, fun _ h _ => mem_callIds.mpr ⟨env, hmem, h ▸ hc⟩⟩

/-- Every call has an output and every output a call. -/
structure Paired (l : List Envelope) : Prop where
  answered : ∀ envelope ∈ l, ∀ key, envelope.item.call? = some key → key ∈ outputIds l
  called : ∀ envelope ∈ l, isOrphan (callIds l) envelope = false

theorem pairing_paired (uv5 : Text → Text) (l : List Envelope) :
    Paired (removeOrphanOutputs (ensureCallOutputsPresent uv5 l)) := by
  rw [pairing_eq]
  -- A call is no orphan, so it stays, and so does what is called.
  have hc {env : Envelope} {key : ToolKind × Text} (hmem : env ∈ l)
      (hkey : env.item.call? = some key) : env ∈ l.filter fun env => !isOrphan (callIds l) env := by
    refine mem_filter.mpr ⟨hmem, ?_⟩
    rw [Bool.not_eq_true', isOrphan_eq_false, output?_of_call? hkey]
    exact nofun
  refine ⟨fun env henv key hkey => mem_outputIds.mpr ?_, fun env henv =>
    isOrphan_eq_false.mpr fun key hkey hser => mem_callIds.mpr ?_⟩
  · simp only [mem_flatMap, mem_cons, Option.mem_toList] at henv ⊢
    obtain ⟨s, hsrc, rfl | hins⟩ := henv
    · have hmem := (mem_filter.mp hsrc).1
      cases hmiss : missingOutput uv5 (outputIds l) env with
      | none =>
        obtain ⟨output, hout, hid⟩ := mem_outputIds.mp (missingOutput_eq_none.mp hmiss key hkey)
        refine ⟨output, ⟨output, mem_filter.mpr ⟨hout, ?_⟩, .inl rfl⟩, hid⟩
        rw [Bool.not_eq_true', isOrphan_eq_false, hid]
        rintro _ ⟨⟩ -
        exact mem_callIds.mpr ⟨env, hmem, hkey⟩
      | some output =>
        obtain ⟨o, ho, -, hid⟩ := missingOutput_eq_some hmiss
        obtain rfl := Option.some.inj (ho.symm.trans hkey)
        exact ⟨output, ⟨env, hsrc, .inr hmiss⟩, hid⟩
    · obtain ⟨o, -, hn, -⟩ := missingOutput_eq_some hins
      rw [hn] at hkey
      cases hkey
  · simp only [mem_flatMap, mem_cons, Option.mem_toList] at henv ⊢
    obtain ⟨s, hsrc, rfl | hins⟩ := henv
    · rw [mem_filter, Bool.not_eq_true', isOrphan_eq_false] at hsrc
      obtain ⟨caller, hcal, hid⟩ := mem_callIds.mp (hsrc.2 key hkey hser)
      exact ⟨caller, ⟨caller, hc hcal hid, .inl rfl⟩, hid⟩
    · obtain ⟨o, hid, -, ho⟩ := missingOutput_eq_some hins
      obtain rfl := Option.some.inj (ho.symm.trans hkey)
      exact ⟨s, ⟨s, hsrc, .inl rfl⟩, hid⟩

theorem Paired.pairing_eq (h : Paired l) :
    removeOrphanOutputs (ensureCallOutputsPresent uv5 l) = l := by
  rw [Normalize.pairing_eq, filter_eq_self.mpr fun e he => by simp [h.called e he]]
  refine (flatMap_congr fun env hmem => ?_).trans (flatMap_singleton' l)
  rw [missingOutput_eq_none.mpr (h.answered env hmem)]
  rfl

end Pairing

/-! ### Media -/

/-- A change of items that the pairing does not see. -/
structure KeepsIds (change : Item → Item) : Prop where
  call? : ∀ item, (change item).call? = item.call?
  output? : ∀ item, (change item).output? = item.output?
  server : ∀ item, (change item).isServerToolSearchOutput = item.isServerToolSearchOutput

theorem Paired.mapItems {change : Item → Item} {l : List Envelope} (h : Paired l)
    (hchan : KeepsIds change) : Paired (mapItems change l) := by
  have hcs : callIds (Normalize.mapItems change l) = callIds l := by
    simp [callIds, Normalize.mapItems, filterMap_map, hchan.call?]
  have hout : outputIds (Normalize.mapItems change l) = outputIds l := by
    simp [outputIds, Normalize.mapItems, filterMap_map, hchan.output?]
  refine ⟨fun env hmem key hkey => ?_, fun env hmem => ?_⟩
  · obtain ⟨s, hsrc, rfl⟩ := mem_map.mp hmem
    rw [hout]
    exact h.answered s hsrc key ((hchan.call? _).symm.trans hkey)
  · obtain ⟨s, hsrc, rfl⟩ := mem_map.mp hmem
    have hcal := h.called s hsrc
    rw [isOrphan] at hcal ⊢
    rwa [hcs, hchan.output?, hchan.server]

section Content

variable {c c' : ContentItem × Text → ContentItem × Text}
  {output output' : FunctionCallOutputContentItem → FunctionCallOutputContentItem}
  {g g' : Text → Text}

theorem keepsIds_mapContent : KeepsIds (mapContent c output g) := by
  constructor <;> intro item <;> unfold mapContent <;> split <;> rfl

/-- Content that was set together with its kinds is read back so. -/
theorem toAnnotatedContent_set (a : List (ContentItem × Text)) (m : MessageMetadata) :
    toAnnotatedContent (a.map (·.1))
      (some { m with contentItemKinds := some (a.map (·.2)) }) = a := by
  have hzip (r : List Text) : (a.map (·.1)).zip (a.map (·.2) ++ r) = a := by
    induction a with
    | nil => rfl
    | cons first a ih => exact congrArg (first :: ·) ih
  exact hzip _

theorem mapContent_mapContent (i : Item) :
    mapContent c output g (mapContent c' output' g' i) =
      mapContent (c ∘ c') (output ∘ output') (g ∘ g') i := by
  cases i with
  | message l m p =>
    simp only [mapContent, toAnnotatedContent_set]
    simp only [Option.getD_some, map_map]
  | functionCallOutput id cid n tn p m | customToolCallOutput id cid n p m =>
    obtain ⟨b | l, s⟩ := p
    · rfl
    · simp only [mapContent, map_map]
  | _ => rfl

/-- Where none of the media is left, there is nothing to replace. -/
theorem strip_mapContent (m : UnsupportedMedia) (hcont : ∀ a, m.isContent (c a).1 = false)
    (hout : ∀ i, m.isOutput (output i) = false) (hgen : ∀ r, m.generated (g r) = g r) (i : Item) :
    m.strip (mapContent c output g i) = mapContent c output g i := by
  rw [UnsupportedMedia.strip, mapContent_mapContent]
  congr 1 <;> funext v
  · exact if_neg (by simp [hcont v])
  · exact if_neg (by simp [hout v])
  · exact hgen v

end Content

open UnsupportedMedia

theorem image_strip_again (i : Item) : image.strip (image.strip i) = image.strip i := by
  refine strip_mapContent image (fun ⟨c, _⟩ => ?_) (fun output => ?_) (fun _ => rfl) i
  · cases c <;> rfl
  · cases output <;> rfl

theorem audio_strip_again (i : Item) : audio.strip (audio.strip i) = audio.strip i := by
  refine strip_mapContent audio (fun ⟨c, _⟩ => ?_) (fun output => ?_) (fun _ => rfl) i
  · cases c <;> rfl
  · cases output <;> rfl

theorem image_strip_audio (i : Item) :
    image.strip (audio.strip (image.strip i)) = audio.strip (image.strip i) := by
  have hboth : audio.strip (image.strip i) =
      mapContent (audio.replaceContent ∘ image.replaceContent)
        (audio.replaceOutput ∘ image.replaceOutput) (audio.generated ∘ image.generated) i :=
    mapContent_mapContent i
  rw [hboth]
  refine strip_mapContent image (fun ⟨c, _⟩ => ?_) (fun output => ?_) (fun _ => rfl) i
  · cases c <;> rfl
  · cases output <;> rfl

/-! ### The whole pass -/

/-- Both replacements of media. -/
def strip (modalities : List InputModality) (l : List Envelope) : List Envelope :=
  stripAudioWhenUnsupported modalities (stripImagesWhenUnsupported modalities l)

theorem Paired.strip {l : List Envelope} (ms : List InputModality)
    (h : Paired l) : Paired (strip ms l) := by
  rw [Normalize.strip, stripAudioWhenUnsupported, stripImagesWhenUnsupported]
  split_ifs
  · exact h
  · exact h.mapItems keepsIds_mapContent
  · exact h.mapItems keepsIds_mapContent
  · exact (h.mapItems keepsIds_mapContent).mapItems keepsIds_mapContent

theorem strip_strip (ms : List InputModality) (l : List Envelope) :
    strip ms (strip ms l) = strip ms l := by
  simp only [strip, stripAudioWhenUnsupported, stripImagesWhenUnsupported]
  split_ifs
  · rfl
  · simp [mapItems, image_strip_again]
  · simp [mapItems, audio_strip_again]
  · simp [mapItems, audio_strip_again, image_strip_audio]

/-- **A normalized history answers every call and calls every output, and stays as it is.**  The
pairing steps keep all but the orphans, and put an output right behind a call that has none. -/
theorem normalizeHistory_pairs (uuidV5 : Text → Text) (modalities : List InputModality)
    (items : List Envelope) :
    let normalized := normalizeHistory uuidV5 modalities items
    (∀ env ∈ normalized, ∀ key, env.item.call? = some key →
      ∃ output ∈ normalized, output.item.output? = some key) ∧
    (∀ env ∈ normalized, ∀ key, env.item.output? = some key →
      env.item.isServerToolSearchOutput = false →
      ∃ call ∈ normalized, call.item.call? = some key) ∧
    removeOrphanOutputs (ensureCallOutputsPresent uuidV5 items) =
      ((items.filter fun env => env.item.isServerToolSearchOutput ||
          env.item.output?.all fun key => items.any (·.item.call? == some key)).flatMap fun env =>
        env :: if env.item.call?.any fun key => items.all (·.item.output? != some key)
          then ((syntheticOutput uuidV5 env.item).map (⟨·, none⟩)).toList else []) ∧
    normalizeHistory uuidV5 modalities normalized = normalized := by
  have hpair := (pairing_paired uuidV5 items).strip modalities
  refine ⟨fun env hmem key hkey => mem_outputIds.mp (hpair.answered env hmem key hkey),
    fun env hmem key hkey hser => mem_callIds.mp
      (isOrphan_eq_false.mp (hpair.called env hmem) key hkey hser),
    ?_, ?_⟩
  · simp only [pairing_eq, not_isOrphan_eq, missingOutput_toList]
  · exact (congrArg (strip modalities) hpair.pairing_eq).trans (strip_strip modalities _)

end SushiGpt.Core.Normalize
