/-
Joins with any text.

What a join appends is cut at the slashes of the text, so no name of the result hides one: from
a URI that can be compared a join leads to another one, to bytes that only equal themselves, or
to a path of the other convention.
-/
import SushiGpt.Lib.Lists
import SushiGpt.Proofs.Paths.Native

namespace SushiGpt

open List Option Percent

/-- What the `url` crate appends for a name without a slash has no slash in it. -/
structure UrlOps.AppendsNames (u : UrlOps) : Prop where
  push_names : ∀ segments name, '/' ∉ name →
    ∀ s ∈ u.push segments name, s ∈ segments ∨ '/' ∉ decode s

theorem UrlOps.encoding_appendsNames : UrlOps.encoding.AppendsNames := by
  refine ⟨fun gs n hnm s hs => ?_⟩
  have hdec : decode (encode reservedInSegment n) = n := decode_encode (by decide) n
  unfold UrlOps.encoding at hs
  dsimp only at hs
  split_ifs at hs
  · exact .inl hs
  · rw [mem_singleton.mp hs, hdec]
    exact .inr hnm
  · rcases mem_append.mp hs with hs | hs
    · exact .inl hs
    · rw [mem_singleton.mp hs, hdec]
      exact .inr hnm

variable {n : Text} {ns k : List Text}

namespace PathUri

variable {u : UrlOps} {uri b j : PathUri} {gs : List Text} {p : Text}

/-- A POSIX URI is one that can be compared with others, or bytes that are passed over. -/
def Readable (uri : PathUri) : Prop :=
  uri.inferPathConvention = some .posix → uri.place.isSome = true ∨ uri.isOpaque = true

theorem readable_fallback (bs : Text) : Readable (fallback bs) := fun _ => .inr rfl

theorem readable_of_lexicalDepth (h : uri.lexicalDepth.isSome = true) : uri.Readable := by
  intro hcv
  rw [lexicalDepth_eq hcv, isSome_map] at h
  exact .inl h

theorem eq_ok_of_toOption {ε α : Type*} {r : Except ε α} {a : α}
    (h : r.toOption = some a) : r = .ok a := by
  cases r with
  | error e => cases h
  | ok b => exact congrArg Except.ok (some.inj h)

/-- No segment hides a slash. -/
def Plain (segments : List Text) : Prop := ∀ s ∈ segments, '/' ∉ decode s

theorem plain_of_place {valid} (h : (url none gs valid).place = some k) : Plain gs := by
  obtain ⟨-, hseg, -⟩ := place_url h
  intro s hs hslash
  cases s with
  | nil => cases hslash
  | cons c cs =>
    have hne : c :: cs ∈ nonEmptySegments gs := mem_filter.mpr ⟨hs, rfl⟩
    have := containment_eq_some.mp hseg _ hne '/' hslash
    simp [PathConvention.isSeparator] at this

/-- The drive letter of a path that follows the POSIX convention was not touched. -/
theorem normalizeDriveLetter_of_posix :
    ∀ {gs : List Text},
      (∀ s ∈ (nonEmptySegments (normalizeDriveLetter gs)).head?,
        isWindowsDriveUriSegment s = false) → normalizeDriveLetter gs = gs
  | [], _ => rfl
  | [] :: r, h => congrArg ([] :: ·) (normalizeDriveLetter_of_posix h)
  | (c :: cs) :: r, h => by
    unfold normalizeDriveLetter at h ⊢
    split_ifs with hdrive
    · rw [if_pos hdrive] at h
      have hupp := h (c.toUpper :: cs) rfl
      rw [isWindowsDriveUriSegment_toUpper hdrive] at hupp
      cases hupp
    · rfl

theorem readable_tryFrom {host : Option Text} (hplain : Plain gs)
    (h : tryFrom host gs = .ok uri) : uri.Readable := by
  intro hcv
  unfold tryFrom at h
  dsimp only at h
  split_ifs at h with hhost hvd hvd
  · obtain rfl := Except.ok.inj h
    obtain rfl := host_of_posix hcv
    cases hhost
  · obtain rfl := Except.ok.inj h
    obtain rfl := host_of_posix hcv
    have hsame := normalizeDriveLetter_of_posix ((convention_url _ _).mp hcv)
    have hseg : containmentPathSegments (normalizeDriveLetter gs) .posix =
        some (nonEmptySegments (normalizeDriveLetter gs)) := by
      rw [hsame, containment_eq_some]
      intro s hs c hc
      refine Bool.eq_false_iff.mpr fun hsep => hplain s (mem_of_mem_filter hs) ?_
      have hslash : c = '/' := by simpa [PathConvention.isSeparator] using hsep
      exact hslash ▸ hc
    left
    rw [place, if_pos hcv, hseg]
    rfl

theorem Plain.push (hu : u.AppendsNames) (h : Plain gs) (hnm : '/' ∉ n) :
    Plain (u.push gs n) := fun s hs =>
  (hu.push_names gs n hnm s hs).elim (h s) id

theorem Plain.popIfEmpty (h : Plain gs) : Plain (popIfEmpty gs) :=
  fun s hs => h s (popIfEmpty_subset hs)

theorem Plain.popSegment (h : Plain gs) : Plain (popSegment gs) := by
  intro s hs
  unfold SushiGpt.popSegment at hs
  split_ifs at hs
  · rw [mem_singleton.mp hs]
    exact not_mem_nil
  · exact h s (mem_of_mem_dropLast hs)

theorem Plain.foldl_joinComponent (hu : u.AppendsNames) {d : Nat} (h : Plain gs)
    (hnam : ∀ n ∈ ns, '/' ∉ n) : Plain (ns.foldl (joinComponent u) (gs, d)).1 := by
  refine foldlRecOn (motive := fun s : List Text × Nat => Plain s.1) ns _ h fun s h n hn => ?_
  rw [joinComponent]
  split_ifs
  · exact h
  · exact h.popSegment
  · exact h
  · exact h.push hu (hnam n hn)

/-- The names that an absolute path keeps are pieces of its text. -/
theorem foldl_normalizeSegment {s : List Text × Bool} :
    n ∈ (ns.foldl normalizeSegment s).1 → n ∈ ns ∨ n ∈ s.1 := by
  refine foldlRecOn (motive := fun t : List Text × Bool => n ∈ t.1 → n ∈ ns ∨ n ∈ s.1) ns _ .inr
    fun t ih first hfst h => ?_
  unfold normalizeSegment at h
  split_ifs at h
  · exact ih h
  · exact ih h
  · exact ih (mem_of_mem_dropLast h)
  · rcases mem_append.mp h with h | h
    · exact ih h
    · exact .inl (mem_singleton.mp h ▸ hfst)

theorem readable_fromAbsolutePosixPath (hu : u.AppendsNames)
    (h : fromAbsolutePosixPath u p = some uri) : uri.Readable := by
  unfold fromAbsolutePosixPath at h
  split at h
  · rename_i r
    split_ifs at h with hnul
    · simp only [bind_eq_bind, bind_some] at h
      split_ifs at h <;> exact some.inj h ▸ readable_fallback _
    · cases hp : pathUriFromSegments u (Text.split '/' r) with
      | none =>
        rw [hp] at h
        cases h
      | some a =>
        rw [hp] at h
        simp only [bind_eq_bind, bind_some] at h
        split_ifs at h
        · obtain rfl := some.inj h
          unfold pathUriFromSegments at hp
          refine readable_tryFrom ?_ (eq_ok_of_toOption hp)
          refine foldlRecOn (motive := Plain) _ _ ?_ fun gs h n hnm => h.push hu ?_
          · intro s hs
            rw [mem_singleton.mp hs]
            exact not_mem_nil
          · have hkept : n = [] ∨
                n ∈ ((Text.split '/' r).foldl normalizeSegment ([], false)).1 := by
              split_ifs at hnm
              · exact (mem_append.mp hnm).symm.imp_left mem_singleton.mp
              · exact .inr hnm
            rcases hkept with rfl | hkept
            · exact not_mem_nil
            · exact Lists.not_mem_of_mem_splitOn
                ((foldl_normalizeSegment hkept).resolve_right not_mem_nil)
        · exact some.inj h ▸ readable_fallback _
  · cases h

/-- **A join does not hide a slash.** -/
theorem readable_join (hu : u.AppendsNames) (hcv : b.inferPathConvention = some .posix)
    (hbase : b.Readable) (h : b.join u p = .ok j) : j.Readable := by
  unfold join at h
  split_ifs at h with hnul hem
  · exact Except.ok.inj h ▸ hbase
  · rw [hcv] at h
    dsimp only at h
    split at h
    · rename_i a _ habs
      exact Except.ok.inj h ▸ readable_fromAbsolutePosixPath hu habs
    · cases h
    · rename_i host gs v _
      obtain rfl := host_of_posix hcv
      have hpl : (url none gs v).place.isSome = true := (hbase hcv).resolve_right Bool.false_ne_true
      obtain ⟨k, hk⟩ := isSome_iff_exists.mp hpl
      exact readable_tryFrom (Plain.foldl_joinComponent hu (plain_of_place hk).popIfEmpty
        fun n hnm => Lists.not_mem_of_mem_splitOn hnm) h

/-! ### Fixed places -/

theorem join_slashTmp (hu : u.AppendsPlain) (hcv : b.inferPathConvention = some .posix) :
    ∃ j, b.join u "/tmp".toList = .ok j ∧ j.place = some ["tmp".toList] := by
  have hvd : ∀ s ∈ ["tmp".toList], '\x00' ∉ decode s := by decide
  have hpush : u.push [[]] "tmp".toList = ["tmp".toList] :=
    (hu.push_plain _ _ (by refine ⟨all_eq_true.mp ?_, ?_, ?_, ?_⟩ <;> decide)).trans (if_pos rfl)
  have htmp : pathUriFromSegments u ["tmp".toList] = some (url none ["tmp".toList] hvd) := by
    show (tryFrom none (u.push [[]] "tmp".toList)).toOption = _
    rw [hpush]
    rfl
  have habs : fromAbsolutePosixPath u "/tmp".toList = some (url none ["tmp".toList] hvd) := by
    have hsp : Text.split '/' "tmp".toList = ["tmp".toList] := by decide
    have htext : "/tmp".toList = '/' :: "tmp".toList := by decide
    rw [htext, fromAbsolutePosixPath, if_neg (by decide), hsp, htmp]
    rfl
  refine ⟨url none ["tmp".toList] hvd, ?_, rfl⟩
  unfold join
  rw [if_neg (by decide), if_neg (by decide), hcv]
  simp only [habs]

theorem place_of_parent_isNone (h : uri.place = some k)
    (hpar : uri.parent.isNone = true) : k = [] := by
  obtain ⟨gs, v, rfl⟩ := exists_url_of_place h
  obtain ⟨hcv, -, rfl⟩ := place_url h
  by_contra hne
  have hlen : nonEmptySegments gs ≠ [] := fun heq => hne (by rw [heq]; rfl)
  simp [parent, hcv, hlen] at hpar

/-- A path with one name is placed at the name it shows. -/
theorem place_of_basename (h : uri.place = some k) (hdep : uri.lexicalDepth = some 1)
    (hnm : uri.basename = some n) (hplain : '%' ∉ n) : k = [n] := by
  rw [lexicalDepth_eq (convention_of_place h), h, map_some, some.injEq] at hdep
  obtain ⟨gs, v, rfl⟩ := exists_url_of_place h
  obtain ⟨-, -, rfl⟩ := place_url h
  obtain ⟨s, hs⟩ : ∃ s, nonEmptySegments gs = [s] := length_eq_one_iff.mp (by simpa using hdep)
  rw [basename, hs, getLast?_singleton, map_some, some.injEq] at hnm
  rw [hs, map_singleton]
  unfold decodeUriPath at hnm
  dsimp only at hnm
  split_ifs at hnm
  · rw [hnm]
  · -- A name that is shown as it is spelled has nothing to decode.
    rw [hnm, decode_of_plain n hplain]

end PathUri

end SushiGpt
