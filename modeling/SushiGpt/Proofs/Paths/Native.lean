/-
Native paths and their URIs.

The code goes back and forth between the two: entries and questions are URIs, roots are
native paths.  A native path whose URI is lexical has the same names as its place
(`place_fromAbsPath`), and the URI leads back to it (`toAbsPath_fromAbsPath`).  The paths
without a lexical URI are those that start with something like `C:`, which would be read
as a drive.
-/
import SushiGpt.Proofs.Paths.PathUri

namespace SushiGpt

open List Percent

namespace AbsolutePath

def names (path : AbsolutePath) : List Text := path.map FileName.text

theorem names_injective : Function.Injective names :=
  map_injective_iff.2 fun ⟨_, _⟩ ⟨_, _⟩ h => by cases h; rfl

theorem names_le_iff {a b : AbsolutePath} : names a <+: names b ↔ a <+: b := by
  constructor
  · rintro ⟨r, hrest⟩
    obtain ⟨a', r', rfl, ha', -⟩ := map_eq_append_iff.1 hrest.symm
    rw [names_injective ha']
    exact prefix_append _ _
  · intro h
    exact h.map _

theorem names_concat (p : AbsolutePath) (n : FileName) :
    names (p ++ [n]) = names p ++ [n.text] := by
  simp [names]

theorem slash_not_mem (n : FileName) : '/' ∉ n.text := by
  have h := n.valid
  unfold isFileName at h
  simp only [ne_eq, Bool.and_eq_true, Bool.not_eq_true', contains_eq_mem,
    decide_eq_false_iff_not] at h
  exact h.1.1.2

theorem text_ne_nil (n : FileName) : n.text ≠ [] := by
  have h := n.valid
  unfold isFileName at h
  simp only [Bool.and_eq_true, decide_eq_true_eq] at h
  exact h.1.1.1

theorem text_ne_dotdot (n : FileName) : n.text ≠ ['.', '.'] := by
  have h := n.valid
  unfold isFileName at h
  simp only [Bool.and_eq_true, decide_eq_true_eq] at h
  exact h.2

/-! ### Reading path text -/

theorem pushComponent_name (p : AbsolutePath) (n : FileName) :
    pushComponent p n.text = p ++ [n] := by
  have hof : FileName.ofText? n.text = some n := dif_pos n.valid
  unfold pushComponent
  rw [if_neg (text_ne_dotdot n), hof]
  rfl

theorem foldl_pushComponent : ∀ (more : List FileName) (p : AbsolutePath),
    (more.map FileName.text).foldl pushComponent p = p ++ more := by
  intro more
  induction more with
  | nil => intro p; exact (append_nil p).symm
  | cons name rest ih =>
    intro p
    rw [map_cons, foldl_cons, pushComponent_name, ih, append_assoc]
    rfl

/-- Text with a slash before every name is read name by name. -/
theorem normalizeFrom_slashes {ts : List Text} (h : ∀ t ∈ ts, '/' ∉ t) :
    normalizeFrom [] (ts.flatMap fun t => '/' :: t) = ts.foldl pushComponent [] := by
  have hjoin : (ts.flatMap fun t => '/' :: t) = ['/'].intercalate ([] :: ts) :=
    (Text.join_cons '/' [] ts).symm
  unfold normalizeFrom Text.split
  rw [hjoin, splitOn_intercalate]
  · rfl
  · exact forall_mem_cons.2 ⟨by simp, h⟩
  · simp

/-- Absolute text is read the same whatever the home directory is. -/
theorem fromAbsolutePathChecked_slashes (env : PathEnv) {ts : List Text} (hne : ts ≠ [])
    (h : ∀ t ∈ ts, '/' ∉ t) :
    fromAbsolutePathChecked env (ts.flatMap fun t => '/' :: t) =
      some (ts.foldl pushComponent []) := by
  obtain ⟨first, r, rfl⟩ := exists_cons_of_ne_nil hne
  rw [← normalizeFrom_slashes h]
  rfl

theorem toText_eq {p : AbsolutePath} (hne : p ≠ []) :
    p.toText = (names p).flatMap fun t => '/' :: t := by
  cases p with
  | nil => exact absurd rfl hne
  | cons first r => exact (flatMap_map ..).symm

theorem fromAbsolutePathChecked_toText (env : PathEnv) (p : AbsolutePath) :
    fromAbsolutePathChecked env p.toText = some p := by
  by_cases hr : p = []
  · rw [hr]
    rfl
  · have hne : names p ≠ [] := by simpa [names] using hr
    rw [toText_eq hr, fromAbsolutePathChecked_slashes env hne, names, foldl_pushComponent,
      nil_append]
    intro t htext
    obtain ⟨n, -, rfl⟩ := mem_map.1 htext
    exact slash_not_mem n

/-- A relative path that does not start at the home directory is read name by name. -/
theorem join_relativeText (env : PathEnv) (p : AbsolutePath) {more : List FileName}
    (hne : more ≠ []) (hhome : (relativeText more).head? ≠ some '~') :
    p.join env (relativeText more) = p ++ more := by
  have hexp : maybeExpandHomeDirectory env (relativeText more) = relativeText more := by
    unfold maybeExpandHomeDirectory
    split
    · rename_i heq _
      rw [heq] at hhome
      exact absurd rfl hhome
    · rename_i heq _
      rw [heq] at hhome
      exact absurd rfl hhome
    · rfl
  have hrel : isAbsolute (relativeText more) = false := by
    obtain ⟨n, more, rfl⟩ := exists_cons_of_ne_nil hne
    unfold isAbsolute relativeText
    rw [map_cons, Text.join_cons, head?_append_of_ne_nil _ (text_ne_nil n), beq_eq_false_iff_ne]
    intro hhead
    exact slash_not_mem n (mem_of_head? hhead)
  show normalizeFrom (if isAbsolute (maybeExpandHomeDirectory env (relativeText more)) = true
    then [] else p) (maybeExpandHomeDirectory env (relativeText more)) = p ++ more
  rw [hexp, hrel]
  unfold normalizeFrom Text.split relativeText Text.join
  rw [splitOn_intercalate '/' ?_ (by simpa using hne)]
  · exact foldl_pushComponent more p
  · intro t htext
    obtain ⟨n, -, rfl⟩ := mem_map.1 htext
    exact slash_not_mem n

end AbsolutePath

namespace PathUri

open AbsolutePath

variable {p : AbsolutePath}

/-- The path's URI is a lexical one. -/
def Lexical (path : AbsolutePath) : Prop :=
  (∀ name ∈ path, '\x00' ∉ name.text) ∧
    ∀ name ∈ path.head?, isWindowsDriveUriSegment (encode reservedInSegment name.text) = false

theorem lexical_nil : Lexical [] := ⟨nofun, nofun⟩

theorem decode_encoded (t : Text) : decode (encode reservedInSegment t) = t :=
  decode_encode (by decide) t

theorem nonEmptySegments_fileUrl (p : AbsolutePath) :
    nonEmptySegments (fileUrlSegments p) = p.map fun n => encode reservedInSegment n.text := by
  unfold fileUrlSegments nonEmptySegments
  cases p with
  | nil => rfl
  | cons first r =>
    rw [filter_eq_self]
    intro g hseg
    obtain ⟨n, -, rfl⟩ := mem_map.1 hseg
    have hne := @Percent.encode_ne_nil reservedInSegment _ (text_ne_nil n)
    cases henc : encode reservedInSegment n.text with
    | nil => exact absurd henc hne
    | cons _ _ => rfl

theorem fileUrl_no_nul (p : AbsolutePath) :
    (∀ s ∈ fileUrlSegments p, '\x00' ∉ decode s) ↔ ∀ n ∈ p, '\x00' ∉ n.text := by
  cases p with
  | nil =>
    refine iff_of_true ?_ nofun
    intro s hs
    obtain rfl := mem_singleton.1 hs
    decide
  | cons first r =>
    unfold fileUrlSegments
    simp only [mem_map, forall_exists_index, and_imp, forall_apply_eq_imp_iff₂, decode_encoded]

theorem isAlpha_toUpper {c : Char} (h : c.isAlpha = true) : c.toUpper.isAlpha = true := by
  unfold Char.toUpper
  split
  · rename_i hlower
    have hlow : 97 ≤ c.val.toNat := hlower.1
    have hhigh : c.val.toNat ≤ 122 := hlower.2
    have hsub : (c.val + ('A'.val - 'a'.val)).toNat = c.val.toNat - 32 := by
      rw [UInt32.toNat_add, show ('A'.val - 'a'.val : UInt32).toNat = 4294967264 by decide]
      omega
    delta Char.isAlpha Char.isUpper
    rw [Bool.or_eq_true, decide_eq_true_eq]
    left
    refine ⟨UInt32.le_iff_toNat_le.2 ?_, UInt32.le_iff_toNat_le.2 ?_⟩
    · show 65 ≤ (c.val + ('A'.val - 'a'.val)).toNat
      omega
    · show (c.val + ('A'.val - 'a'.val)).toNat ≤ 90
      omega
  · exact h

/-- A drive with an upper-case letter is still a drive. -/
theorem isWindowsDriveUriSegment_toUpper {c : Char} {cs : Text}
    (h : isWindowsDriveUriSegment (c :: cs) = true) :
    isWindowsDriveUriSegment (c.toUpper :: cs) = true := by
  unfold isWindowsDriveUriSegment at h
  split at h
  · rename_i d heq
    obtain ⟨rfl, rfl⟩ := List.cons.inj heq
    exact isAlpha_toUpper h
  · rename_i d a heq
    obtain ⟨rfl, rfl⟩ := List.cons.inj heq
    rw [Bool.and_eq_true] at h
    show (c.toUpper.isAlpha && (a == 'A' || a == 'a')) = true
    rw [isAlpha_toUpper h.1, h.2]
    rfl
  · cases h

theorem head_fileUrl_not_drive (h : Lexical p) :
    ∀ s ∈ (nonEmptySegments (fileUrlSegments p)).head?, isWindowsDriveUriSegment s = false := by
  rw [nonEmptySegments_fileUrl]
  intro s hs
  cases p with
  | nil => cases hs
  | cons first r =>
    obtain rfl := Option.some.inj hs
    exact h.2 first rfl

theorem fromAbsPath_of_lexical (h : Lexical p) :
    fromAbsPath p = url none (fileUrlSegments p) ((fileUrl_no_nul p).2 h.1) := by
  have hsame : normalizeDriveLetter (fileUrlSegments p) = fileUrlSegments p :=
    normalizeDriveLetter_eq_self _ (head_fileUrl_not_drive h)
  have htry : tryFrom none (fileUrlSegments p) =
      .ok (url none (fileUrlSegments p) ((fileUrl_no_nul p).2 h.1)) := by
    unfold tryFrom
    simp only [Option.isSome_none, Bool.false_eq_true, if_false, hsame]
    exact dif_pos ((fileUrl_no_nul p).2 h.1)
  unfold fromAbsPath
  rw [htry]
  exact if_pos ((convention_url _ _).2 (head_fileUrl_not_drive h))

theorem fromAbsPath_of_not_lexical (h : ¬ Lexical p) : fromAbsPath p = fallback p.toText := by
  unfold fromAbsPath
  cases htry : tryFrom none (fileUrlSegments p) with
  | error e => rfl
  | ok uri =>
    refine if_neg fun hcv => h ?_
    -- A URI of the POSIX convention was not normalised, so the path is lexical.
    unfold tryFrom at htry
    simp only [Option.isSome_none, Bool.false_eq_true, if_false] at htry
    split at htry
    · rename_i hvd
      obtain rfl := Except.ok.inj htry
      rw [convention_url] at hcv
      cases p with
      | nil => exact lexical_nil
      | cons first r =>
        obtain ⟨c, cs, henc⟩ := exists_cons_of_ne_nil
          (@Percent.encode_ne_nil reservedInSegment _ (text_ne_nil first))
        have hseg : fileUrlSegments (first :: r) = (c :: cs) ::
            r.map fun n => encode reservedInSegment n.text := by
          rw [← henc]
          rfl
        have hdrive : isWindowsDriveUriSegment (c :: cs) = false := by
          by_contra htrue
          rw [Bool.not_eq_false] at htrue
          rw [hseg, normalizeDriveLetter, if_pos htrue] at hcv
          have hupp := hcv (c.toUpper :: cs) rfl
          rw [isWindowsDriveUriSegment_toUpper htrue] at hupp
          cases hupp
        rw [hseg, normalizeDriveLetter, hdrive] at hvd
        rw [if_neg (by decide), ← hseg, fileUrl_no_nul] at hvd
        refine ⟨hvd, fun n hnm => ?_⟩
        obtain rfl := Option.some.inj hnm
        rw [henc]
        exact hdrive
    · cases htry

/-- **The place of a native path is the list of its names.** -/
theorem place_fromAbsPath (h : Lexical p) : (fromAbsPath p).place = some (names p) := by
  have hcv := (convention_url _ ((fileUrl_no_nul p).2 h.1)).2 (head_fileUrl_not_drive h)
  have hsep : containmentPathSegments (fileUrlSegments p) .posix =
      some (nonEmptySegments (fileUrlSegments p)) := by
    rw [containment_eq_some, nonEmptySegments_fileUrl]
    intro s hs c hc
    obtain ⟨n, -, rfl⟩ := mem_map.1 hs
    rw [decode_encoded] at hc
    have hne : c ≠ '/' := by
      rintro rfl
      exact slash_not_mem n hc
    simp [PathConvention.isSeparator, hne]
  rw [fromAbsPath_of_lexical h, place, if_pos hcv, hsep, Option.map_some,
    nonEmptySegments_fileUrl, map_map]
  simp only [Function.comp_def, decode_encoded, names]

theorem place_fromAbsPath_eq_none (h : ¬ Lexical p) : (fromAbsPath p).place = none := by
  rw [fromAbsPath_of_not_lexical h]
  rfl

theorem convention_fromAbsPath (p : AbsolutePath) :
    (fromAbsPath p).inferPathConvention = some .posix := by
  by_cases h : Lexical p
  · exact convention_of_place (place_fromAbsPath h)
  · rw [fromAbsPath_of_not_lexical h]
    cases p with
    | nil | cons first r => rfl

/-- The URI of a native path leads back to it. -/
theorem toAbsPath_fromAbsPath (env : PathEnv) (p : AbsolutePath) :
    (fromAbsPath p).toAbsPath env = some p := by
  have hcv := convention_fromAbsPath p
  unfold toAbsPath
  rw [if_neg (not_not.2 hcv)]
  by_cases h : Lexical p
  · rw [fromAbsPath_of_lexical h]
    dsimp only
    by_cases hr : p = []
    · rw [hr]
      rfl
    · have htx : (fileUrlSegments p).flatMap (fun s => '/' :: decode s) =
          (names p).flatMap fun t => '/' :: t := by
        cases p with
        | nil => exact absurd rfl hr
        | cons first r =>
          unfold fileUrlSegments names
          rw [flatMap_map, flatMap_map]
          simp only [decode_encoded]
      rw [htx, ← toText_eq hr, fromAbsolutePathChecked_toText]
  · have hfal := fromAbsPath_of_not_lexical h
    rw [hfal]
    dsimp only
    rw [fromAbsolutePathChecked_toText]
    simp [hfal, same]

/-- Plain names below a lexical path are lexical. -/
theorem Lexical.append (h : Lexical p) {more : List FileName}
    (hplain : ∀ n ∈ more, PlainName n.text) : Lexical (p ++ more) := by
  refine ⟨fun n hn => ?_, fun n hn => ?_⟩
  · rcases mem_append.1 hn with hn | hn
    · exact h.1 n hn
    · exact (hplain n hn).not_mem (by decide)
  · cases p with
    | nil =>
      have hnm := hplain n (mem_of_head? hn)
      rw [hnm.encode_eq]
      exact hnm.not_drive
    | cons first r => exact h.2 n hn

theorem Lexical.above (h : Lexical p) {dir : AbsolutePath} (hle : dir <+: p) : Lexical dir := by
  obtain ⟨r, rfl⟩ := hle
  refine ⟨fun n hnm => h.1 n (mem_append_left _ hnm), fun n hnm => ?_⟩
  refine h.2 n ?_
  cases dir with
  | nil => cases hnm
  | cons first m => exact hnm

end PathUri

end SushiGpt
