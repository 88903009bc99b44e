/-
Lexical POSIX paths are places in a tree.

Whatever spelling a URI has, the permission code only ever asks three things of a
POSIX one: how deep it is, whether it lies below another, and what it becomes with a
name appended.  All three are answered by the list of its decoded names from the root,
its *place*: the depth is the length (`lexicalDepth_eq`), lying below is the prefix
order (`startsWith_iff`), and appending a plain name appends it (`joinDescendant_place`).
URIs without a place are the opaque ones and those with a slash inside a segment.
-/
import SushiGpt.Paths.PathUri

namespace SushiGpt

open List Percent Option

variable {uri : PathUri} {gs k : List Text}

namespace PathUri

/-- The decoded names from the root of a lexical POSIX path. -/
def place (uri : PathUri) : Option (List Text) :=
  match uri with
  | fallback _ => none
  | url _ gs _ =>
    if uri.inferPathConvention = some .posix then
      (containmentPathSegments gs .posix).map (List.map decode)
    else none

theorem containment_eq_some {con : PathConvention} :
    containmentPathSegments gs con = some (nonEmptySegments gs) ↔
      ∀ s ∈ nonEmptySegments gs, ∀ c ∈ decode s, con.isSeparator c = false := by
  simp [containmentPathSegments]

theorem place_url {valid} (h : (url none gs valid).place = some k) :
    (url none gs valid).inferPathConvention = some .posix ∧
      containmentPathSegments gs .posix = some (nonEmptySegments gs) ∧
      k = (nonEmptySegments gs).map decode := by
  simp only [place] at h
  split at h
  · rename_i hcv
    refine ⟨hcv, ?_⟩
    unfold containmentPathSegments at h ⊢
    split at h
    · cases h
    · rename_i hany
      rw [if_neg hany]
      exact ⟨rfl, (some.inj h).symm⟩
  · cases h

theorem host_of_posix {host : Option Text} {valid}
    (h : (url host gs valid).inferPathConvention = some .posix) : host = none := by
  cases host with
  | none => rfl
  | some host => cases h

theorem exists_url_of_place (h : uri.place = some k) : ∃ gs v, uri = url none gs v := by
  cases uri with
  | fallback bs => cases h
  | url host gs v =>
    have hcv : (url host gs v).inferPathConvention = some .posix := by
      simp only [place] at h
      split at h
      · assumption
      · cases h
    have hhost := host_of_posix hcv
    subst hhost
    exact ⟨gs, v, rfl⟩

theorem convention_of_place (h : uri.place = some k) : uri.inferPathConvention = some .posix := by
  obtain ⟨gs, v, rfl⟩ := exists_url_of_place h
  exact (place_url h).1

theorem convention_of_isSome (h : uri.place.isSome = true) :
    uri.inferPathConvention = some .posix := by
  obtain ⟨k, hk⟩ := Option.isSome_iff_exists.mp h
  exact convention_of_place hk

theorem lexicalDepth_eq (h : uri.inferPathConvention = some .posix) :
    uri.lexicalDepth = uri.place.map List.length := by
  cases uri with
  | fallback bs => rfl
  | url host gs v =>
    simp only [lexicalDepth, place, h, if_pos]
    show ((containmentPathSegments gs .posix).bind fun s => some s.length) = _
    cases containmentPathSegments gs .posix with
    | none => rfl
    | some s => simp

/-! ### Containment -/

theorem windowsIdentity_of_posix (h : uri.inferPathConvention = some .posix) :
    uri.windowsIdentityPathBytes = none := by
  cases uri with
  | fallback bs => rfl
  | url host gs v => simp [windowsIdentityPathBytes, h]

theorem same_iff {o : PathUri} (h : uri.inferPathConvention = some .posix) :
    uri.same o = true ↔ uri = o := by
  simp [same, windowsIdentity_of_posix h]

theorem nativePathSegmentsStartWith_posix : ∀ base path : List Text,
    nativePathSegmentsStartWith path base .posix = true ↔ base.map decode <+: path.map decode := by
  intro base
  induction base with
  | nil => intro path; simp [nativePathSegmentsStartWith]
  | cons b base ih =>
    intro path
    cases path with
    | nil => simp [nativePathSegmentsStartWith]
    | cons p path =>
      rw [map_cons, map_cons, cons_prefix_cons, ← ih path]
      simp only [nativePathSegmentsStartWith, nativeSegmentMatches, length_cons,
        Nat.add_le_add_iff_right, zip_cons_cons, all_cons, Bool.and_eq_true,
        decide_eq_true_eq, beq_iff_eq, eq_comm (a := decode p)]
      tauto

/-- **A placed path lies below exactly the URIs whose place is a prefix of its own.** -/
theorem startsWith_iff {base : PathUri} (h : uri.place = some k) :
    uri.startsWith base = true ↔ ∃ k', base.place = some k' ∧ k' <+: k := by
  have hcv := convention_of_place h
  obtain ⟨gs, valid, rfl⟩ := exists_url_of_place h
  obtain ⟨-, hseg, rfl⟩ := place_url h
  unfold startsWith
  rw [Bool.or_eq_true, same_iff hcv]
  constructor
  · rintro (rfl | hbel)
    · exact ⟨_, h, prefix_rfl⟩
    · cases base with
      | fallback bytes => cases hbel
      | url baseHost baseSegments baseValid =>
        simp only [hcv, getD_some, hseg, Bool.and_eq_true, beq_iff_eq] at hbel
        obtain ⟨⟨-, hbase⟩, hmat⟩ := hbel
        cases hc : containmentPathSegments baseSegments .posix with
        | none => rw [hc] at hmat; cases hmat
        | some b =>
          rw [hc] at hmat
          refine ⟨b.map decode, ?_, (nativePathSegmentsStartWith_posix _ _).1 hmat⟩
          simp only [place, ← hbase, if_true, hc, map_some]
  · rintro ⟨k', hbase, hle⟩
    right
    have hbconv := convention_of_place hbase
    obtain ⟨baseSegments, baseValid, rfl⟩ := exists_url_of_place hbase
    obtain ⟨-, hbseg, rfl⟩ := place_url hbase
    simp only [hcv, hbconv, getD_some, hseg, hbseg, beq_self_eq_true, Bool.true_and]
    exact (nativePathSegmentsStartWith_posix _ _).2 hle

/-- A POSIX URI without a place contains only itself. -/
theorem startsWith_of_place_eq_none {b : PathUri} (h : uri.inferPathConvention = some .posix)
    (hbase : b.place = none) : uri.startsWith b = true ↔ uri = b := by
  unfold startsWith
  rw [Bool.or_eq_true, same_iff h, or_iff_left_iff_imp]
  intro hbel
  cases uri with
  | fallback bytes => cases hbel
  | url host gs v =>
    cases b with
    | fallback bytes => cases hbel
    | url bh bs bv =>
      simp only [h, getD_some, Bool.and_eq_true, beq_iff_eq] at hbel
      obtain ⟨⟨-, hcv⟩, hmat⟩ := hbel
      simp only [place, ← hcv, if_true, map_eq_none_iff] at hbase
      rw [hbase] at hmat
      cases hc : containmentPathSegments gs .posix with
      | none | some s => rw [hc] at hmat; cases hmat

/-! ### Appending a name -/

theorem popIfEmpty_subset {s : Text} (h : s ∈ popIfEmpty gs) : s ∈ gs := by
  unfold popIfEmpty at h
  split at h
  · exact mem_of_mem_dropLast h
  · exact h

theorem nonEmptySegments_popIfEmpty (gs : List Text) :
    nonEmptySegments (popIfEmpty gs) = nonEmptySegments gs := by
  unfold popIfEmpty
  split
  · rename_i h
    obtain ⟨f, rfl⟩ := getLast?_eq_some_iff.1 h.2
    simp [nonEmptySegments]
  · rfl

/-- A path whose first name is no drive keeps its spelling. -/
theorem normalizeDriveLetter_eq_self : ∀ gs : List Text,
    (∀ s ∈ (nonEmptySegments gs).head?, isWindowsDriveUriSegment s = false) →
      normalizeDriveLetter gs = gs := by
  intro gs
  induction gs with
  | nil => intro _; rfl
  | cons s r ih =>
    intro h
    cases s with
    | nil =>
      show [] :: normalizeDriveLetter r = [] :: r
      rw [ih h]
    | cons c cs =>
      have hfst : isWindowsDriveUriSegment (c :: cs) = false := h _ rfl
      simp [normalizeDriveLetter, hfst]

theorem convention_url (gs : List Text) (valid) :
    (url none gs valid).inferPathConvention = some .posix ↔
      ∀ s ∈ (nonEmptySegments gs).head?, isWindowsDriveUriSegment s = false := by
  simp only [inferPathConvention]
  cases nonEmptySegments gs with
  | nil => simp
  | cons first r => cases hdrive : isWindowsDriveUriSegment first <;> simp [hdrive]

end PathUri

/-- Characters that every URL spells as they are. -/
def isUnreserved (c : Char) : Bool :=
  c.isAlphanum || c == '-' || c == '.' || c == '_' || c == '~'

/-- A file name of unreserved characters. -/
structure PlainName (n : Text) : Prop where
  unreserved : ∀ c ∈ n, isUnreserved c = true
  ne_nil : n ≠ []
  ne_dot : n ≠ ['.']
  ne_dotdot : n ≠ ['.', '.']

/-- The `url` crate appends a plain name to a path as it is: only `.` and `..` are
ignored and only other characters are spelled out.  The path `/` has one empty segment,
which the name takes the place of. -/
structure UrlOps.AppendsPlain (u : UrlOps) : Prop where
  push_plain : ∀ gs n, PlainName n → u.push gs n = if gs = [[]] then [n] else gs ++ [n]

/-- The percent-encoding of a URL's path, without anything for Windows. -/
def UrlOps.encoding : UrlOps where
  push gs n :=
    if n = ['.'] ∨ n = ['.', '.'] then gs
    else if gs = [[]] then [encode reservedInSegment n]
    else gs ++ [encode reservedInSegment n]
  base64 bytes := bytes
  nativeString _ := []
  validateGlobDirectory _ _ := .error []
  windowsJoin _ path := .error (.invalidFileUriPath path)
  fromAbsoluteWindowsPath _ := none

theorem reservedInSegment_of_unreserved {c : Char} (h : isUnreserved c = true) :
    reservedInSegment c = false := by
  have hn : (48 ≤ c.toNat ∧ c.toNat ≤ 57) ∨ (65 ≤ c.toNat ∧ c.toNat ≤ 90) ∨
      (97 ≤ c.toNat ∧ c.toNat ≤ 122) ∨ c.toNat = 45 ∨ c.toNat = 46 ∨ c.toNat = 95 ∨
      c.toNat = 126 := by
    delta isUnreserved Char.isAlphanum Char.isAlpha Char.isUpper Char.isLower at h
    simp only [Char.isDigit, Bool.or_eq_true, Bool.and_eq_true, decide_eq_true_eq, beq_iff_eq,
      UInt32.le_iff_toNat_le, ge_iff_le] at h
    rcases h with (((((h | h) | h) | rfl) | rfl) | rfl) | rfl
    · right; left; exact h
    · right; right; left; exact h
    · left; exact h
    all_goals decide
  have hmem : [0x20, 0x22, 0x23, 0x25, 0x2F, 0x3C, 0x3E, 0x3F, 0x5C, 0x60, 0x7B, 0x7D].contains
      c.toNat = false := by
    simp
    omega
  simp only [reservedInSegment, hmem, Bool.or_false, Bool.or_eq_false_iff, decide_eq_false_iff_not]
  omega

theorem PlainName.encode_eq {n : Text} (h : PlainName n) : encode reservedInSegment n = n :=
  encode_of_plain n fun c hc => reservedInSegment_of_unreserved (h.unreserved c hc)

theorem UrlOps.encoding_appendsPlain : UrlOps.encoding.AppendsPlain := by
  refine ⟨fun gs n hnm => ?_⟩
  simp [encoding, hnm.ne_dot, hnm.ne_dotdot, hnm.encode_eq]

/-- Text with a separator before every piece but the first. -/
theorem Text.join_cons (c : Char) (text : Text) (pieces : List Text) :
    Text.join c (text :: pieces) = text ++ pieces.flatMap fun piece => c :: piece := by
  unfold Text.join
  induction pieces generalizing text with
  | nil => simp
  | cons next pieces ih =>
    rw [intercalate_cons_cons, ih, flatMap_cons]
    simp

theorem Text.join_singleton (c : Char) (text : Text) : Text.join c [text] = text :=
  (Text.join_cons c text []).trans (append_nil text)

namespace PlainName

variable {n : Text}

theorem not_mem (h : PlainName n) {c : Char} (hc : isUnreserved c = false) : c ∉ n := by
  intro hmem
  rw [h.unreserved c hmem] at hc
  cases hc

theorem decode_eq (h : PlainName n) : decode n = n :=
  decode_of_plain n (h.not_mem (by decide))

theorem not_drive (h : PlainName n) : isWindowsDriveUriSegment n = false := by
  have hcol : ':' ∉ n := h.not_mem (by decide)
  have hper : '%' ∉ n := h.not_mem (by decide)
  unfold isWindowsDriveUriSegment
  split
  · simp at hcol
  · simp at hper
  · rfl

theorem head_ne_slash (h : PlainName n) : n.head? ≠ some '/' := by
  intro hhead
  exact h.not_mem (c := '/') (by decide) (mem_of_head? hhead)

theorem map_decode {ns : List Text} (hplain : ∀ n ∈ ns, PlainName n) : ns.map decode = ns := by
  conv_rhs => rw [← map_id ns]
  exact map_congr_left fun n hn => (hplain n hn).decode_eq

/-! Plain names with slashes between them. -/

variable {ns : List Text} (hplain : ∀ n ∈ ns, PlainName n)

include hplain

theorem split_join (hns : ns ≠ []) : Text.split '/' (Text.join '/' ns) = ns :=
  splitOn_intercalate '/' (fun n hn => (hplain n hn).not_mem (by decide)) hns

theorem not_mem_join {c : Char} (hc : isUnreserved c = false) (hslash : c ≠ '/') :
    c ∉ Text.join '/' ns := by
  cases ns with
  | nil => exact not_mem_nil
  | cons n ns =>
    have hnot : ∀ m ∈ n :: ns, c ∉ m := fun m hm => (hplain m hm).not_mem hc
    rw [Text.join_cons]
    grind

theorem head?_join_ne_slash : (Text.join '/' ns).head? ≠ some '/' := by
  cases ns with
  | nil => exact Option.some_ne_none _ ∘ Eq.symm
  | cons n ns =>
    have hnm := hplain n mem_cons_self
    rw [Text.join_cons, head?_append_of_ne_nil _ hnm.ne_nil]
    exact hnm.head_ne_slash

theorem join_ne_nil (hns : ns ≠ []) : Text.join '/' ns ≠ [] := by
  obtain ⟨n, ns, rfl⟩ := exists_cons_of_ne_nil hns
  rw [Text.join_cons]
  exact append_ne_nil_of_left_ne_nil (hplain n mem_cons_self).ne_nil _

end PlainName

namespace PathUri

variable {u : UrlOps} {n : Text} {ns : List Text}

theorem not_absolute {t : Text} (h : t.head? ≠ some '/') : fromAbsolutePosixPath u t = none := by
  unfold fromAbsolutePosixPath
  split
  · exact absurd rfl h
  · rfl

/-- Plain names are appended as they are, and nothing else is new. -/
theorem foldl_joinComponent_plain (hu : u.AppendsPlain) (hplain : ∀ n ∈ ns, PlainName n)
    (gs : List Text) (depth : Nat) :
    nonEmptySegments (ns.foldl (joinComponent u) (gs, depth)).1 = nonEmptySegments gs ++ ns ∧
      ∀ s ∈ (ns.foldl (joinComponent u) (gs, depth)).1, s ∈ gs ∨ s ∈ ns := by
  induction ns generalizing gs depth with
  | nil => exact ⟨(append_nil _).symm, fun s hs => .inl hs⟩
  | cons n ns ih =>
    obtain ⟨hnm, hplain⟩ := forall_mem_cons.1 hplain
    have hem : n.isEmpty = false := by
      rw [isEmpty_eq_false_iff]
      exact hnm.ne_nil
    have hstep : joinComponent u (gs, depth) n =
        (if gs = [[]] then [n] else gs ++ [n], depth + 1) := by
      rw [joinComponent, if_neg (by simp [hnm.ne_nil, hnm.ne_dot]), if_neg hnm.ne_dotdot,
        hu.push_plain _ _ hnm]
    have hpush : nonEmptySegments (if gs = [[]] then [n] else gs ++ [n]) =
        nonEmptySegments gs ++ [n] := by
      split
      · rename_i h
        rw [h]
        simp [nonEmptySegments, hem]
      · simp [nonEmptySegments, hem]
    obtain ⟨hsegs, hmem⟩ := ih hplain (if gs = [[]] then [n] else gs ++ [n]) (depth + 1)
    rw [foldl_cons, hstep]
    refine ⟨by rw [hsegs, hpush, append_assoc, singleton_append], fun s hs => ?_⟩
    rcases hmem s hs with hs | hs
    · split at hs <;> grind
    · exact .inr (mem_cons_of_mem _ hs)

theorem join_plain (hu : u.AppendsPlain) (hns : ns ≠ []) (hplain : ∀ n ∈ ns, PlainName n)
    {v : ∀ s ∈ gs, '\x00' ∉ decode s}
    (hcv : (url none gs v).inferPathConvention = some .posix) :
    ∃ j v', (url none gs v).join u (Text.join '/' ns) = .ok (url none j v') ∧
      nonEmptySegments j = nonEmptySegments gs ++ ns ∧
      (url none j v').inferPathConvention = some .posix := by
  obtain ⟨hne, hmem⟩ := foldl_joinComponent_plain hu hplain (popIfEmpty gs)
    (nonEmptySegments gs).length
  rw [nonEmptySegments_popIfEmpty] at hne
  -- The segments the join ends with, before they are checked.
  generalize hj : (ns.foldl (joinComponent u) (popIfEmpty gs, (nonEmptySegments gs).length)).1 = j
    at hne hmem
  have hfst : ∀ s ∈ (nonEmptySegments j).head?, isWindowsDriveUriSegment s = false := by
    rw [hne]
    have hold := (convention_url gs v).1 hcv
    cases h : nonEmptySegments gs with
    | nil =>
      intro s hs
      exact (hplain s (mem_of_head? hs)).not_drive
    | cons first r =>
      rw [h] at hold
      exact hold
  have hvd : ∀ s ∈ j, '\x00' ∉ decode s := by
    intro s hs
    rcases hmem s hs with hs | hs
    · exact v s (popIfEmpty_subset hs)
    · rw [(hplain s hs).decode_eq]
      exact (hplain s hs).not_mem (by decide)
  refine ⟨j, hvd, ?_, hne, (convention_url j hvd).2 hfst⟩
  unfold join
  rw [if_neg (PlainName.not_mem_join hplain (by decide) (by decide)),
    if_neg (PlainName.join_ne_nil hplain hns), hcv]
  simp only [not_absolute (PlainName.head?_join_ne_slash hplain)]
  rw [PlainName.split_join hplain hns, hj]
  simp only [tryFrom, isSome_none, Bool.false_eq_true, if_false,
    normalizeDriveLetter_eq_self j hfst]
  rw [dif_pos hvd]

/-- Plain names read from a placed root lie below it. -/
theorem join_place (hu : u.AppendsPlain) (hns : ns ≠ []) (hplain : ∀ n ∈ ns, PlainName n)
    {r : PathUri} (h : r.place = some k) :
    ∃ p, r.join u (Text.join '/' ns) = .ok p ∧ p.place = some (k ++ ns) := by
  obtain ⟨gs, v, rfl⟩ := exists_url_of_place h
  obtain ⟨hcv, hseg, hk⟩ := place_url h
  obtain ⟨j, v', hjoin, hne, hcv'⟩ := join_plain hu hns hplain hcv
  have hslash : containmentPathSegments j .posix = some (nonEmptySegments j) := by
    refine containment_eq_some.2 fun s hs c hc => ?_
    rw [hne] at hs
    rcases mem_append.1 hs with hs | hs
    · exact containment_eq_some.1 hseg s hs c hc
    · rw [(hplain s hs).decode_eq] at hc
      refine Bool.eq_false_iff.2 fun hsep => (hplain s hs).not_mem (c := '/') (by decide) ?_
      have hc' : c = '/' := by simpa [PathConvention.isSeparator] using hsep
      exact hc' ▸ hc
  have hdec : ns.map decode = ns := PlainName.map_decode hplain
  exact ⟨_, hjoin, by simp [place, hcv', hslash, hne, hk, hdec]⟩

/-- **A plain name appended to a placed root is one name deeper.** -/
theorem joinDescendant_place (hu : u.AppendsPlain) (hnm : PlainName n) {r : PathUri}
    (h : r.place = some k) : ∃ p, r.joinDescendant u n = .ok p ∧ p.place = some (k ++ [n]) := by
  obtain ⟨p, hjoin, hpl⟩ := join_place hu (cons_ne_nil n []) (forall_mem_singleton.2 hnm) h
  have hbel : p.startsWith r = true := (startsWith_iff hpl).2 ⟨k, h, prefix_append ..⟩
  rw [Text.join_singleton] at hjoin
  refine ⟨p, ?_, hpl⟩
  simp [joinDescendant, hjoin, convention_of_place h, hnm.head_ne_slash, hbel, bind, Except.bind,
    pure, Except.pure]

theorem joinDescendant_of_place_eq_none (hu : u.AppendsPlain) (hnm : PlainName n)
    {r : PathUri} (hcv : r.inferPathConvention = some .posix) (h : r.place = none) :
    ∃ e, r.joinDescendant u n = .error e := by
  have hnul : '\x00' ∉ n := hnm.not_mem (by decide)
  cases r with
  | fallback bs =>
    refine ⟨.invalidFileUriPath ((fallback bs).toText u), ?_⟩
    simp [joinDescendant, join, hnul, hnm.ne_nil, hcv, not_absolute hnm.head_ne_slash, bind,
      Except.bind]
  | url host gs v =>
    obtain rfl := host_of_posix hcv
    obtain ⟨j, v', hjoin, hne, hcv'⟩ := join_plain hu (cons_ne_nil n [])
      (forall_mem_singleton.2 hnm) hcv
    rw [Text.join_singleton] at hjoin
    refine ⟨.joinPathMustBeDescendant n, ?_⟩
    have hbel : (url none j v').startsWith (url none gs v) = false := by
      rw [Bool.eq_false_iff, ne_eq, startsWith_of_place_eq_none hcv' h]
      rintro heq
      obtain ⟨-, rfl⟩ := PathUri.url.inj heq
      exact absurd (congrArg List.length hne) (by simp)
    simp [joinDescendant, hjoin, hbel, bind, Except.bind]

/-! ### The root -/

theorem place_of_shorter {sho : List Text} {valid valid'} (h : (url none gs valid).place = some k)
    (hle : nonEmptySegments sho <+: nonEmptySegments gs) :
    (url none sho valid').place = some ((nonEmptySegments sho).map decode) := by
  obtain ⟨hcv, hseg, -⟩ := place_url h
  have hcv' : (url none sho valid').inferPathConvention = some .posix := by
    rw [convention_url] at hcv ⊢
    intro s hs
    cases hshort : nonEmptySegments sho with
    | nil => rw [hshort] at hs; cases hs
    | cons first r =>
      rw [hshort] at hs hle
      obtain ⟨b, hback⟩ := hle
      exact hcv s (by rw [← hback]; exact hs)
  have hseg' : containmentPathSegments sho .posix = some (nonEmptySegments sho) :=
    containment_eq_some.2 fun s hs => containment_eq_some.1 hseg s (hle.subset hs)
  simp [place, hcv', hseg']

/-- Steps that may still be taken up from a path: one per segment, and one from a single
name to the root. -/
def stepsUp (gs : List Text) : Nat :=
  gs.length + if nonEmptySegments gs = [] then 0 else 1

theorem stepsUp_popSegment (h : nonEmptySegments gs ≠ []) :
    stepsUp (popSegment (popIfEmpty gs)) < stepsUp gs := by
  have hlen : (popIfEmpty gs).length ≤ gs.length := by
    unfold popIfEmpty
    split
    · simp
    · exact le_rfl
  have hpos : 0 < gs.length := by
    cases gs with
    | nil => exact absurd rfl h
    | cons s r => simp
  unfold stepsUp
  unfold popSegment
  split
  · simp [nonEmptySegments]
    omega
  · have hdrop : (popIfEmpty gs).dropLast.length + 1 = (popIfEmpty gs).length := by
      rw [length_dropLast]
      omega
    split <;> omega

theorem lastAncestorFrom_place : ∀ (f : Nat) (gs : List Text)
    (v : ∀ s ∈ gs, '\x00' ∉ decode s) (k : List Text),
    (url none gs v).place = some k → stepsUp gs ≤ f →
      (lastAncestorFrom f (url none gs v)).place = some [] := by
  intro f
  induction f with
  | zero =>
    intro gs v k h hfuel
    have hnil : gs = [] := by
      unfold stepsUp at hfuel
      exact length_eq_zero_iff.1 (by omega)
    subst hnil
    rfl
  | succ f ih =>
    intro gs v k h hfuel
    obtain ⟨hcv, -, hk⟩ := place_url h
    unfold lastAncestorFrom
    by_cases hr : nonEmptySegments gs = []
    · have hpar : (url none gs v).parent = none := by
        simp [parent, hcv, hr]
      rw [hpar]
      rw [h, hk, hr, map_nil]
    · have hpar : (url none gs v).parent =
          some (url none (popSegment (popIfEmpty gs)) (popSegment_valid v)) := by
        simp [parent, hcv, hr]
      rw [hpar]
      have hle : nonEmptySegments (popSegment (popIfEmpty gs)) <+: nonEmptySegments gs := by
        rw [← nonEmptySegments_popIfEmpty gs]
        unfold popSegment
        split
        · simp [nonEmptySegments]
        · exact (List.dropLast_prefix _).filter _
      refine ih _ _ _ (place_of_shorter h hle) ?_
      have := stepsUp_popSegment hr
      omega

theorem lastAncestor_place (h : uri.place = some k) : uri.lastAncestor.place = some [] := by
  obtain ⟨gs, v, rfl⟩ := exists_url_of_place h
  refine lastAncestorFrom_place _ _ _ _ h ?_
  unfold stepsUp
  split <;> omega

end PathUri

end SushiGpt
