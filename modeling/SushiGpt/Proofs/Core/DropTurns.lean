/-
Rolling back turns.

A rollback keeps the turns before the ones it drops, without the context that was recorded for the
first of these; when no turn is left, the developer messages of the first turn lose what is
rebuilt for the next.  Turns begin at items that are never such context, so dropping some turns
and then more is dropping them all at once.
-/
import SushiGpt.Lib.Marked
import SushiGpt.Proofs.Core.RolloutReconstruction

namespace SushiGpt.Core

open ContextManager List SushiGpt.Lists

variable {r : Reading} {its : List ResponseItemEnvelope} {n m : Nat} {t : Text}
  {e : ResponseItemEnvelope}

abbrev Reading.begins (reading : Reading) (envelope : ResponseItemEnvelope) : Bool :=
  reading.isUserTurnBoundary envelope.item

abbrev Reading.precedes (reading : Reading) (envelope : ResponseItemEnvelope) : Bool :=
  isPreTurnContextUpdate reading envelope.item

theorem not_begins_of_precedes (e : ResponseItemEnvelope)
    (h : r.precedes e = true) : r.begins e = false := by
  unfold Reading.precedes isPreTurnContextUpdate at h
  unfold Reading.begins Reading.isUserTurnBoundary
  split at h
  · next hitem =>
    rw [hitem]
    simp only [Bool.or_eq_true, Bool.and_eq_true, beq_iff_eq] at h
    obtain ⟨rfl, -⟩ | ⟨rfl, hctx⟩ := h
    · rfl
    · simp [hctx]
  · cases h

/-- Moving the cut is dropping from the end, since the first turn stops it. -/
theorem take_trimPreTurnContextUpdates {first cut : Nat} (hlt : first < cut)
    (hle : cut ≤ its.length) (hfirst : ∀ e ∈ its[first]?, r.precedes e = false) :
    its.take (trimPreTurnContextUpdates r its first cut) =
      (its.take cut).rdropWhile r.precedes := by
  induction cut with
  | zero => cases hlt
  | succ cut ih =>
    have hget : its[cut]? = some its[cut] := getElem?_eq_getElem hle
    rw [trimPreTurnContextUpdates, take_add_one, hget, Option.toList_some, rdropWhile_concat]
    by_cases hpre : r.precedes its[cut] = true
    · have hne : first ≠ cut := by
        rintro rfl
        simp [hfirst _ hget] at hpre
      rw [if_pos (by simpa [hlt, hget] using hpre), if_pos hpre]
      exact ih (by omega) (by omega)
    · rw [if_neg (by simpa [hlt, hget] using hpre), if_neg hpre, take_add_one, hget]
      rfl

def droppedTurns (reading : Reading) (n : Nat) (items : List ResponseItemEnvelope) :
    List ResponseItemEnvelope :=
  match items.find? reading.begins with
  | none => items
  | some first =>
    let kept := items.countP reading.begins - n
    if kept = 0 then
      match first.item.turnId with
      | some turnId =>
        (takeMarked reading.begins 0 items).filterMap (stripFirstTurn reading turnId)
      | none => takeMarked reading.begins 0 items
    else (takeMarked reading.begins kept items).rdropWhile reading.precedes

theorem trimPreTurnContextUpdates_self (r : Reading) (its : List ResponseItemEnvelope)
    (first : Nat) : trimPreTurnContextUpdates r its first first = first := by
  cases first <;> simp [trimPreTurnContextUpdates]

theorem dropLastNUserTurns_items (history : ContextManager) (hn : n ≠ 0) :
    (history.dropLastNUserTurns r n).items = droppedTurns r n history.items := by
  obtain ⟨its, baseline⟩ := history
  have hpos : userMessagePositions r its = marks r.begins its := rfl
  have hlen := length_marks r.begins its
  rw [dropLastNUserTurns, if_neg hn, droppedTurns]
  dsimp only
  rw [hpos]
  cases hmarks : marks r.begins its with
  | nil =>
    rw [hmarks, length_nil, eq_comm, countP_eq_zero] at hlen
    rw [find?_eq_none.mpr hlen]
    rfl
  | cons first rest =>
    rw [hmarks, length_cons] at hlen
    have hget : its[first]? = its.find? r.begins := find?_eq_of_marks (by rw [hmarks]; rfl)
    obtain ⟨i, hlt, hi, htake⟩ := exists_take_marks (p := r.begins) (l := its) (n := 0) (by omega)
    obtain rfl : first = i := by simpa [hmarks] using hi
    obtain ⟨e, he⟩ : ∃ e, its[first]? = some e := ⟨_, getElem?_eq_getElem hlt⟩
    dsimp only
    rw [← hget, he, length_cons, hlen]
    by_cases hall : its.countP r.begins ≤ n
    · rw [if_pos hall, trimPreTurnContextUpdates_self, Nat.sub_eq_zero_of_le hall, htake]
      cases hturn : e.item.turnId <;> simp [hturn, replaceAnnotated]
    · obtain ⟨cut, hcut, hj, hkept⟩ := exists_take_marks (p := r.begins) (l := its)
        (n := its.countP r.begins - n) (by omega)
      have hgetD : (first :: rest).getD (its.countP r.begins - n) first = cut := by
        rw [← hmarks, getD_eq_getElem?_getD, hj]
        rfl
      -- The cut is behind the first turn, before and after it is moved.
      have hzero : (its.take first).countP r.begins = 0 := by
        rw [htake, countP_takeMarked (Nat.zero_le _)]
      have hcount : (its.take cut).countP r.begins = its.countP r.begins - n := by
        rw [hkept, countP_takeMarked (by omega)]
      have hbehind : first < cut := by
        by_contra hle
        have := (take_sublist_take_left (by omega : cut ≤ first) (l := its)).countP_le
          (p := r.begins)
        omega
      have hfirst : ∀ e ∈ its[first]?, r.precedes e = false := by
        intro e he
        rw [hget] at he
        refine Bool.eq_false_of_not_eq_true fun hpre => ?_
        simpa [find?_some he] using not_begins_of_precedes e hpre
      have htrim := take_trimPreTurnContextUpdates hbehind hcut.le hfirst
      have hne : trimPreTurnContextUpdates r its first cut ≠ first := by
        intro heq
        rw [heq] at htrim
        rw [htrim, countP_rdropWhile not_begins_of_precedes] at hzero
        omega
      rw [if_neg hall, hgetD, ← hkept, ← htrim]
      dsimp only
      rw [if_neg (by omega)]
      cases hturn : e.item.turnId <;> simp [hturn, hne, replaceAnnotated]

/-! ### Dropping turns twice -/

/-- A fragment that is rebuilt for the next turn. -/
def Reading.isRebuilt (reading : Reading) : ContentItem → Bool
  | .inputText text => reading.isModelOrModeText text
  | _ => false

/-- The item is kept as it is, or it is a developer message of the turn and is left with the
fragments that are not rebuilt, if it has any. -/
def Strips (reading : Reading) (turnId : Text) (envelope : ResponseItemEnvelope)
    (left : Option ResponseItemEnvelope) : Prop :=
  left = some envelope ∨ ∃ id content phase metadata,
    envelope.item = .message id "developer".toList content phase metadata ∧
    envelope.item.turnId = some turnId ∧
    if content.filter (!reading.isRebuilt ·) = [] then left = none
    else ∃ metadata', left = some { envelope with
      item := .message id "developer".toList (content.filter (!reading.isRebuilt ·)) phase
        metadata' }

theorem strips_stripFirstTurn (r : Reading) (t : Text) (e : ResponseItemEnvelope) :
    Strips r t e (stripFirstTurn r t e) := by
  unfold stripFirstTurn
  split
  · next id ro c ph md hitem =>
    split_ifs with hdev
    · right
      rw [Bool.and_eq_true, decide_eq_true_iff, beq_iff_eq] at hdev
      obtain ⟨hturn, rfl⟩ := hdev
      refine ⟨id, c, ph, md, hitem, hturn, ?_⟩
      have hzip : (c.zip ((md.bind (·.contentItemKinds)).getD [] ++
          replicate c.length "unknown".toList)).map Prod.fst = c :=
        map_fst_zip (by simp)
      dsimp only
      generalize hf : filter _ (c.zip _) = k
      have hkept : c.filter (!r.isRebuilt ·) = k.map Prod.fst := by
        rw [← hf]
        conv_lhs => rw [← hzip, filter_map]
        congr 1
        refine filter_congr fun entry _ => ?_
        obtain ⟨i, kind⟩ := entry
        cases i <;> rfl
      rw [hkept]
      cases k with
      | nil => rfl
      | cons first rest => exact ⟨_, rfl⟩
    · exact .inl rfl
  · exact .inl rfl

theorem begins_of_stripFirstTurn {e' : ResponseItemEnvelope} (h : stripFirstTurn r t e = some e')
    (hno : r.begins e = false) : r.begins e' = false := by
  obtain hsame | ⟨id, c, ph, md, hitem, -, hstrip⟩ := strips_stripFirstTurn r t e
  · rw [hsame] at h
    cases h
    exact hno
  · split_ifs at hstrip
    · rw [hstrip] at h
      cases h
    · obtain ⟨md', hstrip⟩ := hstrip
      rw [hstrip] at h
      cases h
      rfl

/-- What is kept of some turns is the beginning, with as many turns. -/
theorem kept_spec (hle : n ≤ its.countP r.begins) :
    (takeMarked r.begins n its).rdropWhile r.precedes <+: its ∧
      ((takeMarked r.begins n its).rdropWhile r.precedes).countP r.begins = n := by
  rw [countP_rdropWhile not_begins_of_precedes, countP_takeMarked hle]
  exact ⟨( rdropWhile_prefix _ _).trans ( takeMarked_prefix _ _ _), rfl⟩

/-- A beginning with a turn in it has the first turn. -/
theorem find?_begins_of_prefix {k : List ResponseItemEnvelope} (hpre : k <+: its)
    (hpos : 0 < k.countP r.begins) : k.find? r.begins = its.find? r.begins := by
  obtain ⟨rest, rfl⟩ := hpre
  obtain ⟨e, he, hbegins⟩ := countP_pos_iff.mp hpos
  obtain ⟨first, hfirst⟩ := Option.isSome_iff_exists.mp (find?_isSome.mpr ⟨e, he, hbegins⟩)
  rw [find?_append, hfirst]
  rfl

theorem droppedTurns_add (n : Nat) (hm : m ≠ 0) (its : List ResponseItemEnvelope) :
    droppedTurns r m (droppedTurns r n its) = droppedTurns r (n + m) its := by
  cases hfind : its.find? r.begins with
  | none => simp [droppedTurns, hfind]
  | some first =>
    by_cases hkept : its.countP r.begins - n = 0
    · -- No turn is left, so there is none to drop.
      have hsame : droppedTurns r n its = droppedTurns r (n + m) its := by
        simp [droppedTurns, hfind, hkept, Nat.sub_add_eq]
      have hzero : ∀ e ∈ takeMarked r.begins 0 its, r.begins e = false := by
        simpa using countP_takeMarked (Nat.zero_le (its.countP r.begins))
      have hnone : (droppedTurns r n its).find? r.begins = none := by
        rw [find?_eq_none, droppedTurns, hfind]
        dsimp only
        rw [if_pos hkept]
        intro e he
        split at he
        · obtain ⟨e', he', hstrip⟩ := mem_filterMap.mp he
          simp [begins_of_stripFirstTurn hstrip (hzero e' he')]
        · simp [hzero e he]
      rw [← hsame, droppedTurns, hnone]
    · have hle : its.countP r.begins - n ≤ its.countP r.begins := Nat.sub_le ..
      obtain ⟨hpre, hcount⟩ := kept_spec hle
      have hdrop : droppedTurns r n its = (takeMarked r.begins
          (its.countP r.begins - n) its).rdropWhile r.precedes := by
        simp [droppedTurns, hfind, hkept]
      have hcut (k : Nat) (hk : k < its.countP r.begins - n) :
          takeMarked r.begins k (droppedTurns r n its) = takeMarked r.begins k its := by
        rw [hdrop, takeMarked_rdropWhile not_begins_of_precedes hk hle]
      rw [← hdrop] at hpre hcount
      generalize droppedTurns r n its = kept at hpre hcount hcut ⊢
      rw [droppedTurns, find?_begins_of_prefix hpre (by omega), hfind, hcount, droppedTurns, hfind,
        ← Nat.sub_add_eq]
      dsimp only
      rw [hcut 0 (by omega), hcut _ (by omega)]

/-- **Dropping turns twice is dropping them at once; what comes before the first turn stays, up to
what is rebuilt in the developer messages of that turn; without a turn nothing changes.** -/
theorem dropLastNUserTurns_add (r : Reading) (history : ContextManager) (n m : Nat) :
    ((history.dropLastNUserTurns r n).dropLastNUserTurns r m).items =
      (history.dropLastNUserTurns r (n + m)).items ∧
    (∀ b first a, history.items = b ++ first :: a →
      (∀ e ∈ b, r.begins e = false) → r.begins first = true →
      (∃ rest, rest <+: first :: a ∧ (history.dropLastNUserTurns r n).items = b ++ rest) ∨
      ∃ t s, first.item.turnId = some t ∧ (∀ e, Strips r t e (s e)) ∧
        (history.dropLastNUserTurns r n).items = b.filterMap s) ∧
    ((∀ e ∈ history.items, r.begins e = false) →
      (history.dropLastNUserTurns r n).items = history.items) := by
  have hzero (history : ContextManager) : history.dropLastNUserTurns r 0 = history := rfl
  refine ⟨?_, fun b first a hitems hbefore hfirst => ?_, fun hno => ?_⟩
  · by_cases hn : n = 0
    · rw [hn, hzero, Nat.zero_add]
    by_cases hm : m = 0
    · rw [hm, hzero, Nat.add_zero]
    rw [dropLastNUserTurns_items _ hm, dropLastNUserTurns_items _ hn,
      dropLastNUserTurns_items _ (by omega), droppedTurns_add n hm]
  · by_cases hn : n = 0
    · rw [hn, hzero]
      exact .inl ⟨_, prefix_rfl, hitems⟩
    have hfind : history.items.find? r.begins = some first := by
      rw [hitems, find?_append, find?_eq_none.mpr (by simpa using hbefore), find?_cons, hfirst]
      rfl
    have htake : takeMarked r.begins 0 history.items = b := by
      rw [takeMarked_zero, hitems, takeWhile_append_of_pos (by simpa using hbefore)]
      simp [hfirst]
    rw [dropLastNUserTurns_items _ hn, droppedTurns, hfind]
    dsimp only
    split_ifs with hkept
    · rw [htake]
      cases hturn : first.item.turnId with
      | none => exact .inl ⟨[], nil_prefix, (append_nil _).symm⟩
      | some t => exact .inr ⟨t, _, rfl, strips_stripFirstTurn r t, rfl⟩
    · have hle : history.items.countP r.begins - n ≤ history.items.countP r.begins := Nat.sub_le ..
      obtain ⟨hpre, hcount⟩ := kept_spec hle
      rcases List.prefix_or_prefix_of_prefix hpre (hitems ▸ prefix_append b _) with h | h
      · have hle := h.sublist.countP_le (p := r.begins)
        have hzero : b.countP r.begins = 0 := countP_eq_zero.mpr (by simpa using hbefore)
        omega
      · obtain ⟨rest, hrest⟩ := h
        rw [← hrest, hitems, prefix_append_right_inj] at hpre
        exact .inl ⟨rest, hpre, hrest.symm⟩
  · by_cases hn : n = 0
    · rw [hn, hzero]
    have hnone : history.items.find? r.begins = none := by
      simpa [find?_eq_none] using hno
    rw [dropLastNUserTurns_items _ hn, droppedTurns, hnone]

/-- A developer message of the first turn that was empty before is taken out as well. -/
theorem dropLastNUserTurns_empty_developer :
    let its := [("developer", []), ("user", [.inputText "go".toList])].map fun (ro, c) =>
      ⟨.message none ro.toList c none (some ⟨some "t".toList, none⟩), none⟩
    ((ContextManager.mk its none).dropLastNUserTurns plainReading 1).items = [] ∧
      its.map plainReading.begins = [false, true] := by
  decide

end SushiGpt.Core
