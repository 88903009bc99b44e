/-
Change sets are faithful.

`Mirrors` relates a projection to the turns a builder holds.  Every primitive of the builder does
one of four things to them and records the same: a turn without items is opened, an item is put
into a turn, the metadata of a turn is replaced, turns are removed from the end.  `Tracks` is the
invariant while one rollout item is handled, with the changes recorded so far applied; each
handler is a few primitives.

All this goes by ids.  It needs that the turns held have distinct ids, and the items of each turn
as well, and a projection by ids cannot do with less: that is the theorem.
-/
import SushiGpt.AppServer.HistoryProjection

namespace SushiGpt.AppServer

open PendingTurn ThreadHistoryTurnMetadata HistoryProjection IndexMap
open List hiding insert_of_not_mem

/-! ### The index of a turn's items -/

variable {ops : ItemOps} {p : HistoryProjection} {b b' : ThreadHistoryBuilder}
  {turns bef a : List PendingTurn} {t t' : PendingTurn} {i : ThreadItem}

namespace TurnItemIndex

variable {idx : TurnItemIndex} {items : List ThreadItem}

/-- The index, where there is one, finds what a search finds. -/
def Consistent (index : TurnItemIndex) (items : List ThreadItem) : Prop :=
  ∀ positions, index.positions = some positions →
    ∀ id, IndexMap.get? positions id = items.findIdx? fun item => item.id == id

theorem findIdx?_concat (items : List ThreadItem) (i : ThreadItem) (id : Text) :
    ((items ++ [i]).findIdx? fun i => i.id == id) =
      (items.findIdx? fun i => i.id == id).or (if i.id = id then some items.length else none) := by
  by_cases h : i.id = id <;> simp [h]

theorem get?_orInsert {ps : List (Text × Nat)} {id id' : Text} {pos : Nat} :
    get? (orInsert ps id pos) id' = (get? ps id').or (if id = id' then some pos else none) := by
  unfold orInsert
  split_ifs with hsome hid hid
  · subst hid
    obtain ⟨f, hfd⟩ := Option.isSome_iff_exists.mp hsome
    rw [hfd]
    rfl
  · rw [Option.or_none]
  · subst hid
    rw [get?_insert, if_pos rfl, Option.not_isSome_iff_eq_none.mp hsome]
    rfl
  · rw [get?_insert, if_neg hid, Option.or_none]

variable (h : Consistent idx items)
include h

theorem Consistent.push : Consistent (idx.push items i).1 (idx.push items i).2 := by
  intro ps hpos id
  obtain ⟨old, hold, rfl⟩ := Option.map_eq_some_iff.mp hpos
  rw [get?_orInsert, h old hold id]
  exact (findIdx?_concat items i id).symm

theorem Consistent.prepared : Consistent (idx.prepared items) items := by
  unfold TurnItemIndex.prepared
  split_ifs with hlong
  · intro ps hpos id
    obtain rfl := Option.some.inj hpos
    clear h hpos hlong
    induction items using reverseRecOn with
    | nil => rfl
    | append_singleton f last ih =>
      unfold positionsOf at ih ⊢
      rw [zipIdx_append, foldl_append, Nat.zero_add, findIdx?_concat, ← ih]
      exact get?_orInsert
  · exact h

theorem Consistent.existingIndex (id : Text) :
    idx.existingIndex items id = items.findIdx? fun i => i.id == id := by
  unfold TurnItemIndex.existingIndex
  cases hpos : idx.positions with
  | none => rfl
  | some ps => exact h ps hpos id

/-- The index depends on the ids only. -/
theorem Consistent.congr {o : List ThreadItem}
    (hids : o.map ThreadItem.id = items.map ThreadItem.id) : Consistent idx o := by
  intro ps hpos id
  have hfind (l : List ThreadItem) : (l.findIdx? fun i => i.id == id) =
      (l.map ThreadItem.id).findIdx? (· == id) := by
    rw [findIdx?_map]
    rfl
  rw [h ps hpos id, hfind, hfind, hids]

theorem upsert_eq : (idx.upsert items i).2 = put ThreadItem.id i items := by
  unfold TurnItemIndex.upsert
  dsimp only
  rw [h.prepared.existingIndex, put_eq]
  cases items.findIdx? fun e => e.id == i.id <;> rfl

theorem Consistent.upsert : Consistent (idx.upsert items i).1 (idx.upsert items i).2 := by
  have hfind := h.prepared.existingIndex i.id
  cases hexis : (idx.prepared items).existingIndex items i.id with
  | none =>
    unfold TurnItemIndex.upsert
    dsimp only
    rw [hexis]
    exact h.prepared.push
  | some pos =>
    have hmem : i.id ∈ items.map ThreadItem.id := by
      rw [hexis] at hfind
      obtain ⟨hlt, hid, -⟩ := findIdx?_eq_some_iff_getElem.mp hfind.symm
      exact beq_iff_eq.mp hid ▸ mem_map_of_mem (getElem_mem hlt)
    rw [upsert_eq h]
    have hidx : (idx.upsert items i).1 = idx.prepared items := by
      unfold TurnItemIndex.upsert
      dsimp only
      rw [hexis]
    rw [hidx]
    exact h.prepared.congr (keys_put_of_mem hmem)

end TurnItemIndex

/-! ### Projections -/

namespace HistoryProjection

variable {cs : ThreadHistoryChangeSet}

/-- The tables are by key, and the keys are those of the entries. -/
structure WellFormed (p : HistoryProjection) : Prop where
  turns : (p.turns.map Prod.fst).Nodup
  turnKeys : ∀ entry ∈ p.turns, entry.1 = entry.2.turnId
  items : (p.items.map Prod.fst).Nodup
  itemKeys : ∀ entry ∈ p.items, entry.1.2 = entry.2.id

theorem wellFormed_empty : WellFormed empty :=
  ⟨nodup_nil, fun _ h => absurd h not_mem_nil, nodup_nil, fun _ h => absurd h not_mem_nil⟩

section

variable (h : WellFormed p)
include h

theorem WellFormed.putItem (turnId : Text) (i : ThreadItem) : WellFormed (p.putItem turnId i) :=
  ⟨h.turns, h.turnKeys, nodup_insert h.items, fun e he => by
    rcases mem_insert he with rfl | he
    · rfl
    · exact h.itemKeys e he⟩

theorem WellFormed.putTurn (t : ThreadHistoryTurnMetadata) : WellFormed (p.putTurn t) :=
  ⟨nodup_insert h.turns, fun e he => by
    rcases mem_insert he with rfl | he
    · rfl
    · exact h.turnKeys e he, h.items, h.itemKeys⟩

theorem WellFormed.removeTurns (ids : List Text) : WellFormed (p.removeTurns ids) :=
  ⟨h.turns.sublist (filter_sublist.map _),
    fun e he => h.turnKeys e (mem_filter.mp he).1,
    h.items.sublist (filter_sublist.map _),
    fun e he => h.itemKeys e (mem_filter.mp he).1⟩

theorem WellFormed.apply : WellFormed (p.apply cs) := by
  refine foldlRecOn _ _ (motive := WellFormed) ?_ fun p hp t _ => hp.putTurn t
  exact foldlRecOn _ _ (motive := WellFormed) (h.removeTurns _)
    fun p hp change _ => hp.putItem change.turnId change.item

theorem WellFormed.nodup_itemsOf {turnId : Text} :
    ((p.itemsOf turnId).map ThreadItem.id).Nodup := by
  unfold itemsOf
  rw [map_map]
  have hids : (p.items.filter fun e => e.1.1 == turnId).map (ThreadItem.id ∘ Prod.snd) =
      (p.items.filter fun e => e.1.1 == turnId).map fun e => e.1.2 :=
    map_congr_left fun e he => (h.itemKeys e (mem_filter.mp he).1).symm
  rw [hids]
  have hkeys : ((p.items.filter fun e => e.1.1 == turnId).map Prod.fst).Nodup :=
    h.items.sublist (filter_sublist.map _)
  -- Two entries of one turn with the same item id have the same key.
  rw [List.Nodup, pairwise_map] at hkeys ⊢
  refine hkeys.imp_of_mem fun {x y} hx hy hne heq => hne (Prod.ext ?_ heq)
  have hxturn := (mem_filter.mp hx).2
  have hyturn := (mem_filter.mp hy).2
  rw [beq_iff_eq] at hxturn hyturn
  rw [hxturn, hyturn]

end

/-! The changes of one set are put one after the other. -/

theorem apply_empty : p.apply .empty = p := by
  simp [apply, ThreadHistoryChangeSet.empty, removeTurns]

theorem foldl_putTurn_putItem (turns : List ThreadHistoryTurnMetadata) (turnId : Text)
    (i : ThreadItem) :
    turns.foldl putTurn (p.putItem turnId i) = (turns.foldl putTurn p).putItem turnId i := by
  induction turns generalizing p with
  | nil => rfl
  | cons t r ih =>
    rw [foldl_cons, foldl_cons, ← ih]
    rfl

theorem apply_item (change : ThreadHistoryItemChange) :
    p.apply { cs with changedItems := cs.changedItems ++ [change] } =
      (p.apply cs).putItem change.turnId change.item := by
  unfold apply
  dsimp only
  rw [foldl_append, foldl_cons, foldl_nil, foldl_putTurn_putItem]

theorem apply_turn (t : ThreadHistoryTurnMetadata) :
    p.apply { cs with changedTurns := cs.changedTurns ++ [t] } = (p.apply cs).putTurn t := by
  unfold apply
  rw [foldl_append, foldl_cons, foldl_nil]

theorem itemsOf_putItem (hkeys : ∀ entry ∈ p.items, entry.1.2 = entry.2.id) (turnId id : Text)
    (i : ThreadItem) :
    (p.putItem turnId i).itemsOf id =
      if turnId = id then put ThreadItem.id i (p.itemsOf id) else p.itemsOf id := by
  have hfil := filter_insert (fun key : Text × Text => key.1 == id) (turnId, i.id) i p.items
  unfold itemsOf putItem
  rw [hfil]
  by_cases hid : turnId = id
  · subst hid
    rw [if_pos (beq_self_eq_true turnId), if_pos rfl]
    have hsame : ∀ entry ∈ p.items.filter (fun entry => entry.1.1 == turnId),
        entry.1 = (turnId, entry.2.id) := by
      intro entry he
      obtain ⟨hmem, ht⟩ := mem_filter.mp he
      exact Prod.ext (beq_iff_eq.mp ht) (hkeys entry hmem)
    have hput := map_snd_insert (f := fun i : ThreadItem => (turnId, i.id)) (a := i) hsame
    rw [hput]
    exact put_congr fun other => by rw [Prod.mk.injEq, and_iff_right rfl]
  · rw [if_neg (by simpa using hid), if_neg hid]

end HistoryProjection

/-! ### A projection and the turns it shows -/

/-- The turns have distinct ids, and so do the items of each. -/
structure Keyed (turns : List PendingTurn) : Prop where
  turnIds : (turns.map PendingTurn.id).Nodup
  itemIds : ∀ t ∈ turns, (t.items.map ThreadItem.id).Nodup

structure Mirrors (p : HistoryProjection) (turns : List PendingTurn) : Prop where
  itemKeys : ∀ entry ∈ p.items, entry.1.2 = entry.2.id
  turns_eq : p.turns = turns.map fun t => (t.id, .fromPendingTurn t)
  here : ∀ t ∈ turns, p.itemsOf t.id = t.items
  elsewhere : ∀ id, id ∉ turns.map PendingTurn.id → p.itemsOf id = []

namespace Mirrors

theorem empty : Mirrors .empty [] :=
  ⟨fun _ h => absurd h not_mem_nil, rfl, fun _ h => absurd h not_mem_nil, fun _ _ => rfl⟩

theorem toTurns (h : Mirrors p turns) : p.toTurns = turns.map toTurn := by
  unfold HistoryProjection.toTurns
  rw [h.turns_eq, map_map]
  refine map_congr_left fun t ht => ?_
  have hit := h.here t ht
  simp only [Function.comp, fromPendingTurn, PendingTurn.toTurn, hit]

theorem opened (h : Mirrors p turns) (hit : t.items = []) (hid : t.id ∉ turns.map PendingTurn.id) :
    Mirrors (p.putTurn (.fromPendingTurn t)) (turns ++ [t]) where
  itemKeys := h.itemKeys
  turns_eq := by
    have hkey : (fromPendingTurn t).turnId ∉ p.turns.map Prod.fst := by
      rw [h.turns_eq, map_map]
      exact hid
    unfold putTurn
    rw [insert_of_not_mem hkey, h.turns_eq, map_append]
    rfl
  here := by
    refine forall_mem_append.mpr ⟨h.here, forall_mem_singleton.mpr ?_⟩
    rw [hit]
    exact h.elsewhere t.id hid
  elsewhere id hnot := by
    rw [map_append, mem_append, not_or] at hnot
    exact h.elsewhere id hnot.1

/-- What is not shown does not matter. -/
theorem congr {turns' : List PendingTurn} (h : Mirrors p turns)
    (hsame : turns'.map (fun t => (fromPendingTurn t, t.items)) =
      turns.map fun t => (fromPendingTurn t, t.items)) :
    Mirrors p turns' := by
  have hrd {α : Type} (f : ThreadHistoryTurnMetadata × List ThreadItem → α) :
      turns'.map (fun t => f (.fromPendingTurn t, t.items)) =
        turns.map fun t => f (.fromPendingTurn t, t.items) := by
    have := congrArg (map f) hsame
    rwa [map_map, map_map] at this
  refine ⟨h.itemKeys, h.turns_eq.trans (hrd fun s => (s.1.turnId, s.1)).symm,
    fun t' ht' => ?_, fun id hid => h.elsewhere id ?_⟩
  · obtain ⟨t, ht, heq⟩ := mem_map.mp (hsame ▸ mem_map_of_mem ht')
    obtain ⟨hmeta, hit⟩ := Prod.mk.inj heq
    have hid : t.id = t'.id := congrArg turnId hmeta
    rw [← hit, ← hid]
    exact h.here t ht
  · exact fun hmem => hid ((hrd fun s => s.1.turnId) ▸ hmem)

theorem mem_middle {o : PendingTurn} : o ∈ bef ++ t :: a ↔ o = t ∨ o ∈ bef ++ a := by
  rw [perm_middle.mem_iff, mem_cons]

theorem ids_middle (hid : t'.id = t.id) :
    (bef ++ t' :: a).map PendingTurn.id = (bef ++ t :: a).map PendingTurn.id := by
  rw [map_append, map_append, map_cons, map_cons, hid]

/-- Of distinct ids, that of a turn is not among the others. -/
theorem not_mem_others (hnd : ((bef ++ t :: a).map PendingTurn.id).Nodup) :
    ∀ o ∈ bef ++ a, o.id ≠ t.id := by
  intro o ho hid
  rw [(perm_middle.map PendingTurn.id).nodup_iff, map_cons] at hnd
  exact (nodup_cons.mp hnd).1 (hid ▸ mem_map_of_mem ho)

theorem put (h : Mirrors p (bef ++ t :: a)) (hnd : ((bef ++ t :: a).map PendingTurn.id).Nodup)
    (hmeta : fromPendingTurn t' = .fromPendingTurn t)
    (hit : t'.items = put ThreadItem.id i t.items) :
    Mirrors (p.putItem t.id i) (bef ++ t' :: a) := by
  have hid : t'.id = t.id := congrArg turnId hmeta
  have hoth := not_mem_others hnd
  have hof := itemsOf_putItem h.itemKeys t.id
  refine ⟨fun e he => ?_, ?_, fun o ho => ?_, fun id hnot => ?_⟩
  · rcases mem_insert he with rfl | he
    · rfl
    · exact h.itemKeys e he
  · exact h.turns_eq.trans (by rw [map_append, map_append, map_cons, map_cons, hmeta, hid])
  · rw [hof]
    rcases mem_middle.mp ho with rfl | ho
    · rw [if_pos hid.symm, hid, hit, h.here t mem_append_cons_self]
    · rw [if_neg (hoth o ho).symm]
      exact h.here o (mem_middle.mpr (.inr ho))
  · rw [ids_middle hid] at hnot
    rw [hof, if_neg, h.elsewhere id hnot]
    rintro rfl
    exact hnot (mem_map_of_mem mem_append_cons_self)

theorem set (h : Mirrors p (bef ++ t :: a)) (hnd : ((bef ++ t :: a).map PendingTurn.id).Nodup)
    (hid : t'.id = t.id) (hit : t'.items = t.items) :
    Mirrors (p.putTurn (.fromPendingTurn t')) (bef ++ t' :: a) := by
  have hoth := not_mem_others hnd
  refine ⟨h.itemKeys, ?_, fun o ho => ?_, fun id hnot => h.elsewhere id (ids_middle hid ▸ hnot)⟩
  · have hbefore : (fromPendingTurn t').turnId ∉
        (bef.map fun t => (t.id, fromPendingTurn t)).map Prod.fst := by
      rw [map_map]
      intro hmem
      obtain ⟨o, ho, heq⟩ := mem_map.mp hmem
      exact hoth o (mem_append_left _ ho) (heq.trans hid)
    unfold putTurn
    rw [h.turns_eq, map_append, map_append, map_cons, map_cons, insert_eq_put,
      put_append_of_not_mem hbefore]
    exact congrArg _ (if_pos hid.symm)
  · rcases mem_middle.mp ho with rfl | ho
    · rw [hid, hit]
      exact h.here t mem_append_cons_self
    · exact h.here o (mem_middle.mpr (.inr ho))

theorem remove (h : Mirrors p turns) (hnd : (turns.map PendingTurn.id).Nodup) (k : Nat) :
    Mirrors (p.removeTurns ((turns.drop k).map PendingTurn.id)) (turns.take k) := by
  have hdis : ∀ t ∈ turns.take k, t.id ∉ (turns.drop k).map PendingTurn.id := by
    intro t ht hmem
    rw [← take_append_drop k turns, map_append] at hnd
    exact disjoint_of_nodup_append hnd (mem_map_of_mem ht) hmem
  have hof (id : Text) : (p.removeTurns ((turns.drop k).map PendingTurn.id)).itemsOf id =
      if id ∈ (turns.drop k).map PendingTurn.id then [] else p.itemsOf id := by
    unfold itemsOf removeTurns
    rw [filter_filter]
    split_ifs with hmem
    · rw [map_eq_nil_iff, filter_eq_nil_iff]
      rintro e -
      rw [Bool.and_eq_true, beq_iff_eq, Bool.not_eq_true', contains_eq_mem, decide_eq_false_iff_not]
      rintro ⟨rfl, hnot⟩
      exact hnot hmem
    · congr 1
      refine filter_congr fun e _ => ?_
      by_cases he : e.1.1 = id
      · rw [he, contains_eq_mem, decide_eq_false hmem, Bool.not_false, Bool.and_true]
      · rw [beq_false_of_ne he, Bool.false_and]
  refine ⟨fun e he => h.itemKeys e (mem_filter.mp he).1, ?_, fun t ht => ?_, fun id hnot => ?_⟩
  · unfold removeTurns
    dsimp only
    rw [h.turns_eq, filter_map]
    refine congrArg _ ?_
    nth_rewrite 2 [← take_append_drop k turns]
    rw [filter_append, filter_eq_self.mpr, filter_eq_nil_iff.mpr, append_nil]
    · intro t ht
      simpa using mem_map_of_mem (f := PendingTurn.id) ht
    · intro t ht
      simpa using hdis t ht
  · rw [hof, if_neg (hdis t ht)]
    exact h.here t (mem_of_mem_take ht)
  · rw [hof]
    split_ifs with hmem
    · rfl
    · refine h.elsewhere id fun hid => ?_
      rw [← take_append_drop k turns, map_append, mem_append] at hid
      exact hid.elim hnot hmem

end Mirrors

/-! ### Primitives -/

/-- The turns are distinct, and their indexes right. -/
structure Sound (turns : List PendingTurn) : Prop extends Keyed turns where
  indexed : ∀ t ∈ turns, t.itemIndex.Consistent t.items

/-- The changes recorded so far lead the projection to what the builder holds. -/
structure Tracks (p : HistoryProjection) (b : ThreadHistoryBuilder) : Prop where
  sound : Sound b.held
  mirrors : ∃ changes, b.activeChangeSet = some changes ∧ Mirrors (p.apply changes) b.held

namespace Sound

theorem replace (h : Sound (bef ++ t :: a)) (hid : t'.id = t.id)
    (hit : (t'.items.map ThreadItem.id).Nodup)
    (hidx : t'.itemIndex.Consistent t'.items) : Sound (bef ++ t' :: a) := by
  refine ⟨⟨Mirrors.ids_middle hid ▸ h.turnIds, fun o ho => ?_⟩, fun o ho => ?_⟩
  · rcases Mirrors.mem_middle.mp ho with rfl | ho
    · exact hit
    · exact h.itemIds o (Mirrors.mem_middle.mpr (.inr ho))
  · rcases Mirrors.mem_middle.mp ho with rfl | ho
    · exact hidx
    · exact h.indexed o (Mirrors.mem_middle.mpr (.inr ho))

theorem opened (h : Sound turns) (hit : t.items = []) (hidx : t.itemIndex = ⟨none⟩)
    (hid : t.id ∉ turns.map PendingTurn.id) : Sound (turns ++ [t]) := by
  refine ⟨⟨?_, forall_mem_append.mpr ⟨h.itemIds, forall_mem_singleton.mpr ?_⟩⟩,
    forall_mem_append.mpr ⟨h.indexed, forall_mem_singleton.mpr ?_⟩⟩
  · rw [map_append]
    exact h.turnIds.append (nodup_singleton _) (by simpa using hid)
  · rw [hit]
    exact nodup_nil
  · rw [hidx]
    exact fun ps hpos => absurd hpos (by simp)

theorem take (h : Sound turns) (k : Nat) : Sound (turns.take k) :=
  ⟨⟨h.turnIds.sublist ((take_sublist k turns).map _),
    fun t ht => h.itemIds t (mem_of_mem_take ht)⟩,
    fun t ht => h.indexed t (mem_of_mem_take ht)⟩

end Sound

theorem ThreadHistoryBuilder.held_of_none (h : b.currentTurn = none) : b.held = b.turns := by
  unfold held
  rw [h, Option.toList_none, append_nil]

theorem ThreadHistoryBuilder.held_of_current
    (h : b.currentTurn = some t) : b.held = b.turns ++ [t] := by
  unfold held
  rw [h]
  rfl

/-- A turn with its id, its items and what makes it stay as they were. -/
structure PendingTurn.SameShape (t' t : PendingTurn) : Prop where
  id : t'.id = t.id
  items : t'.items = t.items
  itemIndex : t'.itemIndex = t.itemIndex
  openedExplicitly : t'.openedExplicitly = t.openedExplicitly
  sawCompaction : t'.sawCompaction = t.sawCompaction

namespace Tracks

variable (h : Tracks p b)
include h

/-- What the builder holds and has recorded is all that counts. -/
theorem congr (hheld : b'.held = b.held)
    (hchan : b'.activeChangeSet = b.activeChangeSet) : Tracks p b' := by
  refine ⟨hheld ▸ h.sound, ?_⟩
  rw [hheld, hchan]
  exact h.mirrors

theorem openTurn (hn : b.currentTurn = none) (hit : t.items = [])
    (hidx : t.itemIndex = ⟨none⟩) (hid : t.id ∉ b.held.map PendingTurn.id) :
    Tracks p (b.openTurn t) := by
  have hheld : (b.openTurn t).held = b.held ++ [t] := by
    rw [ThreadHistoryBuilder.held_of_none hn]
    exact ThreadHistoryBuilder.held_of_current rfl
  obtain ⟨cs, hchan, hmir⟩ := h.mirrors
  refine ⟨hheld ▸ h.sound.opened hit hidx hid, _, congrArg (Option.map _) hchan, ?_⟩
  rw [hheld, apply_turn]
  exact hmir.opened hit hid

variable (hheld : b.held = bef ++ t :: a) (hheld' : b'.held = bef ++ t' :: a)
  (hchan : b'.activeChangeSet = b.activeChangeSet)
include hheld hheld' hchan

theorem recordItem (hmeta : fromPendingTurn t' = .fromPendingTurn t)
    (hit : t'.items = put ThreadItem.id i t.items) (hidx : t'.itemIndex.Consistent t'.items) :
    Tracks p (b'.recordChangedItem t.id i) := by
  obtain ⟨cs, hact, hmir⟩ := h.mirrors
  have hsound := h.sound
  rw [hheld] at hsound hmir
  have hnd : (t'.items.map ThreadItem.id).Nodup := by
    rw [hit]
    exact nodup_put (hsound.itemIds t mem_append_cons_self)
  refine ⟨?_, _, congrArg (Option.map _) (hchan.trans hact), ?_⟩
  · show Sound b'.held
    rw [hheld']
    exact hsound.replace (congrArg turnId hmeta) hnd hidx
  · show Mirrors _ b'.held
    rw [hheld', apply_item]
    exact hmir.put hsound.turnIds hmeta hit

/-- The metadata of a turn is replaced, and recorded. -/
theorem recordTurn (hsame : t'.SameShape t) :
    Tracks p (b'.recordChangedTurn (.fromPendingTurn t')) := by
  obtain ⟨cs, hact, hmir⟩ := h.mirrors
  have hsound := h.sound
  rw [hheld] at hsound hmir
  refine ⟨?_, _, congrArg (Option.map _) (hchan.trans hact), ?_⟩
  · show Sound b'.held
    rw [hheld']
    refine hsound.replace hsame.id ?_ ?_
    · rw [hsame.items]
      exact hsound.itemIds t mem_append_cons_self
    · rw [hsame.itemIndex, hsame.items]
      exact hsound.indexed t mem_append_cons_self
  · show Mirrors _ b'.held
    rw [hheld', apply_turn]
    exact hmir.set hsound.turnIds hsame.id hsame.items

end Tracks

/-! ### What a builder does to the turns it holds -/

namespace ThreadHistoryBuilder

theorem mem_held_of_current (h : b.currentTurn = some t) : t ∈ b.held :=
  held_of_current h ▸ mem_concat_self

/-- The open turn will be kept when it is finished. -/
def Kept (b : ThreadHistoryBuilder) : Prop :=
  ∀ t, b.currentTurn = some t → t.items ≠ [] ∨ t.openedExplicitly = true ∨ t.sawCompaction = true

theorem finishCurrentTurn_currentTurn : b.finishCurrentTurn.currentTurn = none := by
  unfold finishCurrentTurn
  split
  · assumption
  · split_ifs <;> rfl

theorem finishCurrentTurn_activeChangeSet :
    b.finishCurrentTurn.activeChangeSet = b.activeChangeSet := by
  unfold finishCurrentTurn
  split
  · rfl
  · split_ifs <;> rfl

theorem Kept.held_finishCurrentTurn (h : Kept b) : b.finishCurrentTurn.held = b.held := by
  unfold finishCurrentTurn
  split
  · rfl
  · rename_i t hcur
    rw [if_neg, held_of_current hcur]
    · exact append_nil _
    · rintro ⟨hit, hexp, hcom⟩
      rcases h t hcur with h | h | h
      · exact h hit
      · exact Bool.false_ne_true (hexp.symm.trans h)
      · exact Bool.false_ne_true (hcom.symm.trans h)

theorem exists_currentTurn_ensureTurn (ops : ItemOps) (b : ThreadHistoryBuilder) :
    ∃ t, (b.ensureTurn ops).currentTurn = some t := by
  unfold ensureTurn
  split
  · exact ⟨_, rfl⟩
  · rename_i t hcur
    exact ⟨t, hcur⟩

theorem ensureTurn_of_current (h : b.currentTurn = some t) : b.ensureTurn ops = b := by
  unfold ensureTurn
  rw [h]

theorem updateCurrentTurn_eq (h : b.currentTurn = some t) (u : PendingTurn → PendingTurn) :
    b.updateCurrentTurn u i = recordChangedItem { b with currentTurn := some (u t) } t.id i := by
  unfold updateCurrentTurn
  rw [h]

end ThreadHistoryBuilder

namespace PendingTurn

theorem upsertItem_items (h : t.itemIndex.Consistent t.items) :
    (t.upsertItem i).items = put ThreadItem.id i t.items :=
  TurnItemIndex.upsert_eq h

theorem upsertItem_consistent (h : t.itemIndex.Consistent t.items) :
    (t.upsertItem i).itemIndex.Consistent (t.upsertItem i).items :=
  TurnItemIndex.Consistent.upsert h

end PendingTurn

open ThreadHistoryBuilder

/-- The invariant between two handlers. -/
structure Follows (p : HistoryProjection) (b : ThreadHistoryBuilder) : Prop extends
    Tracks p b where
  kept : Kept b

/-- What a handler leaves is followed, if its ids are distinct. -/
def Keeps (p : HistoryProjection) (b : ThreadHistoryBuilder) : Prop := Keyed b.held → Follows p b

section Handling

variable {u : PendingTurn → PendingTurn} {turnId : Text}

/-- The ids of the turns held are the same after an item was put into the open one. -/
theorem ids_updateCurrentTurn (hcur : b.currentTurn = some t) (hid : (u t).id = t.id) :
    (b.updateCurrentTurn u i).held.map PendingTurn.id = b.held.map PendingTurn.id := by
  rw [updateCurrentTurn_eq hcur, held_of_current hcur]
  have hheld : (recordChangedItem { b with currentTurn := some (u t) } t.id i).held =
      b.turns ++ [u t] := rfl
  rw [hheld, map_append, map_append, map_singleton, map_singleton, hid]

/-- The first finished turn of an id, and the turns with it changed. -/
theorem exists_finishedTurn (h : b.hasFinishedTurn turnId = true) (u : PendingTurn → PendingTurn) :
    ∃ bef t a, t.id = turnId ∧
      (b.turns.find? fun t => t.id == turnId) = some t ∧
      b.held = bef ++ t :: a ∧
      ({ b with turns := b.updateFinishedTurn turnId u } : ThreadHistoryBuilder).held =
        bef ++ u t :: a := by
  obtain ⟨t, hfind⟩ := Option.isSome_iff_exists.mp (find?_isSome.mpr (any_eq_true.mp h))
  obtain ⟨bef, a, htur, -, hmod⟩ := Lists.exists_split_modifyFirst hfind (f := u)
  have hid : t.id = turnId := by simpa using find?_some hfind
  refine ⟨bef, t, a ++ b.currentTurn.toList, hid, hfind, ?_, ?_⟩
  · unfold held
    rw [htur, append_assoc, cons_append]
  · unfold held updateFinishedTurn
    rw [hmod, append_assoc, cons_append]

theorem mem_ids_held (h : turnId ∈ b.held.map PendingTurn.id) :
    b.currentTurnMatches turnId = true ∨ b.hasFinishedTurn turnId = true := by
  obtain ⟨t, ht, rfl⟩ := mem_map.mp h
  rcases mem_append.mp ht with ht | ht
  · exact .inr (any_eq_true.mpr ⟨t, ht, beq_self_eq_true _⟩)
  · left
    unfold currentTurnMatches
    rw [Option.mem_toList.mp ht]
    exact beq_self_eq_true t.id

theorem PendingTurn.applyCompletion_shape (t : PendingTurn) (pl : TurnCompleteEvent) :
    (t.applyCompletion pl).SameShape t := by
  unfold applyCompletion
  cases pl.error with
  | some er => exact ⟨rfl, rfl, rfl, rfl, rfl⟩
  | none => dsimp only; split_ifs <;> exact ⟨rfl, rfl, rfl, rfl, rfl⟩

section

variable (h : Tracks p b)
include h

theorem Tracks.updateCurrentTurn (hcur : b.currentTurn = some t)
    (hmeta : fromPendingTurn (u t) = .fromPendingTurn t)
    (hit : (u t).items = put ThreadItem.id i t.items)
    (hidx : (u t).itemIndex.Consistent (u t).items) : Follows p (b.updateCurrentTurn u i) := by
  rw [updateCurrentTurn_eq hcur]
  refine ⟨h.recordItem (held_of_current hcur) (held_of_current rfl) rfl hmeta hit hidx,
    fun o ho => .inl ?_⟩
  obtain rfl := Option.some.inj ho
  rw [hit]
  exact put_ne_nil

theorem Tracks.ensureTurn
    (hids : ((b.ensureTurn ops).held.map PendingTurn.id).Nodup) : Tracks p (b.ensureTurn ops) := by
  unfold ThreadHistoryBuilder.ensureTurn at hids ⊢
  cases hcur : b.currentTurn with
  | some t => exact h
  | none =>
    rw [hcur] at hids
    refine h.openTurn hcur rfl rfl fun hmem => ?_
    rw [held_of_none hcur] at hmem
    rw [held_of_current rfl, map_append] at hids
    exact disjoint_of_nodup_append hids hmem (mem_singleton_self _)

/-- The open turn, opened if need be, before it is changed. -/
theorem Tracks.ensured
    (hkey : Keyed ((b.ensureTurn ops).updateCurrentTurn u i).held) (hid : ∀ t, (u t).id = t.id) :
    ∃ t, (b.ensureTurn ops).currentTurn = some t ∧ Tracks p (b.ensureTurn ops) ∧
      t.itemIndex.Consistent t.items := by
  obtain ⟨t, hcur⟩ := exists_currentTurn_ensureTurn ops b
  have hids := hkey.turnIds
  rw [ids_updateCurrentTurn hcur (hid t)] at hids
  have htrac := h.ensureTurn hids
  exact ⟨t, hcur, htrac, htrac.sound.indexed t (mem_held_of_current hcur)⟩

theorem Tracks.pushItemInCurrentTurn : Keeps p (b.pushItemInCurrentTurn ops i) := by
  intro hkey
  obtain ⟨t, hcur, htrac, hidx⟩ := h.ensured hkey fun _ => rfl
  refine htrac.updateCurrentTurn hcur rfl ?_ (TurnItemIndex.Consistent.push hidx)
  -- The turn with the item has distinct ids, so the item's is new.
  have hnd : ((t.pushItem i).items.map ThreadItem.id).Nodup := by
    refine hkey.itemIds _ ?_
    unfold ThreadHistoryBuilder.pushItemInCurrentTurn
    rw [updateCurrentTurn_eq hcur]
    exact mem_held_of_current rfl
  refine (put_of_not_mem fun hmem => ?_).symm
  have hit : (t.pushItem i).items = t.items ++ [i] := rfl
  rw [hit, map_append] at hnd
  exact disjoint_of_nodup_append hnd hmem (mem_singleton_self _)

theorem Tracks.upsertItemInCurrentTurn : Keeps p (b.upsertItemInCurrentTurn ops i) := by
  intro hkey
  obtain ⟨t, hcur, htrac, hidx⟩ := h.ensured hkey fun _ => rfl
  exact htrac.updateCurrentTurn hcur rfl (upsertItem_items hidx) (upsertItem_consistent hidx)

theorem Tracks.upsertItemInOpenTurn (hmat : b.currentTurnMatches turnId = true) :
    Follows p (b.upsertItemInTurnId turnId i) := by
  obtain ⟨t, hcur⟩ : ∃ t, b.currentTurn = some t := by
    unfold currentTurnMatches at hmat
    cases hcur : b.currentTurn with
    | none => simp [hcur] at hmat
    | some t => exact ⟨t, rfl⟩
  have hidx := h.sound.indexed t (mem_held_of_current hcur)
  unfold upsertItemInTurnId
  rw [if_pos hmat]
  exact h.updateCurrentTurn hcur rfl (upsertItem_items hidx) (upsertItem_consistent hidx)

theorem Tracks.appendReasoning (s c : List Text) : Keeps p (b.appendReasoning ops s c) := by
  intro hkey
  unfold ThreadHistoryBuilder.appendReasoning at hkey ⊢
  dsimp only at hkey ⊢
  cases hl : (b.ensureTurn ops).lastReasoning with
  | none =>
    rw [hl] at hkey
    obtain ⟨t, hcur⟩ := exists_currentTurn_ensureTurn ops b
    have hnext : (b.ensureTurn ops).nextItemId.2.currentTurn = some t := hcur
    have hids := hkey.turnIds
    unfold ThreadHistoryBuilder.pushItemInCurrentTurn at hids
    rw [ensureTurn_of_current hnext, ids_updateCurrentTurn hnext rfl] at hids
    have htrac : Tracks p (b.ensureTurn ops).nextItemId.2 := (h.ensureTurn hids).congr rfl rfl
    exact htrac.pushItemInCurrentTurn hkey
  | some last =>
    obtain ⟨id, os, oc⟩ := last
    rw [hl] at hkey
    obtain ⟨t, hcur, htrac, hidx⟩ := h.ensured hkey fun _ => rfl
    have hi : t.items.getLast? = some (.reasoning id os oc) := by
      unfold lastReasoning at hl
      rw [hcur, Option.bind_some] at hl
      split at hl
      · obtain ⟨rfl, rfl, rfl⟩ := by simpa using hl
        assumption
      · cases hl
    have hput := put_dropLast (f := ThreadItem.id) (a := .reasoning id (os ++ s) (oc ++ c)) hi rfl
      (htrac.sound.itemIds t (mem_held_of_current hcur))
    refine htrac.updateCurrentTurn hcur rfl hput.symm (hidx.congr ?_)
    show map _ (t.items.dropLast ++ _) = _
    rw [← hput]
    exact keys_put_of_mem (mem_map.mpr ⟨_, mem_of_getLast? hi, rfl⟩)

end

variable (h : Follows p b)
include h

theorem Follows.keeps : Keeps p b := fun _ => h

theorem Follows.congr (htur : b'.turns = b.turns)
    (hcur : b'.currentTurn = b.currentTurn)
    (hchan : b'.activeChangeSet = b.activeChangeSet) : Follows p b' where
  toTracks := h.toTracks.congr (by unfold held; rw [htur, hcur]) hchan
  kept := by
    unfold Kept
    rw [hcur]
    exact h.kept

theorem Follows.finishCurrentTurn : Follows p b.finishCurrentTurn where
  toTracks := h.toTracks.congr h.kept.held_finishCurrentTurn finishCurrentTurn_activeChangeSet
  kept t ht := by
    rw [finishCurrentTurn_currentTurn] at ht
    cases ht

theorem Follows.upsertItemInTurnId (turnId : Text) : Follows p (b.upsertItemInTurnId turnId i) := by
  by_cases hmat : b.currentTurnMatches turnId = true
  · exact h.upsertItemInOpenTurn hmat
  · unfold ThreadHistoryBuilder.upsertItemInTurnId
    split_ifs with hfin
    · obtain ⟨bef, t, a, rfl, -, hheld, hheld'⟩ := exists_finishedTurn hfin (·.upsertItem i)
      have hidx := h.sound.indexed t (hheld ▸ mem_append_cons_self)
      exact ⟨h.recordItem hheld hheld' rfl rfl (upsertItem_items hidx)
        (upsertItem_consistent hidx), h.kept⟩
    · exact h

theorem Follows.upsertItemForTurn (turnId : Text) : Keeps p (b.upsertItemForTurn ops turnId i) := by
  unfold ThreadHistoryBuilder.upsertItemForTurn
  split_ifs
  · exact h.upsertItemInCurrentTurn
  · exact (h.upsertItemInTurnId turnId).keeps

theorem Follows.replaceCurrentTurn (hcur : b.currentTurn = some t)
    (hsame : t'.SameShape t) : Follows p (b.replaceCurrentTurn t') := by
  refine ⟨h.recordTurn (held_of_current hcur) (held_of_current rfl) rfl hsame, fun o ho => ?_⟩
  obtain rfl := Option.some.inj ho
  rw [hsame.items, hsame.openedExplicitly, hsame.sawCompaction]
  exact h.kept t hcur

theorem Follows.updateFinishedTurnMetadata
    (hfin : b.hasFinishedTurn turnId = true) (hsame : ∀ t, (u t).SameShape t) :
    Follows p (b.updateFinishedTurnMetadata turnId u) := by
  obtain ⟨bef, t, a, rfl, hfind, hheld, hheld'⟩ := exists_finishedTurn hfin u
  unfold ThreadHistoryBuilder.updateFinishedTurnMetadata
  rw [hfind]
  exact ⟨h.recordTurn hheld hheld' rfl (hsame t), h.kept⟩

/-! ### Handlers -/

theorem Follows.handleError (pl : ErrorEvent) : Follows p (b.handleError pl) := by
  unfold ThreadHistoryBuilder.handleError
  split_ifs
  · exact h
  · split
    · exact h
    · rename_i t hcur
      exact h.replaceCurrentTurn hcur ⟨rfl, rfl, rfl, rfl, rfl⟩

theorem Follows.handleTurnAborted (pl : TurnAbortedEvent) : Follows p (b.handleTurnAborted pl) := by
  unfold ThreadHistoryBuilder.handleTurnAborted
  dsimp only
  split
  · rename_i turnId hfin
    have hfin := (Option.filter_eq_some_iff.mp hfin).2
    rw [Bool.and_eq_true] at hfin
    exact h.updateFinishedTurnMetadata hfin.2 fun _ => ⟨rfl, rfl, rfl, rfl, rfl⟩
  · split
    · exact h
    · rename_i t hcur
      exact h.replaceCurrentTurn hcur ⟨rfl, rfl, rfl, rfl, rfl⟩

theorem Follows.handleTurnComplete (pl : TurnCompleteEvent) :
    Follows p (b.handleTurnComplete pl) := by
  unfold ThreadHistoryBuilder.handleTurnComplete
  split_ifs with hfin
  · rw [Bool.and_eq_true] at hfin
    exact h.updateFinishedTurnMetadata hfin.2 (·.applyCompletion_shape pl)
  · split
    · exact h
    · rename_i t hcur
      exact (h.replaceCurrentTurn hcur (t.applyCompletion_shape pl)).finishCurrentTurn

/-- A turn is opened after the last one was finished. -/
theorem Follows.finishAndOpen (hit : t.items = []) (hidx : t.itemIndex = ⟨none⟩)
    (hid : t.id ∉ b.held.map PendingTurn.id) : Tracks p (b.finishCurrentTurn.openTurn t) := by
  refine h.finishCurrentTurn.openTurn finishCurrentTurn_currentTurn hit hidx ?_
  rwa [h.kept.held_finishCurrentTurn]

theorem Follows.handleTurnStarted (pl : TurnStartedEvent) :
    Keeps p (b.handleTurnStarted ops pl) := by
  intro hkey
  refine ⟨h.finishAndOpen rfl rfl fun hmem => ?_, fun t ht => ?_⟩
  · have hids := hkey.turnIds
    rw [← h.kept.held_finishCurrentTurn] at hmem
    have hheld : (b.handleTurnStarted ops pl).held =
        b.finishCurrentTurn.turns ++ [_] := held_of_current rfl
    rw [hheld, map_append] at hids
    rw [held_of_none finishCurrentTurn_currentTurn] at hmem
    exact disjoint_of_nodup_append hids hmem (mem_singleton_self _)
  · obtain rfl := Option.some.inj ht
    exact .inr (.inl rfl)

theorem Follows.upsertReviewModeItem (turnId : Option Text) :
    Keeps p (b.upsertReviewModeItem ops turnId i) := by
  unfold ThreadHistoryBuilder.upsertReviewModeItem
  cases turnId with
  | none => exact h.upsertItemInCurrentTurn
  | some turnId =>
    dsimp only
    split_ifs with hunk
    · rw [Bool.and_eq_true, Bool.not_eq_true', Bool.not_eq_true'] at hunk
      have hop : Tracks p (b.finishCurrentTurn.openTurn
          (b.finishCurrentTurn.newTurn ops (some turnId))) := by
        refine h.finishAndOpen rfl rfl fun hmem => ?_
        rcases mem_ids_held hmem with hkn | hkn
        · exact Bool.false_ne_true (hunk.1.symm.trans hkn)
        · exact Bool.false_ne_true (hunk.2.symm.trans hkn)
      exact (hop.upsertItemInOpenTurn (beq_self_eq_true turnId)).keeps
    · exact (h.upsertItemInTurnId turnId).keeps

theorem Follows.handleCompacted : Keeps p (b.handleCompacted ops) := by
  intro hkey
  obtain ⟨t, hcur⟩ := exists_currentTurn_ensureTurn ops b
  have hcom : (b.handleCompacted ops).currentTurn = some { t with sawCompaction := true } := by
    unfold ThreadHistoryBuilder.handleCompacted
    dsimp only
    rw [hcur]
    rfl
  have hheld : (b.handleCompacted ops).held =
      (b.ensureTurn ops).turns ++ [{ t with sawCompaction := true }] :=
    held_of_current hcom
  have htrac : Tracks p (b.ensureTurn ops) := by
    refine h.ensureTurn ?_
    have hids := hkey.turnIds
    rw [hheld, map_append] at hids
    rw [held_of_current hcur, map_append]
    exact hids
  obtain ⟨cs, hchan, hmir⟩ := htrac.mirrors
  have hsound := htrac.sound
  rw [held_of_current hcur] at hsound hmir
  have ht : t ∈ (b.ensureTurn ops).turns ++ [t] := mem_concat_self
  refine ⟨⟨?_, cs, hchan, ?_⟩, fun o ho => ?_⟩
  · rw [hheld]
    exact hsound.replace rfl (hsound.itemIds t ht) (hsound.indexed t ht)
  · rw [hheld]
    refine hmir.congr ?_
    rw [map_append, map_append]
    rfl
  · obtain rfl := Option.some.inj (hcom.symm.trans ho)
    exact .inr (.inr rfl)

theorem Follows.handleThreadRollback (hem : b.activeChangeSet = some .empty)
    (nt : Nat) : Follows p (b.handleThreadRollback nt) := by
  have hfin := h.finishCurrentTurn
  have htur := held_of_none (finishCurrentTurn_currentTurn (b := b))
  obtain ⟨cs, hchan, hmir⟩ := hfin.mirrors
  have hsound := hfin.sound
  rw [finishCurrentTurn_activeChangeSet, hem] at hchan
  obtain rfl := Option.some.inj hchan
  rw [apply_empty] at hmir
  rw [htur] at hmir hsound
  generalize hkept : b.finishCurrentTurn.turns.length - nt = k
  have hn : (b.handleThreadRollback nt).currentTurn = none := finishCurrentTurn_currentTurn
  have hheld : (b.handleThreadRollback nt).held = b.finishCurrentTurn.turns.take k := by
    rw [held_of_none hn, ← hkept]
    rfl
  have hact : (b.handleThreadRollback nt).activeChangeSet =
      some { ThreadHistoryChangeSet.empty with
        removedTurnIds := (b.finishCurrentTurn.turns.drop k).map PendingTurn.id } := by
    unfold ThreadHistoryBuilder.handleThreadRollback
    dsimp only [recordRemovedTurnIds]
    rw [finishCurrentTurn_activeChangeSet, hem, hkept]
    rfl
  refine ⟨⟨?_, _, hact, ?_⟩, fun t ht => ?_⟩
  · rw [hheld]
    exact hsound.take k
  · rw [hheld]
    exact hmir.remove hsound.turnIds k
  · rw [hn] at ht
    cases ht

theorem Follows.pushNextItem (m : Text → ThreadItem) :
    Keeps p (b.nextItemId.2.pushItemInCurrentTurn ops (m b.nextItemId.1)) := by
  have hnext : Follows p b.nextItemId.2 := h.congr rfl rfl rfl
  exact hnext.pushItemInCurrentTurn

theorem Follows.handleUserMessage (pl : UserMessageEvent) :
    Keeps p (b.handleUserMessage ops pl) := by
  have hcl : Follows p (if b.closesForUserMessage then b.finishCurrentTurn else b) := by
    split_ifs
    · exact h.finishCurrentTurn
    · exact h
  exact hcl.pushNextItem (.userMessage · pl.clientId pl.buildUserInputs)

theorem Follows.handleAgentMessage (m c : Text) : Keeps p (b.handleAgentMessage ops m c) := by
  unfold ThreadHistoryBuilder.handleAgentMessage
  split_ifs
  · exact h.keeps
  · exact h.pushNextItem (.agentMessage · m c)

theorem Follows.handleResponseItem (i : Core.ResponseItem) :
    Keeps p (b.handleResponseItem ops i) := by
  unfold ThreadHistoryBuilder.handleResponseItem
  split
  · split_ifs
    · exact h.keeps
    · split
      · exact h.keeps
      · exact h.pushItemInCurrentTurn
  · exact h.keeps

theorem Follows.handleAgentReasoning (t : Text) : Keeps p (b.handleAgentReasoning ops t) := by
  unfold ThreadHistoryBuilder.handleAgentReasoning
  split_ifs
  · exact h.keeps
  · exact h.appendReasoning [t] []

theorem Follows.handleAgentReasoningRawContent (t : Text) :
    Keeps p (b.handleAgentReasoningRawContent ops t) := by
  unfold ThreadHistoryBuilder.handleAgentReasoningRawContent
  split_ifs
  · exact h.keeps
  · exact h.appendReasoning [] [t]

theorem Follows.handleGuardianAssessment (pl : GuardianAssessmentEvent) :
    Keeps p (b.handleGuardianAssessment ops pl) := by
  unfold ThreadHistoryBuilder.handleGuardianAssessment
  split
  · exact h.keeps
  · exact h.upsertItemForTurn pl.turnId

theorem Follows.handleMaterializedItemLifecycle (turnId : Text)
    (i : TurnItem) : Keeps p (b.handleMaterializedItemLifecycle ops turnId i) := by
  unfold ThreadHistoryBuilder.handleMaterializedItemLifecycle
  split
  · exact h.keeps
  · split_ifs
    · exact h.upsertReviewModeItem (some turnId)
    · exact (h.upsertItemInTurnId turnId).keeps

theorem Follows.itemIdOr (id : Option Text) : Follows p (b.itemIdOr id).2 := by
  cases id with
  | some id => exact h
  | none => exact h.congr rfl rfl rfl

theorem Follows.handleEvent (hem : b.activeChangeSet = some .empty)
    (e : EventMsg) : Keeps p (b.handleEvent ops e) := by
  cases e with
  | userMessage pl => exact h.handleUserMessage pl
  | agentMessage m c => exact h.handleAgentMessage m c
  | agentReasoning t => exact h.handleAgentReasoning t
  | agentReasoningRawContent t => exact h.handleAgentReasoningRawContent t
  | execCommandBegin pl | execCommandEnd pl => exact (h.upsertItemInTurnId pl.turnId).keeps
  | guardianAssessment pl => exact h.handleGuardianAssessment pl
  | applyPatchApprovalRequest pl | patchApplyBegin pl | patchApplyEnd pl
  | dynamicToolCallRequest pl | dynamicToolCallResponse pl | mcpToolCallBegin pl
  | mcpToolCallEnd pl => exact h.upsertItemForTurn pl.turnId
  | contextCompacted => exact h.pushNextItem .contextCompaction
  | enteredReviewMode pl | exitedReviewMode pl =>
    exact (h.itemIdOr pl.itemId).upsertReviewModeItem pl.turnId
  | itemStarted turnId i | itemCompleted turnId i =>
    exact h.handleMaterializedItemLifecycle turnId i
  | error pl => exact (h.handleError pl).keeps
  | threadRolledBack nt => exact (h.handleThreadRollback hem nt).keeps
  | turnAborted pl => exact (h.handleTurnAborted pl).keeps
  | turnStarted pl => exact h.handleTurnStarted pl
  | turnComplete pl => exact (h.handleTurnComplete pl).keeps
  | other => exact h.keeps
  -- What is left is an item for the open turn.
  | _ => exact h.upsertItemInCurrentTurn

theorem Follows.handleRolloutItem (hem : b.activeChangeSet = some .empty)
    (i : RolloutItem) : Keeps p (b.handleRolloutItem ops i) := by
  have hind : Follows p { b with
      currentRolloutIndex := b.nextRolloutIndex, nextRolloutIndex := b.nextRolloutIndex + 1 } :=
    h.congr rfl rfl rfl
  cases i with
  | eventMsg e => exact hind.handleEvent hem e
  | compacted => exact hind.handleCompacted
  | responseItem i => exact hind.handleResponseItem i
  | other => exact hind.keeps

end Handling

/-! ### Runs -/

/-- What holds between two rollout items. -/
structure Synced (state : ThreadHistoryBuilder × HistoryProjection) : Prop where
  sound : Sound state.1.held
  kept : Kept state.1
  mirrors : Mirrors state.2 state.1.held

theorem follow_concat (items : List RolloutItem) (i : RolloutItem) :
    follow ops (items ++ [i]) =
      (((follow ops items).1.handleRolloutItemWithChanges ops i).1,
        (follow ops items).2.apply
          ((follow ops items).1.handleRolloutItemWithChanges ops i).2) := by
  unfold follow
  rw [foldl_append]
  rfl

theorem Synced.step (h : Synced (b, p))
    (i : RolloutItem) (hkey : Keyed (b.handleRolloutItemWithChanges ops i).1.held) :
    Synced ((b.handleRolloutItemWithChanges ops i).1,
      p.apply (b.handleRolloutItemWithChanges ops i).2) := by
  have hst : Follows p { b with activeChangeSet := some .empty } := by
    refine ⟨⟨h.sound, .empty, rfl, ?_⟩, h.kept⟩
    rw [apply_empty]
    exact h.mirrors
  have hend := hst.handleRolloutItem rfl i hkey
  obtain ⟨cs, hchan, hmir⟩ := hend.mirrors
  refine ⟨hend.sound, hend.kept, ?_⟩
  unfold handleRolloutItemWithChanges
  dsimp only
  rw [hchan]
  exact hmir

theorem synced_follow {items : List RolloutItem}
    (hkey : ∀ s, s <+: items → Keyed (follow ops s).1.held) : Synced (follow ops items) := by
  induction items using reverseRecOn with
  | nil =>
    have hkept : Kept .new := fun t ht => absurd ht (Option.some_ne_none t).symm
    exact ⟨⟨hkey [] nil_prefix, fun _ h => absurd h not_mem_nil⟩, hkept, .empty⟩
  | append_singleton s i ih =>
    have hbefore := ih fun s' hseen => hkey s' (hseen.trans (prefix_append _ _))
    have haft := hkey (s ++ [i]) prefix_rfl
    rw [follow_concat] at haft ⊢
    exact hbefore.step i haft

theorem wellFormed_follow (items : List RolloutItem) : (follow ops items).2.WellFormed := by
  induction items using reverseRecOn with
  | nil => exact wellFormed_empty
  | append_singleton s i ih =>
    rw [follow_concat]
    exact ih.apply

theorem keyed_of_toTurns (h : p.WellFormed)
    (htur : p.toTurns = turns.map toTurn) : Keyed turns where
  turnIds := by
    have hids : p.toTurns.map Turn.id = p.turns.map Prod.fst := by
      unfold toTurns
      rw [map_map]
      exact map_congr_left fun e he => (h.turnKeys e he).symm
    have hheld : turns.map PendingTurn.id = p.turns.map Prod.fst := by
      rw [← hids, htur, map_map]
      rfl
    exact hheld ▸ h.turns
  itemIds := by
    intro t ht
    have hmem : t.toTurn ∈ p.toTurns := htur ▸ mem_map_of_mem ht
    obtain ⟨e, -, he⟩ := mem_map.mp hmem
    have hit : t.items = p.itemsOf e.2.turnId := (congrArg Turn.items he).symm
    exact hit ▸ h.nodup_itemsOf

/-- **A projection that applies the change sets shows what the builder holds, after every
rollout item, exactly if the ids are distinct.** -/
theorem changes_faithful_iff (ops : ItemOps) (items : List RolloutItem) :
    (∀ seen, seen <+: items →
      (follow ops seen).2.toTurns = (follow ops seen).1.held.map PendingTurn.toTurn) ↔
      ∀ seen, seen <+: items → Keyed (follow ops seen).1.held := by
  constructor
  · exact fun h seen hseen => keyed_of_toTurns (wellFormed_follow seen) (h seen hseen)
  · intro h seen hseen
    exact (synced_follow fun seen' hseen' => h seen' (hseen'.trans hseen)).mirrors.toTurns

/-- Nothing is redacted, parsed or rendered. -/
def plainOps : ItemOps where
  redactSecrets := id
  shlexJoin := flatten
  parseCommand := fun _ => []
  joinUri := fun cwd path => some (cwd ++ path)
  joinPath := fun cwd path => cwd ++ path
  renderReviewOutputText := id
  parseHookPromptFragment := fun _ => none
  newUuid := fun index => (toString index).toList

/-- A message before any turn, and a turn with the id that the turn of the message was given. -/
def takenId : List RolloutItem :=
  [.eventMsg (.userMessage
      { clientId := none, message := "hi".toList, images := none, imageDetails := [],
        fileIds := none, fileIdDetails := [], imageOrder := [], localImages := [],
        localImageDetails := [], audio := none, localAudio := [], textElements := [] }),
    .eventMsg (.turnStarted
      { turnId := "rollout-0".toList, rootTurnId := none, startedAt := none })]

/-- One turn is started under an explicit id and one item is pushed; the builder holds two turns
and the projection shows one. -/
theorem takenId_hides_turn :
    (follow plainOps takenId).1.held.map PendingTurn.id = ["rollout-0".toList, "rollout-0".toList] ∧
      (follow plainOps takenId).1.held.map (fun turn => turn.items.map ThreadItem.id) =
        [["item-1".toList], []] ∧
      (follow plainOps takenId).2.toTurns.map Turn.id = ["rollout-0".toList] := by
  decide

end SushiGpt.AppServer
