/-
The change set of a batch is the change sets of its items, one after the other.

Pushing a change onto an accumulator does to what its change set makes of a projection what the
change itself does.
-/
import SushiGpt.AppServer.ChangeAccumulator

namespace SushiGpt.AppServer

open HistoryProjection ThreadHistoryChangeAccumulator IndexMap List

variable {p q : HistoryProjection} {acc : ThreadHistoryChangeAccumulator}

theorem apply_eq (p : HistoryProjection) (cs : ThreadHistoryChangeSet) : p.apply cs =
    ⟨cs.changedTurns.foldl (fun m t => IndexMap.insert t.turnId t m)
      (p.turns.filter fun e => !cs.removedTurnIds.contains e.1),
    cs.changedItems.foldl (fun m c => IndexMap.insert (c.turnId, c.item.id) c.item m)
      (p.items.filter fun e => !cs.removedTurnIds.contains e.1.1)⟩ := by
  have hturns (l : List ThreadHistoryTurnMetadata) (p : HistoryProjection) :
      l.foldl putTurn p = { p with
        turns := l.foldl (fun m t => IndexMap.insert t.turnId t m) p.turns } := by
    induction l generalizing p with
    | nil => rfl
    | cons t l ih => exact ih _
  have hitems (l : List ThreadHistoryItemChange) (p : HistoryProjection) :
      l.foldl (fun p c => p.putItem c.turnId c.item) p = { p with
        items := l.foldl (fun m c => IndexMap.insert (c.turnId, c.item.id) c.item m) p.items } := by
    induction l generalizing p with
    | nil => rfl
    | cons c l ih => exact ih _
  rw [apply, hturns, hitems]
  rfl

/-- The accumulator is in order, and its change set leads from one projection to the other. -/
structure Leads (p : HistoryProjection) (acc : ThreadHistoryChangeAccumulator)
    (q : HistoryProjection) : Prop where
  items : acc.changedItems.Indexed fun c => (c.turnId, c.item.id)
  turns : acc.changedTurns.Indexed ThreadHistoryTurnMetadata.turnId
  apply : p.apply acc.finish = q

namespace Leads

variable (h : Leads p acc q)
include h

theorem pushItemChange (c : ThreadHistoryItemChange) :
    Leads p (acc.pushItemChange c) (q.putItem c.turnId c.item) := by
  refine ⟨h.items.push c, h.turns, ?_⟩
  rw [← h.apply, apply_eq, apply_eq]
  dsimp only [finish, ThreadHistoryChangeAccumulator.pushItemChange, putItem]
  rw [h.items.values_push c, foldl_insert_put h.items.nodup]

theorem pushTurnChange (t : ThreadHistoryTurnMetadata) :
    Leads p (acc.pushTurnChange t) (q.putTurn t) := by
  refine ⟨h.items, h.turns.push t, ?_⟩
  rw [← h.apply, apply_eq, apply_eq]
  dsimp only [finish, ThreadHistoryChangeAccumulator.pushTurnChange, putTurn]
  rw [h.turns.values_push t, foldl_insert_put h.turns.nodup]

theorem pushRemovedTurnId (t : Text) : Leads p (acc.pushRemovedTurnId t) (q.removeTurns [t]) := by
  obtain ⟨hix, hval⟩ := h.items.removeAll
    ((acc.changedItems.indexes.map Prod.fst).filter fun key => key.1 = t)
  refine ⟨hix, h.turns.remove t, ?_⟩
  have hids (id : Text) : (!(acc.pushRemovedTurnId t).removedTurnIds.contains id) =
      (!([t].contains id) && !acc.removedTurnIds.contains id) := by
    dsimp only [ThreadHistoryChangeAccumulator.pushRemovedTurnId]
    by_cases hid : id = t <;> split_ifs <;> simp_all
  have hitems : (acc.pushRemovedTurnId t).changedItems.values =
      acc.changedItems.values.filter fun c => !([t].contains c.turnId) := by
    refine hval.trans (filter_congr fun c hc => ?_)
    have hkey := get?_isSome.mp (h.items.mem_keys.mp (mem_map_of_mem hc))
    simp [hkey, -mem_map]
  rw [← h.apply, apply_eq, apply_eq]
  simp only [finish, removeTurns, hids, hitems]
  rw [filter_foldl_insert fun id => !([t].contains id),
    filter_foldl_insert fun key : Text × Text => !([t].contains key.1), filter_filter,
    filter_filter]
  congr 2
  refine (h.turns.values_remove t).trans (filter_congr fun c _ => by simp)

theorem push (cs : ThreadHistoryChangeSet) : Leads p (acc.push cs) (q.apply cs) := by
  have hids : q.removeTurns cs.removedTurnIds =
      cs.removedTurnIds.foldl (fun q t => q.removeTurns [t]) q := by
    clear h
    induction cs.removedTurnIds generalizing q with
    | nil => simp [removeTurns]
    | cons t ids ih =>
      rw [foldl_cons, ← ih]
      simp [removeTurns, filter_filter, Bool.and_comm]
  unfold ThreadHistoryChangeAccumulator.push HistoryProjection.apply
  rw [hids]
  refine foldl_rel (foldl_rel (foldl_rel h ?_) ?_) ?_
  · exact fun t _ _ _ h => h.pushRemovedTurnId t
  · exact fun c _ _ _ h => h.pushItemChange c
  · exact fun t _ _ _ h => h.pushTurnChange t

end Leads

/-- **Coalesced changes do what the changes of the items do in turn.** -/
theorem coalesced_changes (ops : ItemOps) (b : ThreadHistoryBuilder) (items : List RolloutItem)
    (p : HistoryProjection) :
    p.apply (b.handleRolloutItemsWithChanges ops items).2 =
      (items.foldl (fun (b, p) item =>
        let (b, changes) := b.handleRolloutItemWithChanges ops item
        (b, p.apply changes)) (b, p)).2 := by
  have hrun : ∀ (b : ThreadHistoryBuilder) (acc : ThreadHistoryChangeAccumulator)
      (q : HistoryProjection), Leads p acc q →
      p.apply (items.foldl (fun s item =>
        let next := s.1.handleRolloutItemWithChanges ops item
        (next.1, s.2.push next.2)) (b, acc)).2.finish =
      (items.foldl (fun s item =>
        let next := s.1.handleRolloutItemWithChanges ops item
        (next.1, s.2.apply next.2)) (b, q)).2 := by
    induction items with
    | nil => exact fun _ _ _ h => h.apply
    | cons item items ih => exact fun _ _ _ h => ih _ _ _ (h.push _)
  refine hrun b .new p ⟨Slots.indexed_empty, Slots.indexed_empty, ?_⟩
  simp [apply_eq, finish, new, Slots.empty, Slots.values]

end SushiGpt.AppServer
