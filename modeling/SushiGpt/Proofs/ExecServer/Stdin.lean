/-
A write is sent once, while its id is remembered.

The ids remembered for a process are those of the last writes sent to it, and a chunk is sent
under an id that is not among them.  Every sequence of writes with this property can be sent, so
it says exactly how soon a retry is sent again.
-/
import SushiGpt.ExecServer.Stdin
import SushiGpt.Lib.Machine
import Mathlib.Data.List.Nodup

namespace SushiGpt.ExecServer.Stdin

open List Machine

/-- None of the ids is among those remembered before it; the last one comes first. -/
def Spaced : List Text → Prop
  | [] => True
  | id :: older => id ∉ older.take retainedStdinWriteIdsPerProcess ∧ Spaced older

/-- The ids of what was sent, the last one first. -/
def Writer.ids (w : Writer) : List Text := (w.sent.map WriteParams.writeId).reverse

/-- The ids remembered are the last ones. -/
structure Writer.Remembers (w : Writer) : Prop where
  order : w.accepted.order.reverse = w.ids.take retainedStdinWriteIdsPerProcess
  contains : ∀ id, w.accepted.contains id ↔ id ∈ w.accepted.order
  nodup : w.accepted.order.Nodup
  spaced : Spaced w.ids

variable {w : Writer} {p : WriteParams} {s s' : Server} {i n : Nat} {ids l : List Text} {id : Text}

theorem order_evict : (AcceptedStdinWriteIds.evict ids l).order.reverse =
    l.reverse.take retainedStdinWriteIdsPerProcess := by
  induction l generalizing ids with
  | nil => rfl
  | cons a l ih =>
    unfold AcceptedStdinWriteIds.evict
    split_ifs with hlen
    · rw [ih, reverse_cons, take_append_of_le_length (by simp at hlen ⊢; omega)]
    · rw [take_of_length_le (by simp at hlen ⊢; omega)]

theorem contains_evict (hnd : l.Nodup) (h : ∀ id, id ∈ ids ↔ id ∈ l) (id : Text) :
    (AcceptedStdinWriteIds.evict ids l).contains id ↔
      id ∈ (AcceptedStdinWriteIds.evict ids l).order := by
  induction l generalizing ids with
  | nil => simpa [AcceptedStdinWriteIds.evict, AcceptedStdinWriteIds.contains] using h id
  | cons a l ih =>
    unfold AcceptedStdinWriteIds.evict
    split_ifs
    · obtain ⟨ha, hnd⟩ := nodup_cons.mp hnd
      refine ih hnd fun id => ?_
      rw [mem_filter, h, mem_cons, decide_eq_true_eq]
      constructor
      · exact fun h => h.1.resolve_left h.2
      · exact fun h => ⟨.inr h, fun heq => ha (heq ▸ h)⟩
    · simpa [AcceptedStdinWriteIds.contains] using h id

theorem Writer.Remembers.send (h : w.Remembers) (hnew : ¬ w.accepted.contains p.writeId) :
    (w.send p).Remembers := by
  have hfr : p.writeId ∉ w.accepted.order := fun hmem => hnew ((h.contains _).mpr hmem)
  have hnd : (w.accepted.order ++ [p.writeId]).Nodup :=
    h.nodup.append (nodup_singleton _) (by simpa using hfr)
  have hac : (w.send p).accepted = .evict (p.writeId :: w.accepted.ids)
      (w.accepted.order ++ [p.writeId]) := if_neg hnew
  have hids : (w.send p).ids = p.writeId :: w.ids := by simp [Writer.ids, Writer.send]
  refine ⟨?_, ?_, ?_, ?_⟩
  · rw [hac, order_evict, hids, reverse_concat, h.order]
    simp [retainedStdinWriteIdsPerProcess, take_take]
  · rw [hac]
    refine contains_evict hnd fun id => ?_
    have := h.contains id
    simp only [AcceptedStdinWriteIds.contains, contains_iff_mem] at this
    simp [this, or_comm]
  · rw [hac, ← nodup_reverse, order_evict]
    exact (nodup_reverse.mpr hnd).sublist (take_sublist _ _)
  · rw [hids]
    exact ⟨h.order ▸ mem_reverse.not.mpr hfr, h.spaced⟩

/-- What a handler can do between two waits. -/
theorem advance_cases {granted : Bool} (h : s.advance i granted = some s') :
    ∃ hd hd', s.handlers[i]? = some hd ∧ s'.handlers = s.handlers.set i hd' ∧
      hd'.params = hd.params ∧
      (s'.writers = s.writers ∧ (hd'.phase = .answered (.ok .accepted) →
        ∃ k w, hd'.writer = some k ∧ s.writers[k]? = some w ∧
          w.accepted.contains hd.params.writeId) ∨
      ∃ k w, hd'.writer = some k ∧ s.writers[k]? = some w ∧
        ¬ w.accepted.contains hd.params.writeId ∧
        s'.writers = s.writers.set k (w.send hd.params)) := by
  obtain ⟨hd, hget, h⟩ := Option.bind_eq_some_iff.mp h
  cases hph : hd.phase with
  | called =>
    rw [hph] at h
    cases h
    refine ⟨hd, _, hget, rfl, ?_, .inl ⟨rfl, ?_⟩⟩
    all_goals
      unfold Handler.find
      split_ifs <;> (try split) <;> (try split_ifs) <;> simp
  | found =>
    rw [hph] at h
    obtain ⟨k, hk, h⟩ := Option.bind_eq_some_iff.mp h
    obtain ⟨w, hw, ⟨⟩⟩ := Option.bind_eq_some_iff.mp h
    refine ⟨hd, _, hget, rfl, rfl, .inl ⟨rfl, fun hacc => ⟨k, w, hk, hw, ?_⟩⟩⟩
    by_contra hnot
    simp [hnot] at hacc
  | reserving =>
    rw [hph] at h
    cases h
    refine ⟨hd, _, hget, rfl, rfl, .inl ⟨rfl, fun hacc => ?_⟩⟩
    cases granted <;> cases hacc
  | permitted =>
    rw [hph] at h
    obtain ⟨k, hk, h⟩ := Option.bind_eq_some_iff.mp h
    obtain ⟨w, hw, ⟨⟩⟩ := Option.bind_eq_some_iff.mp h
    unfold Server.write
    dsimp only
    split_ifs with hcon
    · exact ⟨hd, _, hget, rfl, rfl, .inl ⟨rfl, fun _ => ⟨k, w, hk, hw, hcon⟩⟩⟩
    · exact ⟨hd, _, hget, rfl, rfl, .inr ⟨k, w, hk, hw, hcon, rfl⟩⟩
  | answered r | cancelled => simp [hph] at h

structure Inv (ws : List Writer) (hs : List Handler) : Prop where
  remembers : ∀ w ∈ ws, w.Remembers
  called : ∀ w ∈ ws, ∀ p ∈ w.sent, p ∈ hs.map Handler.params
  accepted : ∀ hd ∈ hs, hd.phase = .answered (.ok .accepted) →
    ∃ k w, hd.writer = some k ∧ ws[k]? = some w ∧ hd.params.writeId ∈ w.ids

variable {ws : List Writer} {hs : List Handler} {hd hd' : Handler} {k : Nat}

theorem Inv.set (h : Inv ws hs) (hget : hs[i]? = some hd) (hpar : hd'.params = hd.params)
    (hacc : hd'.phase = .answered (.ok .accepted) →
      ∃ k w, hd'.writer = some k ∧ ws[k]? = some w ∧ hd'.params.writeId ∈ w.ids) :
    Inv ws (hs.set i hd') where
  remembers := h.remembers
  called w hw p hp := by
    obtain ⟨hi, rfl⟩ := List.getElem?_eq_some_iff.mp hget
    have hsame : (hs.set i hd').map Handler.params = hs.map Handler.params := by
      rw [map_set, hpar, ← getElem_map Handler.params, set_getElem_self]
      simpa using hi
    exact hsame ▸ h.called w hw p hp
  accepted o ho hph := by
    rcases mem_or_eq_of_mem_set ho with ho | rfl
    · exact h.accepted o ho hph
    · exact hacc hph

theorem Inv.send (h : Inv ws hs) (hk : ws[k]? = some w) (hnew : ¬ w.accepted.contains p.writeId)
    (hp : p ∈ hs.map Handler.params) : Inv (ws.set k (w.send p)) hs where
  remembers o ho := by
    rcases mem_or_eq_of_mem_set ho with ho | rfl
    · exact h.remembers o ho
    · exact (h.remembers w (mem_of_getElem? hk)).send hnew
  called o ho q hq := by
    rcases mem_or_eq_of_mem_set ho with ho | rfl
    · exact h.called o ho q hq
    · rcases mem_append.mp hq with hq | hq
      · exact h.called w (mem_of_getElem? hk) q hq
      · exact mem_singleton.mp hq ▸ hp
  accepted hd hhd hph := by
    obtain ⟨j, o, hj, ho, hid⟩ := h.accepted hd hhd hph
    by_cases hkj : k = j
    · subst hkj
      cases hk.symm.trans ho
      exact ⟨k, _, hj, getElem?_set_self (List.getElem?_eq_some_iff.mp hk).1,
        by simp [Writer.ids, Writer.send] at hid ⊢; exact .inr hid⟩
    · exact ⟨j, o, hj, (getElem?_set_ne hkj).trans ho, hid⟩

theorem Inv.step {a : Action} (h : Inv s.writers s.handlers) (hst : s.step a = some s') :
    Inv s'.writers s'.handlers := by
  cases a with
  | start id | remove id =>
    cases hst
    exact h
  | run id tty pipe =>
    cases hst
    refine ⟨?_, ?_, fun hd hhd hph => ?_⟩
    · exact forall_mem_append.mpr ⟨h.remembers, forall_mem_singleton.mpr
        ⟨rfl, by simp [AcceptedStdinWriteIds.contains], nodup_nil, trivial⟩⟩
    · exact forall_mem_append.mpr ⟨h.called, forall_mem_singleton.mpr nofun⟩
    · obtain ⟨k, w, hk, hw, hid⟩ := h.accepted hd hhd hph
      exact ⟨k, w, hk, (getElem?_append_left (List.getElem?_eq_some_iff.mp hw).1).trans hw, hid⟩
  | call p =>
    cases hst
    refine ⟨h.remembers, fun w hw q hq => ?_, ?_⟩
    · exact map_append ▸ mem_append_left _ (h.called w hw q hq)
    · exact forall_mem_append.mpr ⟨h.accepted, forall_mem_singleton.mpr nofun⟩
  | advance i granted =>
    obtain ⟨hd, hd', hget, hhs, hpar, ⟨hws, hacc⟩ | ⟨k, w, hk, hw, hnew, hws⟩⟩ := advance_cases hst
    · rw [hhs, hws]
      refine h.set hget hpar fun hph => ?_
      obtain ⟨k, w, hk, hw, hcon⟩ := hacc hph
      have hrem := h.remembers w (mem_of_getElem? hw)
      exact ⟨k, w, hk, hw, hpar ▸
        mem_of_mem_take (hrem.order ▸ mem_reverse.mpr ((hrem.contains _).mp hcon))⟩
    · rw [hhs, hws]
      refine (h.send hw hnew (mem_map_of_mem (mem_of_getElem? hget))).set hget hpar fun _ =>
        ⟨k, _, hk, getElem?_set_self (List.getElem?_eq_some_iff.mp hw).1, ?_⟩
      simp [hpar, Writer.ids, Writer.send]
  | cancel i =>
    obtain ⟨hd, hget, hst⟩ := Option.bind_eq_some_iff.mp hst
    split at hst
    · cases hst
    · cases hst
      exact h.set hget rfl nofun

theorem inv_of_run {acts : List Action} (h : run Server.step .empty acts = some s) :
    Inv s.writers s.handlers :=
  run_keeps (fun s => Inv s.writers s.handlers) (fun _ _ _ h hst => h.step hst) acts
    (by constructor <;> simp [Server.empty]) h

/-- **A chunk is sent under an id that is not among the last ones sent, these are the ids
remembered, and a write is answered as accepted when a write of its id was sent.** -/
theorem stdin_writes_spaced (acts : List Action) (s : Server)
    (h : run Server.step .empty acts = some s) :
    (∀ w ∈ s.writers, Spaced w.ids ∧
      ∀ id, w.accepted.contains id ↔ id ∈ w.ids.take retainedStdinWriteIdsPerProcess) ∧
    ∀ hd ∈ s.handlers, hd.phase = .answered (.ok .accepted) →
      ∃ k w p, hd.writer = some k ∧ s.writers[k]? = some w ∧ p ∈ w.sent ∧
        p.writeId = hd.params.writeId ∧ p ∈ s.handlers.map Handler.params := by
  have hinv := inv_of_run h
  refine ⟨fun w hw => ?_, fun hd hhd hph => ?_⟩
  · have hrem := hinv.remembers w hw
    exact ⟨hrem.spaced, fun id => by rw [hrem.contains, ← hrem.order, mem_reverse]⟩
  · obtain ⟨k, w, hk, hw, hid⟩ := hinv.accepted hd hhd hph
    obtain ⟨p, hp, hid⟩ := mem_map.mp (mem_reverse.mp hid)
    exact ⟨k, w, p, hk, hw, hp, hid, hinv.called w (mem_of_getElem? hw) p hp⟩

def retried : List Action :=
  .run [] true true :: replicate 2 (.call ⟨[], [1], ['a']⟩) ++
    [0, 1, 0, 1, 0, 1, 0, 1].map (.advance · true)

theorem stdin_writes_spaced_retried :
    ∃ s, run Server.step .empty retried = some s ∧ ∀ w ∈ s.writers, Spaced w.ids := by
  obtain ⟨s, h⟩ : ∃ s, run Server.step .empty retried = some s := ⟨_, rfl⟩
  exact ⟨s, h, fun w hw => ((stdin_writes_spaced _ s h).1 w hw).1⟩

/-- Any writes with ids spaced like this can be sent to one process. -/
theorem exists_run_of_spaced {l : List WriteParams}
    (hl : ∀ p ∈ l, p.processId = [] ∧ p.writeId ≠ [])
    (h : Spaced (l.map WriteParams.writeId).reverse) :
    ∃ acts s w, run Server.step .empty acts = some s ∧
      s.processes [] = some (.running true true 0) ∧ s.writers = [w] ∧ w.sent = l := by
  induction l using reverseRecOn with
  | nil => exact ⟨[.run [] true true], _, _, rfl, rfl, rfl, rfl⟩
  | append_singleton l p ih =>
    rw [map_append, reverse_append] at h
    obtain ⟨acts, s, w, hrun, hproc, hw, rfl⟩ := ih (fun q hq => hl q (mem_append_left _ hq)) h.2
    obtain ⟨hid, hne⟩ := hl p (by simp)
    have hrem : w.Remembers := (inv_of_run hrun).remembers w (by simp [hw])
    have hnew : ¬ w.accepted.contains p.writeId := by
      rw [hrem.contains, ← mem_reverse, hrem.order]
      exact h.1
    obtain ⟨pr, ws, hs⟩ := s
    obtain rfl : ws = [w] := hw
    have hfi : Server.advance ⟨pr, [w], hs ++ [.call p]⟩ hs.length true =
        some ⟨pr, [w], hs ++ [⟨p, some 0, .found⟩]⟩ := by
      have hfound : (Handler.call p).find pr = ⟨p, some 0, .found⟩ := by
        simp [Handler.call, Handler.find, hid, hne, show pr [] = _ from hproc]
      simp [Server.advance, Handler.call, ← hfound]
    have hch : Server.advance ⟨pr, [w], hs ++ [⟨p, some 0, .found⟩]⟩ hs.length true =
        some ⟨pr, [w], hs ++ [⟨p, some 0, .reserving⟩]⟩ := by
      simp [Server.advance, Server.setPhase, hnew]
    have hres : Server.advance ⟨pr, [w], hs ++ [⟨p, some 0, .reserving⟩]⟩ hs.length true =
        some ⟨pr, [w], hs ++ [⟨p, some 0, .permitted⟩]⟩ := by
      simp [Server.advance, Server.setPhase]
    have hwr : Server.advance ⟨pr, [w], hs ++ [⟨p, some 0, .permitted⟩]⟩ hs.length true =
        some ⟨pr, [w.send p], hs ++ [⟨p, some 0, .answered (.ok .accepted)⟩]⟩ := by
      simp [Server.advance, Server.setPhase, Server.write, hnew]
    refine ⟨acts ++ .call p :: replicate 4 (.advance hs.length true),
      ⟨pr, [w.send p], hs ++ [⟨p, some 0, .answered (.ok .accepted)⟩]⟩, w.send p, ?_, hproc, rfl,
      rfl⟩
    simp [run_append, hrun, run, Server.step, replicate, hfi, hch, hres, hwr]

theorem spaced_range (m : Nat) : Spaced ((range m).map fun k => replicate (k + 1) 'a').reverse := by
  induction m with
  | zero => trivial
  | succ m ih =>
    rw [range_succ, map_append, reverse_append]
    refine ⟨fun hmem => ?_, ih⟩
    obtain ⟨k, hk, heq⟩ := mem_map.mp (mem_reverse.mp (mem_of_mem_take hmem))
    have := congrArg length heq
    simp at this hk
    omega

/-- A retry after as many newer writes as are remembered is sent again. -/
theorem stdin_write_sent_again : ∃ acts s w older, run Server.step .empty acts = some s ∧
    s.writers = [w] ∧ w.ids = ['a'] :: older ∧ ['a'] ∈ older := by
  obtain ⟨newer, hne, hsp⟩ : ∃ newer : List Text, (∀ id ∈ newer, id ≠ []) ∧
      Spaced (['a'] :: (['a'] :: newer).reverse) := by
    refine ⟨(range retainedStdinWriteIdsPerProcess).map fun k => replicate (k + 2) 'a',
      by simp [replicate_succ], ?_, ?_⟩
    · rw [reverse_cons, take_left' (by simp)]
      simp [replicate_succ]
    · have heq (n : Nat) : (range (n + 1)).map (fun k => replicate (k + 1) 'a') =
          ['a'] :: (range n).map fun k => replicate (k + 2) 'a' := by
        simp [range_succ_eq_map, Function.comp_def]
      rw [← heq]
      exact spaced_range _
  obtain ⟨acts, s, w, hrun, -, hw, hse⟩ := exists_run_of_spaced
    (l := (['a'] :: newer ++ [['a']]).map fun id => ⟨[], [], id⟩)
    (by simp only [forall_mem_map]; simpa [or_imp, forall_and] using hne)
    (by simpa [Function.comp_def] using hsp)
  exact ⟨acts, s, w, (['a'] :: newer).reverse, hrun, hw, by simp [Writer.ids, hse,
    Function.comp_def], by simp⟩

end SushiGpt.ExecServer.Stdin
