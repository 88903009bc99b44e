/-
What a session has published and what it holds back.

`Tracks` says that a session follows the log of the server: it has published the first events
of the log, and what is pending are later events of it.  Inserting an event of the log and
publishing what is ready keep this.  `Reached` adds what a recovery needs to know about the
way from the state it started in: beyond its target it only publishes what was pending.
-/
import SushiGpt.ExecServer.Client

namespace SushiGpt.ExecServer

open OrderedMap

/-! ### The log by number -/

namespace ServerLog

variable {log : ServerLog} {seq seq' n : Nat} {e e' : ExecProcessEvent}

section

variable (h : log.event? seq = some e)

include h

theorem exists_index : ∃ i, seq = i + 1 ∧ log.events[i]? = some e := by
  cases seq with
  | zero => cases h
  | succ i => exact ⟨i, rfl, h⟩

theorem seq_of_event? : e.seq = some seq := by
  obtain ⟨i, rfl, hi⟩ := exists_index h
  exact log.numbered i e hi

theorem le_of_event? : seq ≤ log.events.length := by
  obtain ⟨i, rfl, hi⟩ := exists_index h
  exact (List.getElem?_eq_some_iff.mp hi).1

theorem exited_unique (h' : log.event? seq' = some e') (hex : e.isExited) (hex' : e'.isExited) :
    seq = seq' := by
  obtain ⟨i, rfl, hi⟩ := exists_index h
  obtain ⟨j, rfl, hj⟩ := exists_index h'
  rw [log.exitedOnce i j e e' hi hj hex hex']

theorem closed_last (hcl : e.isClosed) : seq = log.events.length := by
  obtain ⟨i, rfl, hi⟩ := exists_index h
  exact log.closedLast i e hi hcl

end

theorem exists_event? (hpos : 0 < seq) (hle : seq ≤ log.events.length) :
    ∃ e, log.event? seq = some e := by
  obtain ⟨i, rfl⟩ := Nat.exists_eq_add_one.mpr hpos
  exact ⟨log.events[i], List.getElem?_eq_getElem hle⟩

theorem take_succ (h : log.event? (n + 1) = some e) :
    log.events.take (n + 1) = log.events.take n ++ [e] := by
  rw [List.take_add_one, show log.events[n]? = some e from h]
  rfl

theorem mem_take_iff : e ∈ log.events.take n ↔ ∃ seq ≤ n, log.event? seq = some e := by
  rw [List.mem_take_iff_getElem]
  constructor
  · rintro ⟨i, hi, rfl⟩
    exact ⟨i + 1, by omega, List.getElem?_eq_getElem (by omega)⟩
  · rintro ⟨seq, hle, h⟩
    obtain ⟨i, rfl, hi⟩ := exists_index h
    obtain ⟨hi, rfl⟩ := List.getElem?_eq_some_iff.mp hi
    exact ⟨i, by omega, rfl⟩

theorem any_take_iff {p : ExecProcessEvent → Bool} : (log.events.take n).any p = true ↔
    ∃ seq ≤ n, ∃ e, log.event? seq = some e ∧ p e = true := by
  simp only [List.any_eq_true, mem_take_iff]
  constructor
  · rintro ⟨e, ⟨seq, hle, h⟩, hp⟩
    exact ⟨seq, hle, e, h, hp⟩
  · rintro ⟨seq, hle, e, h, hp⟩
    exact ⟨e, ⟨seq, hle, h⟩, hp⟩

def ExitAt (log : ServerLog) (seq : Nat) : Prop :=
  ∃ event, log.event? seq = some event ∧ event.isExited

instance (log : ServerLog) (seq : Nat) : Decidable (log.ExitAt seq) :=
  decidable_of_iff ((log.event? seq).any (·.isExited) = true) (by
    rw [Option.any_eq_true]
    rfl)

theorem ExitAt.unique (h : log.ExitAt seq) (h' : log.ExitAt seq') : seq = seq' := by
  obtain ⟨e, hev, hex⟩ := h
  obtain ⟨e', hev', hex'⟩ := h'
  exact exited_unique hev hev' hex hex'

end ServerLog

/-! ### Sessions that follow a log -/

/-- The session has published the first events of the log, and holds back later ones. -/
structure Tracks (log : ServerLog) (state : SessionState) : Prop where
  bound : state.lastPublishedSeq ≤ log.events.length
  published : state.events = log.events.take state.lastPublishedSeq ++
    (state.failure.map ExecProcessEvent.failed).toList
  pending : ∀ seq event, state.pending.get? seq = some event →
    state.lastPublishedSeq < seq ∧ log.event? seq = some event
  exited : state.exitPublished = (log.events.take state.lastPublishedSeq).any (·.isExited)
  closed : state.closedPublished = (log.events.take state.lastPublishedSeq).any (·.isClosed)
  bytes : state.pendingBytes =
    (state.pending.entries.map fun entry => pendingProcessEventBytes entry.2).sum

variable {log : ServerLog} {s s' st : SessionState} {e : ExecProcessEvent}
  {seq t : Nat}

theorem tracks_new : Tracks log .new where
  bound := Nat.zero_le _
  published := by simp [SessionState.new]
  pending := nofun
  exited := rfl
  closed := rfl
  bytes := rfl

theorem Tracks.publishNext (h : Tracks log s) (hal : s.failure = none)
    (hnext : s.pending.get? (s.lastPublishedSeq + 1) = some e) : Tracks log (s.publishNext e) := by
  obtain ⟨-, hev⟩ := h.pending _ _ hnext
  have htake := ServerLog.take_succ hev
  refine ⟨ServerLog.le_of_event? hev, ?_, fun seq o ho => ?_, ?_, ?_, ?_⟩
  · simp only [SessionState.publishNext]
    rw [htake, h.published, hal]
    simp
  · dsimp only [SessionState.publishNext] at ho ⊢
    by_cases hseq : seq = s.lastPublishedSeq + 1
    · rw [hseq, get?_erase_self] at ho
      cases ho
    · rw [get?_erase_of_ne hseq] at ho
      obtain ⟨hlt, hlog⟩ := h.pending _ _ ho
      exact ⟨by omega, hlog⟩
  · simp only [SessionState.publishNext]
    rw [htake, h.exited]
    simp
  · simp only [SessionState.publishNext]
    rw [htake, h.closed]
    simp
  · have hsum := ((perm_erase hnext).map fun entry => pendingProcessEventBytes entry.2).sum_nat
    simp only [SessionState.publishNext]
    rw [h.bytes, hsum]
    simp

theorem Tracks.noteChange (h : Tracks log s) (seq : Nat) : Tracks log (s.noteChange seq) :=
  { h with }

/-- From one state to another only pending events have been published, from the next one on
without a gap. -/
structure Publishes (state state' : SessionState) (closed : Bool) : Prop where
  le : state.lastPublishedSeq ≤ state'.lastPublishedSeq
  failure : state'.failure = state.failure
  taken : ∀ seq, state.lastPublishedSeq < seq → seq ≤ state'.lastPublishedSeq →
    state.pending.get? seq ≠ none
  left : ∀ seq, state'.lastPublishedSeq < seq → state'.pending.get? seq = state.pending.get? seq
  closed : state'.closedPublished = (state.closedPublished || closed)

theorem Publishes.refl (s : SessionState) : Publishes s s false where
  le := le_rfl
  failure := rfl
  taken := fun _ hlt hle => absurd hle (Nat.not_le.mpr hlt)
  left := fun _ _ => rfl
  closed := (Bool.or_false _).symm

theorem Publishes.next {closed : Bool} (hnext : s.pending.get? (s.lastPublishedSeq + 1) = some e)
    (h : Publishes (s.publishNext e) s' closed) : Publishes s s' (e.isClosed || closed) where
  le := (Nat.le_succ _).trans h.le
  failure := h.failure
  taken := by
    intro seq hlt hle
    by_cases hseq : seq = s.lastPublishedSeq + 1
    · rw [hseq, hnext]
      nofun
    · rw [← get?_erase_of_ne hseq]
      exact h.taken seq (by show s.lastPublishedSeq + 1 < seq; omega) hle
  left := by
    intro seq hlt
    have hle : s.lastPublishedSeq + 1 ≤ s'.lastPublishedSeq := h.le
    rw [h.left seq hlt]
    exact get?_erase_of_ne (by omega)
  closed := by
    rw [h.closed, ← Bool.or_assoc]
    rfl

theorem publishes_loop (f : Nat) (s : SessionState) :
    Publishes s (s.publishReadyLoop f).1 (s.publishReadyLoop f).2 := by
  induction f generalizing s with
  | zero => exact .refl s
  | succ f ih =>
    unfold SessionState.publishReadyLoop
    split
    · exact .refl s
    · rename_i e hnext
      exact (ih _).next hnext

theorem Tracks.loop (f : Nat) (h : Tracks log s) (hal : s.failure = none) :
    Tracks log (s.publishReadyLoop f).1 := by
  induction f generalizing s with
  | zero => exact h
  | succ f ih =>
    unfold SessionState.publishReadyLoop
    split
    · exact h
    · rename_i e hnext
      exact ih (h.publishNext hal hnext) hal

/-- The rounds do not run out before the next event is missing. -/
theorem drained_loop (f : Nat) (hfuel : s.pending.size ≤ f) :
    (s.publishReadyLoop f).1.pending.get?
      ((s.publishReadyLoop f).1.lastPublishedSeq + 1) = none := by
  induction f generalizing s with
  | zero => exact get?_of_size_eq_zero (Nat.le_zero.mp hfuel)
  | succ f ih =>
    unfold SessionState.publishReadyLoop
    split
    · assumption
    · rename_i e hnext
      refine ih ?_
      have hsize : (s.publishNext e).pending.size + 1 = s.pending.size := size_erase hnext
      omega

theorem publishes_ready (s : SessionState) : Publishes s s.publishReady.1 s.publishReady.2 :=
  publishes_loop _ s

theorem Tracks.publishReady (h : Tracks log s) (hal : s.failure = none) :
    Tracks log s.publishReady.1 :=
  h.loop _ hal

theorem drained_publishReady (s : SessionState) :
    s.publishReady.1.pending.get? (s.publishReady.1.lastPublishedSeq + 1) = none :=
  drained_loop _ le_rfl

/-! ### Insertion -/

/-- The event is pending, and nothing else has changed. -/
structure Inserts (state state' : SessionState) (seq : Nat) (event : ExecProcessEvent) : Prop where
  last : state'.lastPublishedSeq = state.lastPublishedSeq
  failure : state'.failure = state.failure
  closed : state'.closedPublished = state.closedPublished
  self : state'.pending.get? seq = some event
  others : ∀ k, k ≠ seq → state'.pending.get? k = state.pending.get? k

theorem insertPending_ok (hseq : e.seq = some seq) (hins : s.insertPending e = .ok s') :
    (s.pending.get? seq ≠ none ∧ s' = s) ∨ (s.pending.get? seq = none ∧
        s' = { s with
          pending := s.pending.insert seq e
          pendingBytes := s.pendingBytes + pendingProcessEventBytes e }) := by
  unfold SessionState.insertPending at hins
  rw [hseq] at hins
  dsimp only at hins
  split_ifs at hins with hpres
  · cases hins
    exact .inl ⟨Option.isSome_iff_ne_none.mp hpres, rfl⟩
  · cases hins
    exact .inr ⟨by simpa using hpres, rfl⟩

theorem Tracks.inserts (h : Tracks log s) (hlog : log.event? seq = some e)
    (hins : s.insertPending e = .ok s') : Inserts s s' seq e := by
  rcases insertPending_ok (ServerLog.seq_of_event? hlog) hins with
    ⟨hpres, rfl⟩ | ⟨-, rfl⟩
  · refine ⟨rfl, rfl, rfl, ?_, fun _ _ => rfl⟩
    obtain ⟨o, ho⟩ := Option.ne_none_iff_exists'.mp hpres
    rw [ho, ← (h.pending _ _ ho).2, hlog]
  · exact ⟨rfl, rfl, rfl, get?_insert_self, fun _ hne => get?_insert_of_ne hne⟩

theorem Tracks.insert (h : Tracks log s) (hlog : log.event? seq = some e)
    (hl : s.lastPublishedSeq < seq) (hins : s.insertPending e = .ok s') : Tracks log s' := by
  rcases insertPending_ok (ServerLog.seq_of_event? hlog) hins with ⟨-, rfl⟩ | ⟨habs, rfl⟩
  · exact h
  · refine ⟨h.bound, h.published, fun o val hv => ?_, h.exited, h.closed, ?_⟩
    · by_cases ho : o = seq
      · subst ho
        rw [get?_insert_self] at hv
        cases hv
        exact ⟨hl, hlog⟩
      · rw [get?_insert_of_ne ho] at hv
        exact h.pending _ _ hv
    · have hsum := ((perm_insert (v := e) habs).map fun entry =>
        pendingProcessEventBytes entry.2).sum_nat
      rw [hsum, h.bytes, List.map_cons, List.sum_cons, Nat.add_comm]

/-! ### On the way of a recovery -/

/-- What holds of a state that a recovery has reached from its start.  `closed` tells whether
the close has been published on the way. -/
structure Reached (log : ServerLog) (start : SessionState) (target : Nat) (state : SessionState)
    (closed : Bool) : Prop where
  tracks : Tracks log state
  alive : state.failure = none
  le : start.lastPublishedSeq ≤ state.lastPublishedSeq
  /-- Beyond the target only what was pending has been published ... -/
  taken : ∀ seq, target < seq → start.lastPublishedSeq < seq → seq ≤ state.lastPublishedSeq →
    start.pending.get? seq ≠ none
  /-- ... and what is pending was so before. -/
  left : ∀ seq, target < seq → state.lastPublishedSeq < seq →
    state.pending.get? seq = start.pending.get? seq
  closed : state.closedPublished = (start.closedPublished || closed)

variable {closed : Bool}

theorem Reached.refl (h : Tracks log s) (hal : s.failure = none) : Reached log s t s false where
  tracks := h
  alive := hal
  le := le_rfl
  taken := fun _ _ hlt hle => absurd hle (Nat.not_le.mpr hlt)
  left := fun _ _ _ => rfl
  closed := (Bool.or_false _).symm

theorem Reached.insert (h : Reached log st t s closed) (hlog : log.event? seq = some e)
    (hl : s.lastPublishedSeq < seq) (htgt : seq ≤ t) (hins : s.insertPending e = .ok s') :
    Reached log st t s' closed := by
  have hinser := h.tracks.inserts hlog hins
  refine ⟨h.tracks.insert hlog hl hins, hinser.failure.trans h.alive, ?_, ?_, ?_, ?_⟩
  · rw [hinser.last]
    exact h.le
  · rw [hinser.last]
    exact h.taken
  · intro o ho hlt
    rw [hinser.others o (by omega)]
    exact h.left o ho (hinser.last ▸ hlt)
  · rw [hinser.closed]
    exact h.closed

theorem Reached.publishReady (h : Reached log st t s closed) :
    Reached log st t s.publishReady.1 (closed || s.publishReady.2) := by
  have hpub := publishes_ready s
  refine ⟨h.tracks.publishReady h.alive, hpub.failure.trans h.alive,
    h.le.trans hpub.le, fun o ho hst hle => ?_, fun o ho hlt => ?_, ?_⟩
  · by_cases hbefore : o ≤ s.lastPublishedSeq
    · exact h.taken o ho hst hbefore
    · rw [← h.left o ho (Nat.not_le.mp hbefore)]
      exact hpub.taken o (Nat.not_le.mp hbefore) hle
  · rw [hpub.left o hlt]
    exact h.left o ho (hpub.le.trans_lt hlt)
  · rw [hpub.closed, h.closed, Bool.or_assoc]

end SushiGpt.ExecServer
