/-
Whether a reader of a process sleeps through its news.

News are recorded before they are announced by `notify_waiters`, and an announcement wakes
every reader that is suspended.  A check that finds nothing means that there is no news.  So a
reader can only miss what is recorded and announced between its check and the creation of its
future.
-/
import SushiGpt.ExecServer.LocalProcess
import SushiGpt.Lib.Lists
import SushiGpt.Lib.Machine

namespace SushiGpt.ExecServer

open Option RunningProcess Server

/-! ### News and announcements -/

/-- The number of a terminal event that is news after `afterSeq`.  A close always is. -/
def terminalNews (afterSeq : Nat) : ExecProcessEvent → Option Nat
  | .exited seq _ _ => if afterSeq < seq then some seq else none
  | .closed seq => some seq
  | _ => none

/-- The numbers of the events a reader is to be told of: retained output and the exit after
its `after_seq`, and the close. -/
def RunningProcess.news (process : RunningProcess) (p : ReadParams) : List Nat :=
  ((process.output.filter fun chunk => chunk.seq > p.afterSeq.getD 0).map (·.seq)) ++
    process.events.filterMap (terminalNews (p.afterSeq.getD 0))

/-- The task still has to call `notify_waiters` for the event. -/
def Task.announces (task : Task) (seq : Nat) : Prop :=
  task.phase = .notifying (some seq) ∨ task.phase = .notifyingClosed seq

instance (task : Task) (seq : Nat) : Decidable (task.announces seq) :=
  inferInstanceAs (Decidable (_ ∨ _))

/-- Not every notify for the event has been issued. -/
def Unannounced (tasks : List Task) (seq : Nat) : Prop := ∃ task ∈ tasks, task.announces seq

instance (tasks : List Task) (seq : Nat) : Decidable (Unannounced tasks seq) :=
  inferInstanceAs (Decidable (∃ task ∈ tasks, _))

/-- No reader is suspended while there is news for it whose notify has already been issued. -/
def NoneStranded (s : Server) : Prop :=
  ∀ reader ∈ s.readers, reader.phase = .suspended →
    ∀ seq ∈ s.process.news reader.params, Unannounced s.tasks seq

def ReaderPhase.isUnlocked : ReaderPhase → Bool
  | .unlocked => true
  | _ => false

/-- A notify is for nothing that is news to a reader between its check and its suspension. -/
def Attentive (s : Server) : Action → Prop
  | .notify index => ∀ task ∈ s.tasks[index]?, ∀ reader ∈ s.readers, reader.phase.isUnlocked →
      ∀ seq ∈ s.process.news reader.params, ¬ task.announces seq
  | _ => True

instance : ∀ (s : Server) (action : Action), Decidable (Attentive s action)
  | s, .notify index => inferInstanceAs (Decidable (∀ task ∈ s.tasks[index]?, _))
  | _, .started _ | _, .output .. | _, .outputEnded _ | _, .finish _ | _, .exit .. | _, .suspend _
  | _, .close _ | _, .remove | _, .read _ | _, .check .. | _, .timeout _ => .isTrue trivial

theorem Unannounced.set {ts : List Task} {i seq : Nat} {t next : Task} (ht : ts[i]? = some t)
    (hquiet : ¬ t.announces seq) (h : Unannounced ts seq) : Unannounced (ts.set i next) seq := by
  obtain ⟨o, ho, hann⟩ := h
  obtain ⟨b, a, rfl, hset⟩ := Lists.exists_split_of_getElem? ht
  rw [hset]
  have hne : o ≠ t := fun heq => hquiet (heq ▸ hann)
  refine ⟨o, ?_, hann⟩
  simp only [List.mem_append, List.mem_cons] at ho ⊢
  tauto

theorem evict_suffix (o : List ProcessOutputChunk) (bs : Nat) : (evict o bs).1 <:+ o := by
  induction o generalizing bs with
  | nil => exact List.suffix_rfl
  | cons e r ih =>
    unfold evict
    split_ifs
    · exact (ih _).trans (List.suffix_cons _ _)
    · exact List.suffix_rfl

/-! ### What recording adds -/

/-- One more event is recorded, under the next number. -/
structure RunningProcess.Logs (process next : RunningProcess) (event : ExecProcessEvent) :
    Prop where
  events : next.events = process.events ++ [event]
  seq : event.seq = some process.nextSeq
  nextSeq : next.nextSeq = process.nextSeq + 1
  output : ∀ chunk ∈ next.output, chunk ∈ process.output ∨ chunk.seq = process.nextSeq
  exited : process.exitCode.isSome ∨ event.isExited → next.exitCode.isSome
  closed : process.closed = true ∨ event.isClosed → next.closed = true

section

variable {process : RunningProcess}

theorem recordOutput_logs (stream : ExecOutputStream) (chunk : List UInt8) :
    process.Logs (process.recordOutput stream chunk)
      (.output ⟨process.nextSeq, stream, chunk⟩) where
  events := rfl
  seq := rfl
  nextSeq := rfl
  output retained hmem := by
    refine (List.mem_append.mp ((evict_suffix _ _).subset hmem)).imp_right fun hnew => ?_
    rw [List.mem_singleton.mp hnew]
  exited h := h.resolve_right nofun
  closed h := h.resolve_right nofun

theorem recordExit_logs (isLikelySandboxDenied : DenialCheck) (exitCode : Int) :
    ∃ denied, process.Logs (process.recordExit isLikelySandboxDenied exitCode)
      (.exited process.nextSeq exitCode denied) :=
  ⟨_, rfl, rfl, rfl, fun _ => .inl, fun _ => rfl, fun h => h.resolve_right nofun⟩

theorem maybeEmitClosed_logs {closed : RunningProcess}
    (hcl : process.maybeEmitClosed = some closed) :
    process.Logs closed (.closed process.nextSeq) := by
  unfold maybeEmitClosed at hcl
  split_ifs at hcl
  cases hcl
  exact ⟨rfl, rfl, rfl, fun _ => .inl, fun h => h.resolve_right nofun, fun _ => rfl⟩

variable {next : RunningProcess} {event : ExecProcessEvent}

theorem seq_of_terminalNews {after seq : Nat} (h : terminalNews after event = some seq) :
    event.seq = some seq := by
  cases event with
  | exited =>
    simp only [terminalNews] at h
    split_ifs at h
    exact h
  | closed => exact h
  | output | failed => cases h

theorem mem_news_of_logs {p : ReadParams} {seq : Nat} (h : process.Logs next event)
    (hmem : seq ∈ next.news p) : seq ∈ process.news p ∨ seq = process.nextSeq := by
  simp only [news, h.events, List.filterMap_append, List.mem_append, List.mem_map,
    List.mem_filter] at hmem ⊢
  rcases hmem with ⟨chunk, ⟨hchunk, hafter⟩, rfl⟩ | hold | hnew
  · exact (h.output chunk hchunk).imp_left fun hold => .inl ⟨chunk, ⟨hold, hafter⟩, rfl⟩
  · exact .inl (.inr hold)
  · obtain ⟨e, he, hterm⟩ := List.mem_filterMap.mp hnew
    rw [List.mem_singleton.mp he] at hterm
    exact .inr (Option.some.inj ((seq_of_terminalNews hterm).symm.trans h.seq))

end

/-! ### What a check that finds nothing tells -/

/-- The terminal events are recorded in the fields that `exec_read` looks at. -/
structure RunningProcess.Recorded (process : RunningProcess) : Prop where
  exited : ∀ seq code denied, .exited seq code denied ∈ process.events →
    process.exitCode.isSome ∧ seq < process.nextSeq
  closed : ∀ seq, .closed seq ∈ process.events → process.closed = true

section

variable {process : RunningProcess}

theorem RunningProcess.Recorded.logs {next : RunningProcess} {event : ExecProcessEvent}
    (hrec : process.Recorded) (h : process.Logs next event) : next.Recorded := by
  refine ⟨fun seq code denied hmem => ?_, fun seq hmem => h.closed ?_⟩ <;>
    rw [h.events, List.mem_append, List.mem_singleton] at hmem
  · rw [h.nextSeq]
    rcases hmem with hold | rfl
    · obtain ⟨hcode, hlt⟩ := hrec.exited _ _ _ hold
      exact ⟨h.exited (.inl hcode), Nat.lt_succ_of_lt hlt⟩
    · exact ⟨h.exited (.inr rfl), Nat.lt_succ_of_le (Option.some.inj h.seq).le⟩
  · rcases hmem with hold | rfl
    · exact .inl (hrec.closed seq hold)
    · exact .inr rfl

theorem collect_chunks_ne_nil (maxBytes : Nat) (output chunks : List ProcessOutputChunk)
    (totalBytes nextSeq : Nat) (h : chunks ≠ []) :
    (collect maxBytes output chunks totalBytes nextSeq).1 ≠ [] := by
  induction output generalizing chunks totalBytes nextSeq with
  | nil => exact h
  | cons retained rest ih =>
    unfold collect
    split_ifs
    · exact h
    · simp
    · exact ih _ _ _ (by simp)

/-- The first chunk is taken whatever its size. -/
theorem output_nil_of_collect {maxBytes nextSeq : Nat} {output : List ProcessOutputChunk}
    (h : (collect maxBytes output [] 0 nextSeq).1 = []) : output = [] := by
  cases output with
  | nil => rfl
  | cons retained rest =>
    unfold collect at h
    split_ifs at h
    · simp_all
    · simp at h
    · exact absurd h (collect_chunks_ne_nil _ _ _ _ _ (by simp))

theorem news_nil_of_not_hasNews {params : ReadParams} (h : process.Recorded)
    (hnone : hasNews params (process.read params) = false) : process.news params = [] := by
  simp only [hasNews, Bool.or_eq_false_iff, Bool.not_eq_false', Bool.and_eq_false_imp,
    List.isEmpty_iff, decide_eq_false_iff_not] at hnone
  obtain ⟨⟨hchunks, hopen⟩, hexit⟩ := hnone
  have hout := output_nil_of_collect hchunks
  have hnext : (process.read params).nextSeq = process.nextSeq := by
    simp only [RunningProcess.read, hout, collect, ite_self]
  rw [hnext] at hexit
  rw [news, hout, List.map_nil, List.nil_append, List.filterMap_eq_nil_iff]
  intro event hevent
  cases event with
  | exited seq code denied =>
    obtain ⟨hcode, hseq⟩ := h.exited _ _ _ hevent
    have hlate := hexit hcode
    exact if_neg (by omega)
  | closed seq => exact absurd ((h.closed _ hevent).symm.trans hopen) nofun
  | _ => rfl

end

/-! ### Steps -/

/-- What a task does under the lock: it has nothing to announce, and the event that it records, if
any, is new and the one that it is to announce. -/
structure Records (s : Server) (task next : Task) (process : RunningProcess) : Prop where
  quiet : ∀ seq, ¬ task.announces seq
  fresh : ∀ seq, next.announces seq → s.process.nextSeq ≤ seq ∧ seq < process.nextSeq
  later : s.process.nextSeq ≤ process.nextSeq
  news : ∀ p, ∀ seq ∈ process.news p, seq ∈ s.process.news p ∨ next.announces seq
  recorded : s.process.Recorded → process.Recorded

/-- The steps, as far as news and readers go. -/
inductive Effect (s : Server) : Action → Server → Prop
  | started (tty : Bool) :
    Effect s (.started tty) { s with entry := .running, tasks := s.tasks ++ spawned tty }
  | records {action : Action} {index : Nat} {task : Task} {phase : TaskPhase}
    {process : RunningProcess} (hact : Attentive s action) (ht : s.tasks[index]? = some task)
    (h : Records s task { task with phase } process) :
    Effect s action ({ s with process }.setTask index task phase)
  | notify {index : Nat} {task : Task} {phase : TaskPhase} (ht : s.tasks[index]? = some task)
    (hquiet : ∀ seq, ¬ Task.announces { task with phase } seq) :
    Effect s (.notify index) (s.notifyWaiters.setTask index task phase)
  | remove : Effect s .remove { s with entry := .removed }
  | read (params : ReadParams) :
    Effect s (.read params) { s with readers := s.readers ++ [⟨params, .checking⟩] }
  | reader {action : Action} {index : Nat} {reader : Reader} {phase : ReaderPhase}
    (hact : Attentive s action) (hrd : s.readers[index]? = some reader)
    (hsus : phase = .suspended → reader.phase = .unlocked)
    (hunl : phase = .unlocked → hasNews reader.params (s.process.read reader.params) = false) :
    Effect s action (s.setReader index reader phase)

section

variable {s s' : Server}

theorem not_announces {task : Task} {phase : TaskPhase} (hphase : task.phase = phase)
    (h : phase ∈ [.receiving, .finishing, .closing, .done, .notifying none]) (seq : Nat) :
    ¬ task.announces seq := by
  rintro (hann | hann) <;> simp [← hphase, hann] at h

/-- A task that records nothing. -/
theorem Effect.moves {action : Action} {index : Nat} {task : Task} {phase : TaskPhase}
    (hact : Attentive s action) (ht : s.tasks[index]? = some task)
    (hquiet : ∀ seq, ¬ task.announces seq)
    (hphase : phase ∈ [.receiving, .finishing, .closing, .done, .notifying none]) :
    Effect s action (s.setTask index task phase) :=
  .records hact ht ⟨hquiet, fun seq hann => absurd hann (not_announces rfl hphase seq), le_rfl,
    fun _ _ => .inl, id⟩

theorem Records.event {task next : Task} {process : RunningProcess}
    (hquiet : ∀ seq, ¬ task.announces seq)
    (hnext : next.phase = .notifying (some s.process.nextSeq) ∨
      next.phase = .notifyingClosed s.process.nextSeq)
    {event : ExecProcessEvent} (h : s.process.Logs process event) :
    Records s task next process := by
  have hann (seq : Nat) : next.announces seq ↔ seq = s.process.nextSeq := by
    rcases hnext with hnext | hnext <;> simp [Task.announces, hnext, eq_comm]
  have hseq := h.nextSeq
  refine ⟨hquiet, fun seq hnew => ?_, by omega, fun p seq hnews => ?_, fun hrec => hrec.logs h⟩
  · obtain rfl := (hann seq).mp hnew
    omega
  · exact (mem_news_of_logs h hnews).imp_right (hann seq).mpr

variable {isLikelySandboxDenied : DenialCheck} {index : Nat}

theorem output_effect {chunk : List UInt8}
    (hs : s.step isLikelySandboxDenied (.output index chunk) = some s') :
    Effect s (.output index chunk) s' := by
  obtain ⟨task, ht, hs⟩ := bind_eq_some_iff.mp hs
  split at hs
  · rename_i stream _ hphase
    have hquiet := not_announces hphase (by simp)
    split_ifs at hs <;> cases hs
    · exact .records trivial ht (.event hquiet (.inl rfl) (recordOutput_logs stream chunk))
    · exact .moves trivial ht hquiet (by simp)
  · cases hs

theorem outputEnded_effect (hs : s.step isLikelySandboxDenied (.outputEnded index) = some s') :
    Effect s (.outputEnded index) s' := by
  obtain ⟨task, ht, hs⟩ := bind_eq_some_iff.mp hs
  split at hs <;> cases hs
  rename_i hphase
  exact .moves trivial ht (not_announces hphase (by simp)) (by simp)

theorem finish_effect (hs : s.step isLikelySandboxDenied (.finish index) = some s') :
    Effect s (.finish index) s' := by
  obtain ⟨task, ht, hs⟩ := bind_eq_some_iff.mp hs
  split at hs
  · rename_i hphase
    have hquiet := not_announces hphase (by simp)
    split_ifs at hs <;> cases hs
    · refine .records trivial ht ⟨hquiet, fun seq hann => ?_, le_rfl, fun _ _ => .inl,
        fun h => ⟨h.exited, h.closed⟩⟩
      exact absurd hann (not_announces rfl (by simp) seq)
    · exact .moves trivial ht hquiet (by simp)
  · cases hs

theorem exit_effect {exitCode : Int}
    (hs : s.step isLikelySandboxDenied (.exit index exitCode) = some s') :
    Effect s (.exit index exitCode) s' := by
  obtain ⟨task, ht, hs⟩ := bind_eq_some_iff.mp hs
  split at hs
  · rename_i hphase
    have hquiet := not_announces hphase (by simp)
    split_ifs at hs <;> cases hs
    · obtain ⟨denied, hlogs⟩ := recordExit_logs isLikelySandboxDenied exitCode
      exact .records trivial ht (.event hquiet (.inl rfl) hlogs)
    · exact .moves trivial ht hquiet (by simp)
  · cases hs

theorem close_effect (hs : s.step isLikelySandboxDenied (.close index) = some s') :
    Effect s (.close index) s' := by
  obtain ⟨task, ht, hs⟩ := bind_eq_some_iff.mp hs
  split at hs
  · rename_i hphase
    have hquiet := not_announces hphase (by simp)
    split_ifs at hs
    · split at hs <;> cases hs
      · exact .moves trivial ht hquiet (by simp)
      · rename_i closed hcl
        exact .records trivial ht (.event hquiet (.inr rfl) (maybeEmitClosed_logs hcl))
    · cases hs
      exact .moves trivial ht hquiet (by simp)
  · cases hs

theorem checkReader_cases (s : Server) (params : ReadParams) (expired : Bool) :
    (∃ result, s.checkReader params expired = .returned result) ∨
      s.checkReader params expired = .unlocked ∧
        hasNews params (s.process.read params) = false := by
  unfold checkReader
  split_ifs
  · exact .inl ⟨_, rfl⟩
  · split
    · exact .inl ⟨_, rfl⟩
    · exact .inl ⟨_, rfl⟩
    · dsimp only
      split_ifs with hnews
      · exact .inl ⟨_, rfl⟩
      · exact .inr ⟨rfl, by simp_all⟩

theorem check_effect {expired : Bool}
    (hs : s.step isLikelySandboxDenied (.check index expired) = some s') :
    Effect s (.check index expired) s' := by
  obtain ⟨reader, hrd, hs⟩ := bind_eq_some_iff.mp hs
  split at hs <;> cases hs
  rcases checkReader_cases s reader.params expired with ⟨result, hphase⟩ | ⟨hphase, hnone⟩ <;>
    rw [hphase]
  · exact .reader trivial hrd nofun nofun
  · exact .reader trivial hrd nofun fun _ => hnone

/-- **What every step does.** -/
theorem step_effect {action : Action} (hs : s.step isLikelySandboxDenied action = some s') :
    Effect s action s' := by
  cases action with
  | started tty =>
    dsimp only [step] at hs
    split_ifs at hs
    cases hs
    exact .started tty
  | output index chunk => exact output_effect hs
  | outputEnded index => exact outputEnded_effect hs
  | finish index => exact finish_effect hs
  | exit index exitCode => exact exit_effect hs
  | notify index =>
    obtain ⟨task, ht, hs⟩ := bind_eq_some_iff.mp hs
    split at hs <;> cases hs <;> exact .notify ht (not_announces rfl (by simp))
  | close index => exact close_effect hs
  | remove =>
    cases hs
    exact .remove
  | read params =>
    cases hs
    exact .read params
  | check index expired => exact check_effect hs
  | suspend index =>
    obtain ⟨reader, hrd, hs⟩ := bind_eq_some_iff.mp hs
    split at hs <;> cases hs
    exact .reader trivial hrd (fun _ => ‹_›) nofun
  | timeout index =>
    obtain ⟨reader, hrd, hs⟩ := bind_eq_some_iff.mp hs
    split at hs <;> cases hs
    exact .reader trivial hrd nofun nofun

/-! ### Announcements to come -/

/-- Every event is announced by one task, and after it has been recorded. -/
structure Orderly (s : Server) : Prop where
  recorded : s.process.Recorded
  past : ∀ task ∈ s.tasks, ∀ seq, task.announces seq → seq < s.process.nextSeq
  single : s.tasks.Pairwise fun task other => ∀ seq, task.announces seq → ¬ other.announces seq

theorem orderly_start (processId : Text) (sandboxed : Bool) :
    Orderly (.start processId sandboxed) :=
  ⟨⟨fun _ _ _ => nofun, fun _ => nofun⟩, fun _ => nofun, .nil⟩

/-- What a task announces next is later than all that the others announce. -/
theorem Orderly.set {task next : Task} (h : Orderly s) (ht : s.tasks[index]? = some task)
    (htasks : s'.tasks = s.tasks.set index next) (hrec : s'.process.Recorded)
    (hle : s.process.nextSeq ≤ s'.process.nextSeq)
    (hnext : ∀ seq, next.announces seq → s.process.nextSeq ≤ seq ∧ seq < s'.process.nextSeq) :
    Orderly s' := by
  obtain ⟨before, after, hsplit, hset⟩ := Lists.exists_split_of_getElem? ht
  have hpast := h.past
  have hsingle := h.single
  simp only [hsplit, List.pairwise_append, List.pairwise_cons, List.mem_append,
    List.mem_cons] at hpast hsingle
  obtain ⟨hbefore, ⟨hrest, hafter⟩, hacross⟩ := hsingle
  have hold {other : Task} (ho : other ∈ before ∨ other ∈ after) {seq : Nat}
      (hann : other.announces seq) : seq < s.process.nextSeq :=
    hpast other (by tauto) seq hann
  refine ⟨hrec, ?_, ?_⟩ <;> rw [htasks, hset] <;>
    simp only [List.pairwise_append, List.pairwise_cons, List.mem_append, List.mem_cons]
  · rintro other (ho | rfl | ho) seq hann
    · exact (hold (.inl ho) hann).trans_le hle
    · exact (hnext seq hann).2
    · exact (hold (.inr ho) hann).trans_le hle
  · refine ⟨hbefore, ⟨fun other ho seq hann hother => ?_, hafter⟩, ?_⟩
    · exact (hnext seq hann).1.not_gt (hold (.inr ho) hother)
    rintro other ho third (rfl | hthird) seq hann hother
    · exact (hnext seq hother).1.not_gt (hold (.inl ho) hann)
    · exact hacross other ho third (.inr hthird) seq hann hother

theorem Orderly.not_unannounced_set {task next : Task} {seq : Nat} (h : Orderly s)
    (ht : s.tasks[index]? = some task) (hann : task.announces seq) (hquiet : ¬ next.announces seq) :
    ¬ Unannounced (s.tasks.set index next) seq := by
  obtain ⟨before, after, hsplit, hset⟩ := Lists.exists_split_of_getElem? ht
  have hsingle := h.single
  simp only [hsplit, List.pairwise_append, List.pairwise_cons] at hsingle
  obtain ⟨-, ⟨hrest, -⟩, hacross⟩ := hsingle
  rw [hset]
  rintro ⟨other, hother, hsame⟩
  rw [List.mem_append, List.mem_cons] at hother
  rcases hother with hother | rfl | hother
  · exact hacross other hother task (.head _) seq hsame hann
  · exact hquiet hsame
  · exact hrest other hother seq hann hsame

theorem Orderly.effect {action : Action} (h : Orderly s) (he : Effect s action s') :
    Orderly s' := by
  cases he with
  | started tty =>
    have hspawned : ∀ task ∈ spawned tty, ∀ seq, ¬ task.announces seq := by
      intro task htask
      refine not_announces rfl ?_
      simp only [spawned, List.mem_cons, List.not_mem_nil, or_false] at htask
      rcases htask with rfl | rfl | rfl <;> simp
    refine ⟨h.recorded, fun task htask => ?_, List.pairwise_append.mpr ⟨h.single, ?_, ?_⟩⟩
    · rcases List.mem_append.mp htask with htask | htask
      · exact h.past task htask
      · exact fun seq hann => absurd hann (hspawned task htask seq)
    · exact List.pairwise_of_forall_mem_list fun task htask other _ seq hann =>
        absurd hann (hspawned task htask seq)
    · exact fun task _ other hother seq _ => hspawned other hother seq
  | records hact ht hr =>
    exact h.set ht rfl (hr.recorded h.recorded) hr.later hr.fresh
  | notify ht hquiet =>
    exact h.set ht rfl h.recorded le_rfl fun seq hann => absurd hann (hquiet seq)
  | remove | read | reader => exact ⟨h.recorded, h.past, h.single⟩

/-! ### Readers -/

/-- Everything that is news to the readers that wait or are about to is still to be announced. -/
def AllTold (s : Server) : Prop :=
  ∀ reader ∈ s.readers, reader.phase = .suspended ∨ reader.phase = .unlocked →
    ∀ seq ∈ s.process.news reader.params, Unannounced s.tasks seq

/-- No reader sleeps through its news, and none will that is suspended next. -/
def NoneMisses (isLikelySandboxDenied : DenialCheck) (s : Server) : Prop :=
  NoneStranded s ∧
    ∀ index next, s.step isLikelySandboxDenied (.suspend index) = some next → NoneStranded next

theorem AllTold.setReader {reader : Reader} {phase : ReaderPhase} (h : AllTold s)
    (htold : phase = .suspended ∨ phase = .unlocked →
      ∀ seq ∈ s.process.news reader.params, Unannounced s.tasks seq) :
    AllTold (s.setReader index reader phase) := by
  intro other hother
  rcases List.mem_or_eq_of_mem_set hother with hother | rfl
  · exact h other hother
  · exact htold

theorem allTold_iff : AllTold s ↔ NoneMisses isLikelySandboxDenied s := by
  constructor
  · intro h
    refine ⟨fun reader hrd hsus => h reader hrd (.inl hsus), fun index next hs => ?_⟩
    obtain ⟨reader, hrd, hs⟩ := bind_eq_some_iff.mp hs
    split at hs <;> cases hs
    rename_i hphase
    have htold : AllTold (s.setReader index reader .suspended) := h.setReader fun _ =>
      h reader (List.mem_of_getElem? hrd) (.inr hphase)
    exact fun reader hrd hsus => htold reader hrd (.inl hsus)
  · rintro ⟨hawake, hnext⟩ reader hrd (hphase | hphase)
    · exact hawake reader hrd hphase
    · obtain ⟨index, hindex⟩ := List.mem_iff_getElem?.mp hrd
      obtain ⟨hlt, -⟩ := List.getElem?_eq_some_iff.mp hindex
      have hs : s.step isLikelySandboxDenied (.suspend index) =
          some (s.setReader index reader .suspended) := by
        simp [step, hindex, hphase]
      exact hnext index _ hs { reader with phase := .suspended } (List.mem_set hlt _) rfl

/-- The notify wakes those who are suspended; the others miss it. -/
theorem allTold_notify {task : Task} {phase : TaskPhase} (ho : Orderly s) (h : AllTold s)
    (ht : s.tasks[index]? = some task) (hquiet : ∀ seq, ¬ Task.announces { task with phase } seq) :
    AllTold (s.notifyWaiters.setTask index task phase) ↔ Attentive s (.notify index) := by
  constructor
  · intro htold other hother reader hrd hunl seq hseq hann
    obtain rfl := Option.some.inj (ht.symm.trans hother)
    have hphase : reader.phase = .unlocked := by
      cases hphase : reader.phase <;> simp_all [ReaderPhase.isUnlocked]
    have hkept : reader ∈ (s.notifyWaiters.setTask index task phase).readers :=
      List.mem_map.mpr ⟨reader, hrd, by simp [hphase]⟩
    exact ho.not_unannounced_set ht hann (hquiet seq) (htold reader hkept (.inr hphase) seq hseq)
  · intro hatt woken hwoken hwait seq hseq
    obtain ⟨reader, hrd, rfl⟩ := List.mem_map.mp hwoken
    split at hwait
    · simp at hwait
    · rename_i hawake
      have hphase : reader.phase = .unlocked := hwait.resolve_left hawake
      split at hseq
      · contradiction
      · refine (h reader hrd (.inr hphase) seq hseq).set ht ?_
        exact hatt task ht reader hrd (by rw [hphase]; rfl) seq hseq

theorem allTold_effect {action : Action} (ho : Orderly s) (h : AllTold s)
    (he : Effect s action s') : AllTold s' ↔ Attentive s action := by
  cases he with
  | started tty =>
    refine iff_of_true (fun reader hrd hwait seq hseq => ?_) trivial
    obtain ⟨task, ht, hann⟩ := h reader hrd hwait seq hseq
    exact ⟨task, List.mem_append_left _ ht, hann⟩
  | records hact ht hr =>
    refine iff_of_true (fun reader hrd hwait seq hseq => ?_) hact
    rcases hr.news _ seq hseq with hold | hnew
    · exact (h reader hrd hwait seq hold).set ht (hr.quiet seq)
    · obtain ⟨hlt, -⟩ := List.getElem?_eq_some_iff.mp ht
      exact ⟨_, List.mem_set hlt _, hnew⟩
  | notify ht hquiet => exact allTold_notify ho h ht hquiet
  | remove => exact iff_of_true h trivial
  | read params =>
    refine iff_of_true (fun reader hrd hwait => ?_) trivial
    rcases List.mem_append.mp hrd with hold | hnew
    · exact h reader hold hwait
    · obtain rfl := List.mem_singleton.mp hnew
      simp at hwait
  | reader hact hrd hsus hunl =>
    refine iff_of_true (h.setReader ?_) hact
    rintro (hphase | hphase)
    · exact h _ (List.mem_of_getElem? hrd) (.inr (hsus hphase))
    · rw [news_nil_of_not_hasNews ho.recorded (hunl hphase)]
      exact fun _ => nofun

/-- **No reader sleeps through its news exactly when no event is announced that has become news to
a reader between its check and its suspension.** -/
theorem none_stranded_iff {processId : Text} {sandboxed : Bool} {actions : List Action}
    {final : Server}
    (hrun : Machine.run (step isLikelySandboxDenied) (.start processId sandboxed) actions =
      some final) :
    Machine.Throughout (step isLikelySandboxDenied) (NoneMisses isLikelySandboxDenied)
        (.start processId sandboxed) actions ↔
      Machine.Along (step isLikelySandboxDenied) Attentive (.start processId sandboxed)
        actions := by
  have htold : NoneMisses isLikelySandboxDenied = AllTold :=
    funext fun _ => propext allTold_iff.symm
  rw [htold]
  exact Machine.throughout_iff_along (fun _ _ _ (h : Orderly _) _ hs _ => h.effect (step_effect hs))
    (fun _ _ _ ho h hs => allTold_effect ho h (step_effect hs)) actions
    (orderly_start processId sandboxed) (fun _ => nofun) hrun

end

/-! A process without a sandbox that writes one byte, and a reader that waits for it. -/

def neverDenied : DenialCheck := fun _ _ => false

def waitForOutput : ReadParams := ⟨[], none, none, some 1000⟩

/-- The reader is suspended before the byte is recorded, and woken by its notify. -/
def suspendThenOutput : List Action :=
  [.started false, .read waitForOutput, .check 0 false, .suspend 0, .output 0 [97], .notify 0,
    .check 0 false]

/-- The byte is recorded and announced after the check of the reader, and before it is
suspended. -/
def outputThenSuspend : List Action :=
  [.started false, .read waitForOutput, .check 0 false, .output 0 [97], .notify 0, .suspend 0]

theorem suspend_then_output_woken :
    ∃ final, Machine.run (step neverDenied) (.start [] false) suspendThenOutput = some final ∧
      Machine.Throughout (step neverDenied) (NoneMisses neverDenied) (.start [] false)
        suspendThenOutput := by
  refine ⟨_, rfl, (none_stranded_iff rfl).mpr ?_⟩
  decide

theorem output_then_suspend_stranded :
    ∃ final, Machine.run (step neverDenied) (.start [] false) outputThenSuspend =
        some final ∧ ¬ NoneStranded final := by
  refine ⟨_, rfl, fun h => ?_⟩
  have hmis := h ⟨waitForOutput, .suspended⟩ (List.mem_singleton_self _) rfl 1 (by decide)
  revert hmis
  decide

end SushiGpt.ExecServer
