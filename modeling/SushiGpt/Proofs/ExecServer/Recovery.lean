/-
What a recovery does to a session that follows the log of the server.

The answer to a read does not say where the exit is.  A recovery infers its number in two
places.  After the chunks it counts: the one event up to the target that is neither published
nor pending must be the exit, and is.  Between the chunks it does not count: the event before
a chunk is taken for the exit when it is missing, although it may be output that the server
has dropped.  `LoopInfersRight` follows the loop and says that this does not happen.
-/
import Mathlib.Order.Interval.Finset.Nat
import SushiGpt.Proofs.ExecServer.Session

namespace SushiGpt.ExecServer

open SessionState ServerLog List OrderedMap

/-! ### Answers -/

/-- The answer is about the first `target` events of the log and tells the truth. -/
structure Truthful (log : ServerLog) (response : ReadResponse) (target : Nat) : Prop where
  bound : target ≤ log.events.length
  next : response.nextSeq = target + 1
  failure : response.failure = none
  chunks : ∀ chunk ∈ response.chunks, chunk.seq ≤ target ∧
    log.event? chunk.seq = some (.output chunk)
  inOrder : response.chunks.Pairwise fun a b => a.seq < b.seq
  exited : response.exited = true ↔ ∃ seq ≤ target, log.ExitAt seq
  exit : ∀ seq ≤ target, log.ExitAt seq → ∃ exitCode, response.exitCode = some exitCode ∧
    log.event? seq = some (.exited seq exitCode (some response.sandboxDenied))
  closed : response.closed = true ↔
    ∃ seq ≤ target, ∃ event, log.event? seq = some event ∧ event.isClosed

variable {log : ServerLog}

variable {s s' : SessionState → Prop} {k : Nat}

variable {e : ExecProcessEvent} {d d' : Recovering → Prop} {rec : Recovery}

theorem outputAfter_eq_some {c : ProcessOutputChunk} {a : Nat} :
    outputAfter a e = some c ↔ e = .output c ∧ a < c.seq := by
  cases e with
  | output o =>
    simp only [outputAfter, Option.ite_none_right_eq_some, Option.some.injEq,
      ExecProcessEvent.output.injEq]
    constructor
    · rintro ⟨hlt, rfl⟩
      exact ⟨rfl, hlt⟩
    · rintro ⟨rfl, hlt⟩
      exact ⟨hlt, rfl⟩
  | exited | closed | failed => simp [outputAfter]

/-- In the log every event comes before those with larger numbers. -/
theorem pairwise_seq (log : ServerLog) (n : Nat) : (log.events.take n).Pairwise fun a b =>
    ∀ seq seq', a.seq = some seq → b.seq = some seq' → seq < seq' := by
  refine (pairwise_iff_getElem.mpr fun i j hi hj hij seq seq' hseq hseq' => ?_).sublist
    (take_sublist n _)
  rw [log.numbered i _ (getElem?_eq_getElem hi)] at hseq
  rw [log.numbered j _ (getElem?_eq_getElem hj)] at hseq'
  cases hseq
  cases hseq'
  omega

theorem isExited_of_exitCodeOf {ec : Int} (h : exitCodeOf e = some ec) : e.isExited := by
  cases e <;> simp_all [exitCodeOf, ExecProcessEvent.isExited]

/-- The exit of the log has its number and the verdict of the server. -/
theorem exists_exited {seq : Nat} (hlog : log.event? seq = some e) (hex : e.isExited) :
    ∃ ec denied, e = .exited seq ec (some denied) := by
  cases e with
  | exited seq' ec sd =>
    obtain rfl : seq' = seq := Option.some.inj (seq_of_event? hlog)
    have hmem : .exited seq' ec sd ∈ log.events.take seq' := mem_take_iff.mpr ⟨seq', le_rfl, hlog⟩
    obtain ⟨denied, rfl⟩ := Option.isSome_iff_exists.mp (log.judged _ _ _ (mem_of_mem_take hmem))
    exact ⟨ec, denied, rfl⟩
  | output | closed | failed => cases hex

/-- The exit found among the first events of the log is the exit. -/
theorem exit_answer (log : ServerLog) {seq n : Nat} {ec : Int} {denied : Bool} (hle : seq ≤ n)
    (hlog : log.event? seq = some (.exited seq ec (some denied))) :
    (log.events.take n).findSome? exitCodeOf = some ec ∧
      (log.events.take n).any isDenied = denied := by
  have hmem : .exited seq ec (some denied) ∈ log.events.take n := mem_take_iff.mpr ⟨seq, hle, hlog⟩
  have huniq : ∀ e ∈ log.events.take n, e.isExited → e = .exited seq ec (some denied) := by
    intro e hev hex
    obtain ⟨seq', -, hlog'⟩ := mem_take_iff.mp hev
    rw [exited_unique hlog' hlog hex rfl, hlog] at hlog'
    exact (Option.some.inj hlog').symm
  constructor
  · cases hfind : (log.events.take n).findSome? exitCodeOf with
    | none => cases findSome?_eq_none_iff.mp hfind _ hmem
    | some f =>
      obtain ⟨e, hev, hcode⟩ := exists_of_findSome?_eq_some hfind
      rw [huniq e hev (isExited_of_exitCodeOf hcode)] at hcode
      exact hcode.symm
  · rw [Bool.eq_iff_iff, any_eq_true]
    constructor
    · rintro ⟨e, hev, hden⟩
      rw [huniq e hev (by cases e <;> simp_all [isDenied, ExecProcessEvent.isExited])] at hden
      exact hden
    · intro hden
      exact ⟨_, hmem, hden⟩

/-- **What the server answers is true**, whatever it has dropped. -/
theorem answer_truthful (log : ServerLog) (emi evi aft : Nat) :
    Truthful log (log.answer emi evi aft) (min emi log.events.length) := by
  have htake : log.events.take emi = log.events.take (min emi log.events.length) := take_eq_take_min
  refine ⟨Nat.min_le_right .., ?_, rfl, fun c hchunk => ?_, ?_, ?_, ?_, ?_⟩
  · simp [answer]
  · obtain ⟨e, hev, hsome⟩ := mem_filterMap.mp hchunk
    obtain ⟨rfl, -⟩ := outputAfter_eq_some.mp hsome
    rw [htake] at hev
    obtain ⟨seq, hle, hlog⟩ := mem_take_iff.mp hev
    have hseq : c.seq = seq := Option.some.inj (seq_of_event? hlog)
    rw [hseq]
    exact ⟨hle, hlog⟩
  · refine List.Pairwise.filterMap _ (fun a b hab c hchunk c' hchunk' => ?_) (pairwise_seq log emi)
    obtain ⟨rfl, -⟩ := outputAfter_eq_some.mp hchunk
    obtain ⟨rfl, -⟩ := outputAfter_eq_some.mp hchunk'
    exact hab _ _ rfl rfl
  · simp only [answer, ExitAt]
    rw [htake]
    exact any_take_iff
  · rintro seq hle ⟨e, hlog, hex⟩
    obtain ⟨ec, denied, rfl⟩ := exists_exited hlog hex
    obtain ⟨hcode, hden⟩ := exit_answer log hle hlog
    rw [← htake] at hcode hden
    exact ⟨ec, hcode, by rw [hlog]; exact congrArg _ (by rw [← hden]; rfl)⟩
  · simp only [answer]
    rw [htake]
    exact any_take_iff

/-- The close is the last event, so its number is the target. -/
theorem Truthful.closed_target {r : ReadResponse} {t : Nat} (h : Truthful log r t)
    (hcl : r.closed = true) : log.event? t = some (.closed t) := by
  obtain ⟨seq, hle, e, hlog, hev⟩ := h.closed.mp hcl
  obtain rfl : seq = t := le_antisymm hle (closed_last hlog hev ▸ h.bound)
  cases e with
  | closed seq' => rw [hlog, Option.some.inj (seq_of_event? hlog)]
  | output | exited | failed => cases hev

/-! ### Published or pending -/

def Held (state : SessionState) (seq : Nat) : Prop :=
  seq ≤ state.lastPublishedSeq ∨ state.pending.get? seq ≠ none

instance (state : SessionState) (seq : Nat) : Decidable (Held state seq) :=
  inferInstanceAs (Decidable (_ ∨ ¬ _))

variable {st st' start : SessionState} {e : ExecProcessEvent} {seq t : Nat}

theorem lt_of_not_held (h : ¬ Held st k) : st.lastPublishedSeq < k :=
  Nat.not_le.mp fun hle => h (.inl hle)

theorem Publishes.held_iff {closed : Bool} (h : Publishes st st' closed) :
    Held st' k ↔ Held st k := by
  have hle := h.le
  unfold Held
  rcases Nat.lt_or_ge st'.lastPublishedSeq k with hlt | hge
  · rw [h.left k hlt]
    constructor <;> exact Or.imp_left (by omega)
  · refine iff_of_true (.inl hge) ?_
    rcases Nat.lt_or_ge st.lastPublishedSeq k with hlt' | hge'
    · exact .inr (h.taken k hlt' hge)
    · exact .inl hge'

theorem Inserts.held_iff (h : Inserts st st' seq e) : Held st' k ↔ Held st k ∨ k = seq := by
  unfold Held
  rw [h.last]
  by_cases hk : k = seq
  · rw [hk, h.self]
    simp
  · rw [h.others k hk]
    simp [hk]

/-! ### Counting what is missing -/

/-- The numbers up to the target that are neither published nor pending. -/
def missing (state : SessionState) (target : Nat) : Finset Nat :=
  (Finset.Ioc state.lastPublishedSeq target).filter fun k => state.pending.get? k = none

theorem mem_missing : k ∈ missing st t ↔ k ≤ t ∧ ¬ Held st k := by
  unfold missing Held
  rw [Finset.mem_filter, Finset.mem_Ioc, not_or, not_not, Nat.not_le]
  tauto

theorem missingCount_eq (st : SessionState) (t : Nat) :
    missingCount st t = (missing st t).card := by
  unfold missingCount missing
  split_ifs with hlt
  · have hran : (st.pending.range (st.lastPublishedSeq + 1) t).length =
        ((Finset.Ioc st.lastPublishedSeq t).filter fun k => ¬ st.pending.get? k = none).card := by
      refine card_range _ _ _ _ fun k => ?_
      rw [Finset.mem_filter, Finset.mem_Ioc, Nat.succ_le_iff, and_assoc]
    have hcard := Finset.card_filter_add_card_filter_not
      (s := Finset.Ioc st.lastPublishedSeq t) fun k => st.pending.get? k = none
    rw [Nat.card_Ioc] at hcard
    omega
  · rw [Finset.Ioc_eq_empty (by omega)]
    simp
    omega

theorem firstMissingLoop_eq {first : Nat} (hfst : first ≤ t) {keys : List Nat} {exp : Nat}
    (hsor : keys.Pairwise (· < ·)) (hle : exp ≤ first)
    (hkeys : ∀ k, k ∈ keys ↔ exp ≤ k ∧ k ≤ t ∧ k ≠ first) : firstMissingLoop exp keys = first := by
  induction keys generalizing exp with
  | nil =>
    by_contra hne
    exact absurd ((hkeys exp).mpr ⟨le_rfl, hle.trans hfst, hne⟩) not_mem_nil
  | cons seq rest ih =>
    obtain ⟨hlt, hrest⟩ := pairwise_cons.mp hsor
    obtain ⟨hseq, -, hne⟩ := (hkeys seq).mp (mem_cons_self ..)
    unfold firstMissingLoop
    split_ifs with hgap
    · by_contra hexp
      rcases mem_cons.mp ((hkeys exp).mpr ⟨le_rfl, hle.trans hfst, hexp⟩) with
        heq | hmem
      · exact hgap heq.symm
      · exact absurd (hlt exp hmem) (Nat.not_lt.mpr hseq)
    · obtain rfl : seq = exp := not_not.mp hgap
      refine ih hrest (by omega) fun k => ?_
      constructor
      · intro hk
        obtain ⟨-, htgt, hkne⟩ := (hkeys k).mp (mem_cons_of_mem _ hk)
        exact ⟨hlt k hk, htgt, hkne⟩
      · rintro ⟨hk, htgt, hkne⟩
        refine (mem_cons.mp ((hkeys k).mpr ⟨by omega, htgt, hkne⟩)).resolve_left ?_
        omega

theorem firstMissingSeq_eq {first : Nat} (hmiss : missing st t = {first}) :
    firstMissingSeq st t = first := by
  have hmem : ∀ k, k ≤ t ∧ ¬ Held st k ↔ k = first := by
    intro k
    rw [← mem_missing, hmiss, Finset.mem_singleton]
  obtain ⟨hfst, hnotHeld⟩ := (hmem first).mpr rfl
  refine firstMissingLoop_eq hfst ?_ (lt_of_not_held hnotHeld) fun k => ?_
  · exact pairwise_map.mpr (st.pending.sorted.filter _)
  · rw [mem_range_keys, Nat.succ_le_iff]
    refine and_congr_right fun hlt => and_congr_right fun hle => ?_
    rw [ne_eq, ne_eq, ← hmem k]
    simp only [Held, Nat.not_le.mpr hlt, false_or, hle, true_and, ne_eq, not_not]

/-! ### Steps of a recovery -/

/-- How a step of a recovery ends: done, or stopped by an error. -/
def Ends (done : Recovering → Prop) (stopped : SessionState → Prop) : Recovery → Prop
  | .ok recovering => done recovering
  | .error (state, _) => stopped state

theorem Ends.bind {next : Recovering → Recovery} (h : Ends d s rec)
    (hnext : ∀ recovering, rec = .ok recovering → d recovering → Ends d' s (next recovering)) :
    Ends d' s (rec.bind next) := by
  cases rec with
  | ok recovering => exact hnext recovering rfl h
  | error stop => exact h

theorem Ends.map {f : Recovering → Recovering} (h : Ends d s rec)
    (hmap : ∀ recovering, d recovering → d' (f recovering)) : Ends d' s (rec.map f) := by
  cases rec with
  | ok recovering => exact hmap recovering h
  | error stop => exact h

theorem Ends.and (h : Ends d s rec) (h' : Ends d' s' rec) :
    Ends (fun recovering => d recovering ∧ d' recovering) s' rec := by
  cases rec with
  | ok recovering => exact ⟨h, h'⟩
  | error stop => exact h'

theorem Ends.imp (h : Ends d s rec) (hdone : ∀ recovering, d recovering → d' recovering)
    (hstop : ∀ st, s st → s' st) : Ends d' s' rec := by
  cases rec with
  | ok recovering => exact hdone recovering h
  | error stop => exact hstop stop.1 h

/-- The invariant of a recovery. -/
structure Recovers (log : ServerLog) (start : SessionState) (target : Nat)
    (recovering : Recovering) : Prop where
  reached : Reached log start target recovering.session recovering.publishedClosed
  exitKnown : recovering.exitKnown = true ↔
    ∃ seq ≤ target, log.ExitAt seq ∧ Held recovering.session seq

/-- Where an error may leave the session. -/
def Stopped (log : ServerLog) (start : SessionState) (target : Nat) (state : SessionState) : Prop :=
  ∃ closed, Reached log start target state closed

variable {recovering : Recovering} {r : ReadResponse} {c : ProcessOutputChunk}

theorem Recovers.stopped (h : Recovers log start t recovering) :
    Stopped log start t recovering.session :=
  ⟨_, h.reached⟩

/-- One more event is published or pending. -/
structure Adds (log : ServerLog) (start : SessionState) (target : Nat)
    (recovering : Recovering) (seq : Nat) (next : Recovering) : Prop where
  reached : Reached log start target next.session next.publishedClosed
  exitKnown : next.exitKnown = recovering.exitKnown
  held : ∀ k, Held next.session k ↔ Held recovering.session k ∨ k = seq

theorem insert_cases (h : Tracks log recovering.session) (hlog : log.event? seq = some e) :
    (∃ message, recovering.insert e = .error (recovering.session, message)) ∨
    ∃ inserted, recovering.insert e = .ok { recovering with session := inserted } ∧
      recovering.session.insertPending e = .ok inserted ∧
      Inserts recovering.session inserted seq e := by
  unfold Recovering.insert
  cases hins : recovering.session.insertPending e with
  | error message => exact .inl ⟨message, rfl⟩
  | ok inserted => exact .inr ⟨inserted, rfl, rfl, h.inserts hlog hins⟩

theorem insert_ends (h : Recovers log start t recovering) (hlog : log.event? seq = some e)
    (hl : recovering.session.lastPublishedSeq < seq) (htgt : seq ≤ t) :
    Ends (Adds log start t recovering seq) (Stopped log start t) (recovering.insert e) := by
  rcases insert_cases h.reached.tracks hlog with ⟨m, herr⟩ | ⟨i, hok, hins, hinser⟩
  · rw [herr]
    exact h.stopped
  · rw [hok]
    exact ⟨h.reached.insert hlog hl htgt hins, rfl, fun k => hinser.held_iff⟩

theorem Adds.publish {next : Recovering} (h : Adds log start t recovering seq next) :
    Adds log start t recovering seq next.publish where
  reached := h.reached.publishReady
  exitKnown := h.exitKnown
  held := fun k => (publishes_ready next.session).held_iff.trans (h.held k)

/-- Adding an event that is not the exit tells nothing about the exit. -/
theorem Adds.recovers {next : Recovering} (h : Adds log start t recovering seq next)
    (hrec : Recovers log start t recovering) (hseq : ¬ log.ExitAt seq) :
    Recovers log start t next where
  reached := h.reached
  exitKnown := by
    rw [h.exitKnown, hrec.exitKnown]
    simp only [h.held]
    constructor
    · rintro ⟨k, hle, hexit, hheld⟩
      exact ⟨k, hle, hexit, .inl hheld⟩
    · rintro ⟨k, hle, hexit, hheld | rfl⟩
      · exact ⟨k, hle, hexit, hheld⟩
      · exact absurd hexit hseq

theorem not_exitAt_of_output (h : log.event? c.seq = some (.output c)) : ¬ log.ExitAt c.seq := by
  rintro ⟨e, hev, hex⟩
  rw [h] at hev
  cases hev
  cases hex

theorem not_exitAt_of_closed (h : log.event? t = some (.closed t)) : ¬ log.ExitAt t := by
  rintro ⟨e, hev, hex⟩
  rw [h] at hev
  cases hev
  cases hex

/-- Whenever the loop over the chunks infers the exit, the log has it there. -/
def LoopInfersRight (log : ServerLog) (response : ReadResponse) (target : Nat) :
    Recovering → List ProcessOutputChunk → Prop
  | _, [] => True
  | recovering, chunk :: rest =>
    (infersExit response recovering chunk = true →
      log.ExitAt (recovering.session.lastPublishedSeq + 1)) ∧
    ∀ next, recoverChunk response target recovering chunk = .ok next →
      LoopInfersRight log response target next rest

section

variable (h : Recovers log start t recovering) (htr : Truthful log r t)

include h htr

theorem recoverExitBefore_ends (hchunk : c.seq ≤ t)
    (hr : infersExit r recovering c = true → log.ExitAt (recovering.session.lastPublishedSeq + 1)) :
    Ends (Recovers log start t) (Stopped log start t) (recoverExitBefore r recovering c) := by
  unfold recoverExitBefore
  split_ifs with hinf
  · have hbey : recovering.session.lastPublishedSeq + 1 < c.seq := by
      simp only [infersExit, Bool.and_eq_true, decide_eq_true_eq] at hinf
      exact hinf.2
    have hle : recovering.session.lastPublishedSeq + 1 ≤ t := by omega
    obtain ⟨ec, hcode, hlog⟩ := htr.exit _ hle (hr hinf)
    rw [hcode]
    refine (insert_ends h hlog (Nat.lt_succ_self _) hle).map fun next hadds => ?_
    refine ⟨hadds.publish.reached, iff_of_true rfl ⟨_, hle, hr hinf, ?_⟩⟩
    exact (hadds.publish.held _).mpr (.inr rfl)
  · exact h

theorem recoverChunk_ends (hchunk : c ∈ r.chunks)
    (hr : infersExit r recovering c = true → log.ExitAt (recovering.session.lastPublishedSeq + 1)) :
    Ends (Recovers log start t) (Stopped log start t) (recoverChunk r t recovering c) := by
  obtain ⟨hle, hlog⟩ := htr.chunks c hchunk
  unfold recoverChunk
  rw [if_neg (Nat.not_lt.mpr hle)]
  refine (recoverExitBefore_ends h htr hle hr).bind fun next _ hnext => ?_
  unfold recoverOutput
  split_ifs with hl
  · exact (insert_ends hnext hlog hl hle).map fun next hadds =>
      hadds.publish.recovers hnext (not_exitAt_of_output hlog)
  · exact hnext

theorem recoverChunks_ends {cs : List ProcessOutputChunk} (hchun : ∀ c ∈ cs, c ∈ r.chunks)
    (hr : LoopInfersRight log r t recovering cs) :
    Ends (Recovers log start t) (Stopped log start t) (recoverChunks r t recovering cs) := by
  induction cs generalizing recovering with
  | nil => exact h
  | cons c rest ih =>
    obtain ⟨hmem, hrest⟩ := forall_mem_cons.mp hchun
    exact (recoverChunk_ends h htr hmem hr.1).bind fun next hok hnext =>
      ih hnext hrest (hr.2 next hok)

/-- The close is inserted when the answer tells of it and it is missing. -/
theorem recoverClosed_cases :
    (recoverClosed r t recovering = .ok recovering ∧
      (r.closed = true → Held recovering.session t)) ∨
    (recoverClosed r t recovering = recovering.insert (.closed t) ∧ r.closed = true ∧
      ¬ Held recovering.session t) := by
  cases hcl : r.closed with
  | false =>
    refine .inl ⟨?_, nofun⟩
    unfold recoverClosed
    rw [hcl]
    rfl
  | true =>
    have hlog := htr.closed_target hcl
    have hpub : recovering.session.closedPublished = true ↔
        t ≤ recovering.session.lastPublishedSeq := by
      rw [h.reached.tracks.closed, any_take_iff]
      refine ⟨?_, fun hle => ⟨t, hle, _, hlog, rfl⟩⟩
      rintro ⟨seq, hle, e, hseq, hev⟩
      exact (closed_last hlog rfl).trans (closed_last hseq hev).symm ▸ hle
    have hpend : (recovering.session.pending.get? t).any (·.isClosed) = true ↔
        recovering.session.pending.get? t ≠ none := by
      cases hget : recovering.session.pending.get? t with
      | none => simp
      | some o =>
        have heq := (h.reached.tracks.pending t o hget).2
        rw [hlog] at heq
        cases heq
        exact iff_of_true rfl nofun
    unfold recoverClosed Held
    rw [← hpub, ← hpend, hcl, not_or]
    split_ifs with hins
    · simp only [Bool.true_and, Bool.and_eq_true, Bool.not_eq_true', ← Bool.not_eq_true] at hins
      exact .inr ⟨rfl, rfl, hins⟩
    · simp only [Bool.true_and, Bool.and_eq_true, Bool.not_eq_true', ← Bool.not_eq_true, ← not_or,
        not_not] at hins
      exact .inl ⟨rfl, fun _ => hins⟩

theorem recoverClosed_ends :
    Ends (Recovers log start t) (Stopped log start t) (recoverClosed r t recovering) := by
  rcases recoverClosed_cases h htr with ⟨heq, -⟩ | ⟨heq, hcl, hnot⟩
  · rw [heq]
    exact h
  · have hlog := htr.closed_target hcl
    rw [heq]
    exact (insert_ends h hlog (lt_of_not_held hnot) le_rfl).imp
      (fun next hadds => hadds.recovers h (not_exitAt_of_closed hlog)) fun _ => id

/-- **The exit that is inferred by counting is the exit**, and it is inferred when nothing else
is missing. -/
theorem recoverExited_cases :
    ((∃ message, recoverExited r t recovering = .error (recovering.session, message)) ∧
      ∃ k ≤ t, ¬ Held recovering.session k ∧ ¬ log.ExitAt k) ∨
    (recoverExited r t recovering = .ok recovering ∧ ∀ k ≤ t, Held recovering.session k) ∨
    ∃ exit ≤ t, log.ExitAt exit ∧ (∀ k ≤ t, Held recovering.session k ↔ k ≠ exit) ∧
      ∃ ec, log.event? exit = some (.exited exit ec (some r.sandboxDenied)) ∧
        recoverExited r t recovering =
          recovering.insert (.exited exit ec (some r.sandboxDenied)) := by
  unfold recoverExited
  rw [missingCount_eq]
  by_cases hunk : (r.exited && !recovering.exitKnown) = true
  · rw [if_pos hunk]
    simp only [Bool.and_eq_true, Bool.not_eq_true', ← Bool.not_eq_true, htr.exited,
      h.exitKnown] at hunk
    obtain ⟨⟨exit, hle, hexit⟩, hkn⟩ := hunk
    have hmem := mem_missing.mpr ⟨hle, fun hheld => hkn ⟨exit, hle, hexit, hheld⟩⟩
    split_ifs with hone
    · refine .inl ⟨⟨_, rfl⟩, ?_⟩
      by_contra hall
      refine hone (Finset.card_eq_one.mpr ⟨exit, Finset.eq_singleton_iff_unique_mem.mpr
        ⟨hmem, fun k hk => ?_⟩⟩)
      obtain ⟨hkt, hnot⟩ := mem_missing.mp hk
      by_contra hne
      exact hall ⟨k, hkt, hnot, fun hk => hne (hk.unique hexit)⟩
    · obtain ⟨first, hfst⟩ := Finset.card_eq_one.mp (not_not.mp hone)
      obtain rfl : exit = first := by rwa [hfst, Finset.mem_singleton] at hmem
      obtain ⟨ec, hcode, hlog⟩ := htr.exit exit hle hexit
      rw [hcode, firstMissingSeq_eq hfst]
      refine .inr (.inr ⟨exit, hle, hexit, fun k hk => ?_, ec, hlog, rfl⟩)
      rw [ne_eq, ← Finset.mem_singleton, ← hfst, mem_missing, and_iff_right hk, not_not]
  · rw [if_neg hunk]
    simp only [Bool.and_eq_true, Bool.not_eq_true', ← Bool.not_eq_true, htr.exited,
      h.exitKnown, not_and, not_not] at hunk
    split_ifs with hzero
    · obtain ⟨k, hk⟩ := Finset.card_pos.mp (Nat.pos_of_ne_zero hzero)
      obtain ⟨hkt, hnot⟩ := mem_missing.mp hk
      refine .inl ⟨⟨_, rfl⟩, k, hkt, hnot, fun hexit => ?_⟩
      obtain ⟨seq, -, hseq, hheld⟩ := hunk ⟨k, hkt, hexit⟩
      exact hnot (hseq.unique hexit ▸ hheld)
    · refine .inr (.inl ⟨rfl, fun k hk => ?_⟩)
      by_contra hnot
      have hmem := mem_missing.mpr ⟨hk, hnot⟩
      rw [Finset.card_eq_zero.mp (not_not.mp hzero)] at hmem
      exact absurd hmem (Finset.notMem_empty k)

theorem recoverExited_ends :
    Ends (fun next => Reached log start t next.session next.publishedClosed ∧
        ∀ k ≤ t, Held next.session k)
      (Stopped log start t) (recoverExited r t recovering) := by
  rcases recoverExited_cases h htr with
    ⟨⟨m, heq⟩, -⟩ | ⟨heq, hheld⟩ | ⟨exit, hle, -, hheld, ec, hlog, heq⟩
  · rw [heq]
    exact h.stopped
  · rw [heq]
    exact ⟨h.reached, hheld⟩
  · have hnot : ¬ Held recovering.session exit := fun hin => (hheld exit hle).mp hin rfl
    rw [heq]
    refine (insert_ends h hlog (lt_of_not_held hnot) hle).imp
      (fun next hadds => ⟨hadds.reached, fun k hk => ?_⟩) fun _ => id
    rw [hadds.held, hheld k hk]
    exact (eq_or_ne k exit).symm

theorem recoverFrom_ends (hr : LoopInfersRight log r t recovering r.chunks) :
    Ends (fun next => Reached log start t next.session next.publishedClosed ∧
        ∀ k ≤ t, Held next.session k)
      (Stopped log start t) (recoverFrom r t recovering) :=
  ((recoverChunks_ends h htr (fun _ => id) hr).bind fun _ _ hnext =>
    recoverClosed_ends hnext htr).bind fun _ _ hnext => recoverExited_ends hnext htr

end

/-! ### Whole recoveries -/

theorem pendingExit_spec (st : SessionState) (t : Nat) :
    match pendingExit st t with
    | none => ∀ seq ≤ t, ∀ e, st.pending.get? seq = some e → ¬ e.isExited
    | some seq => seq ≤ t ∧ ∃ e, st.pending.get? seq = some e ∧ e.isExited := by
  unfold pendingExit
  cases hfind : st.pending.entries.find? fun entry =>
      entry.1 ≤ t && entry.2.isExited with
  | none =>
    intro seq hle e hev hex
    have he := find?_eq_none.mp hfind _ (get?_eq_some_iff.mp hev)
    simp [hle, hex] at he
  | some entry =>
    have he := find?_some hfind
    simp only [Bool.and_eq_true, decide_eq_true_eq] at he
    exact ⟨he.1, entry.2, get?_eq_some_iff.mpr (mem_of_find?_eq_some hfind), he.2⟩

theorem beginRecovery_spec (h : Tracks log st) (hal : st.failure = none)
    (hl : st.lastPublishedSeq ≤ t) (htr : Truthful log r t) :
    (beginRecovery st r t).session = st ∧ Recovers log st t (beginRecovery st r t) := by
  have hexit := pendingExit_spec st t
  unfold beginRecovery
  cases hpend : pendingExit st t with
  | none =>
    rw [hpend] at hexit
    refine ⟨rfl, .refl h hal, ?_⟩
    rw [h.exited, any_take_iff]
    constructor
    · rintro ⟨seq, hle, e, hlog, hex⟩
      exact ⟨seq, hle.trans hl, ⟨e, hlog, hex⟩, .inl hle⟩
    · rintro ⟨seq, hle, ⟨e, hlog, hex⟩, hpub | hpend⟩
      · exact ⟨seq, hpub, e, hlog, hex⟩
      · obtain ⟨o, ho⟩ := Option.ne_none_iff_exists'.mp hpend
        have heq := (h.pending seq o ho).2
        rw [hlog] at heq
        cases heq
        exact absurd hex (hexit seq hle e ho)
  | some seq =>
    rw [hpend] at hexit
    obtain ⟨hle, e, hev, hex⟩ := hexit
    have hsame : st.pending.modify seq (addDenial r.sandboxDenied) = st.pending := by
      refine modify_eq_self fun v hv => ?_
      have hlog := (h.pending seq v hv).2
      cases v with
      | exited seq' ec sd =>
        -- A pending exit is already judged as the answer judges it.
        obtain ⟨_, -, hexit⟩ := htr.exit seq hle ⟨_, hlog, rfl⟩
        rw [hlog] at hexit
        cases hexit
        simp [addDenial]
      | output | closed | failed => rfl
    dsimp only
    rw [hsame]
    refine ⟨rfl, .refl h hal, iff_of_true rfl ⟨seq, hle, ?_, ?_⟩⟩
    · exact ⟨e, (h.pending seq e hev).2, hex⟩
    · exact .inr (hev ▸ Option.some_ne_none e)

/-- The close of a true answer has the number of nothing else. -/
theorem closeConflicts_eq_false (h : Tracks log st) (htr : Truthful log r t) :
    closeConflicts st r t = false := by
  unfold closeConflicts
  cases hcl : r.closed with
  | false => rfl
  | true =>
    have hlog := htr.closed_target hcl
    rw [Bool.true_and, Bool.or_eq_false_iff]
    constructor
    · cases hpend : st.pending.get? t with
      | none => rfl
      | some o =>
        have heq := (h.pending t o hpend).2
        rw [hlog] at heq
        cases heq
        rfl
    · rw [any_eq_false]
      intro c hchunk heq
      obtain ⟨-, hchunk⟩ := htr.chunks c hchunk
      rw [beq_iff_eq.mp heq, hlog] at hchunk
      cases hchunk

/-- A recovery from a true answer has nothing to do, or goes through its steps. -/
theorem recoverEvents_cases (h : Tracks log st) (htr : Truthful log r t) :
    (recoverEvents st r = (st, .ok false) ∧
      (st.failure.isSome ∨ st.closedPublished ∨ t ≤ st.lastPublishedSeq)) ∨
    ((st.failure = none ∧ st.closedPublished = false ∧ st.lastPublishedSeq < t) ∧
      recoverEvents st r = finishRecovery t (recoverFrom r t (beginRecovery st r t))) := by
  have htgt : r.nextSeq - 1 = t := by rw [htr.next, Nat.add_sub_cancel]
  unfold recoverEvents
  rw [htr.failure]
  dsimp only
  rw [htgt]
  split_ifs with hidle hcon
  · left
    simp only [Bool.or_eq_true, decide_eq_true_eq, or_assoc] at hidle
    exact ⟨rfl, hidle⟩
  all_goals
    simp only [Bool.or_eq_true, decide_eq_true_eq, not_or, Bool.not_eq_true, Nat.not_le,
      Option.isSome_eq_false_iff, Option.isNone_iff_eq_none] at hidle
    obtain ⟨⟨hal, hop⟩, hl⟩ := hidle
    have hsess := (beginRecovery_spec h hal hl.le htr).1
  · rw [hsess, closeConflicts_eq_false h htr] at hcon
    cases hcon
  · exact .inr ⟨⟨hal, hop, hl⟩, rfl⟩

theorem finishRecovery_reached
    (h : Ends (fun next => Reached log start t next.session next.publishedClosed ∧
        ∀ k ≤ t, Held next.session k) (Stopped log start t) rec) :
    Stopped log start t (finishRecovery t rec).1 := by
  cases rec with
  | error stop => exact h
  | ok recovered =>
    have hreac := h.1.publishReady
    exact ⟨_, hreac.tracks.noteChange t, hreac.alive, hreac.le, hreac.taken,
      hreac.left, hreac.closed⟩

end SushiGpt.ExecServer
