/-
Recoveries from answers that leave out nothing.

When every output up to the target is published, pending or in the answer, the event before a
chunk can only be missing because it is the exit.  So the loop infers right, every chunk it
inserts is the next event, and after the loop nothing but the exit can be missing.
-/
import SushiGpt.Lib.Lists
import SushiGpt.Proofs.ExecServer.Client

namespace SushiGpt.ExecServer

open SessionState ServerLog

variable {log : ServerLog} {s st : SessionState} {e : ExecProcessEvent}
  {seq t : Nat} {r next : Recovering} {res : ReadResponse}
  {c : ProcessOutputChunk} {chunks : List ProcessOutputChunk}

/-- Every output of the log after the start and up to the target is published, or among the
chunks. -/
def Awaits (log : ServerLog) (start : Nat) (t : Nat) (s : SessionState)
    (chunks : List ProcessOutputChunk) : Prop :=
  ∀ chunk, log.event? chunk.seq = some (.output chunk) → start < chunk.seq → chunk.seq ≤ t →
    chunk.seq ≤ s.lastPublishedSeq ∨ chunk ∈ chunks

/-- The event is taken by the reorder buffer, unless the next one is missing: then it is only
asked to take that. -/
def Room (s : SessionState) (res : ReadResponse) : Prop :=
  Drained s ∨ (s.pending.size < maxPendingProcessEvents ∧
    ∀ chunk ∈ res.chunks, s.pendingBytes + chunk.chunk.length ≤ maxPendingProcessEventBytes)

/-- **Nothing but the exit can be missing before a chunk.** -/
theorem exitAt_of_lt (hawaits : Awaits log st.lastPublishedSeq t s (c :: chunks))
    (hst : st.lastPublishedSeq ≤ s.lastPublishedSeq) (hsorted : ∀ l ∈ chunks, c.seq < l.seq)
    (hbound : t ≤ log.events.length) (hle : c.seq ≤ t)
    (hlt : s.lastPublishedSeq + 1 < c.seq) : log.ExitAt (s.lastPublishedSeq + 1) := by
  obtain ⟨e, hlog⟩ : ∃ e, log.event? (s.lastPublishedSeq + 1) = some e :=
    exists_event? (Nat.succ_pos _) (by omega)
  cases e with
  | exited => exact ⟨_, hlog, rfl⟩
  | output m =>
    have hseq : m.seq = s.lastPublishedSeq + 1 := Option.some.inj (seq_of_event? hlog)
    rcases hawaits m (hseq ▸ hlog) (by omega) (by omega) with hpub | hmem
    · omega
    · rcases List.mem_cons.mp hmem with rfl | hmem
      · omega
      · have := hsorted m hmem
        omega
  | closed =>
    have := closed_last hlog rfl
    omega
  | failed => cases seq_of_event? hlog

theorem Awaits.mono {s' : SessionState} {st : Nat} (h : Awaits log st t s chunks)
    (hle : s.lastPublishedSeq ≤ s'.lastPublishedSeq) : Awaits log st t s' chunks :=
  fun c hlog hst htgt => (h c hlog hst htgt).imp_left fun h => h.trans hle

theorem Recovers.not_exitAt_next (h : Recovers log st t r) (hdr : Drained r.session)
    (hkn : r.exitKnown = true) : ¬ log.ExitAt (r.session.lastPublishedSeq + 1) := by
  intro hexit
  obtain ⟨seq, -, hseq, hheld⟩ := h.exitKnown.mp hkn
  exact not_held_next hdr (hseq.unique hexit ▸ hheld)

/-! ### The loop -/

section

variable (h : Recovers log st t r) (htruth : Truthful log res t)
  (hawaits : Awaits log st.lastPublishedSeq t r.session (c :: chunks))
  (hsorted : ∀ l ∈ chunks, c.seq < l.seq) (hroom : Room r.session res)
include h htruth hawaits hsorted hroom

theorem recoverExitBefore_ok (hle : c.seq ≤ t) :
    (infersExit res r c = true → log.ExitAt (r.session.lastPublishedSeq + 1)) ∧
      ∃ next, recoverExitBefore res r c = .ok next ∧
        (next.exitKnown = true ∨ c.seq ≤ next.session.lastPublishedSeq + 1) ∧
        r.session.lastPublishedSeq ≤ next.session.lastPublishedSeq ∧
        Room next.session res := by
  have hexit : r.session.lastPublishedSeq + 1 < c.seq →
      log.ExitAt (r.session.lastPublishedSeq + 1) :=
    exitAt_of_lt hawaits h.reached.le hsorted htruth.bound hle
  by_cases hinf : infersExit res r c = true
  · have hinf' := hinf
    simp only [infersExit, Bool.and_eq_true, Bool.not_eq_true', decide_eq_true_eq] at hinf'
    obtain ⟨⟨-, hunk⟩, hlt⟩ := hinf'
    refine ⟨fun _ => hexit hlt, ?_⟩
    obtain ⟨ec, hcode, -⟩ := htruth.exit _ (by omega) (hexit hlt)
    have habs : Drained r.session := by
      by_contra hpend
      have hkn := h.exitKnown.mpr ⟨_, by omega, hexit hlt, .inr hpend⟩
      rw [hunk] at hkn
      cases hkn
    obtain ⟨i, hins, hinser, hbefore⟩ := recoverExitBefore_infers habs hinf hcode
    refine ⟨_, hbefore, .inl rfl, ?_, .inl (drained_publishReady i)⟩
    exact hinser.last ▸ (publishes_ready i).le
  · refine ⟨fun htrue => absurd htrue hinf, r, if_neg hinf, ?_, le_rfl, hroom⟩
    by_contra hneit
    rw [not_or, Nat.not_le] at hneit
    refine hinf ?_
    have hex := htruth.exited.mpr ⟨_, by omega, hexit hneit.2⟩
    simp [infersExit, hex, hneit.1, hneit.2]

theorem recoverOutput_ok (hchunk : c ∈ res.chunks)
    (hbyt : c.chunk.length ≤ maxPendingProcessEventBytes)
    (hkn : r.exitKnown = true ∨ c.seq ≤ r.session.lastPublishedSeq + 1) :
    ∃ next, recoverOutput r c = .ok next ∧
      r.session.lastPublishedSeq ≤ next.session.lastPublishedSeq ∧
      c.seq ≤ next.session.lastPublishedSeq ∧ Room next.session res := by
  obtain ⟨hle, hlog⟩ := htruth.chunks c hchunk
  by_cases hl : r.session.lastPublishedSeq < c.seq
  · obtain ⟨i, hins⟩ : ∃ i, r.session.insertPending (.output c) = .ok i := by
      refine insertPending_accepts rfl hbyt (hroom.imp (fun hdr => ?_) fun hroom => ?_)
      · by_contra hne
        have hexit := exitAt_of_lt hawaits h.reached.le hsorted htruth.bound hle (by omega)
        rcases hkn with hkn | hnext
        · exact h.not_exitAt_next hdr hkn hexit
        · omega
      · exact ⟨hroom.1, hroom.2 c hchunk⟩
    have hadds := insert_ends h hlog hl hle
    rw [insert_of_ok hins] at hadds
    have hrec := hadds.publish.recovers h (not_exitAt_of_output hlog)
    have hdr := drained_publishReady i
    have hgrows : r.session.lastPublishedSeq ≤ i.publishReady.1.lastPublishedSeq :=
      (h.reached.tracks.inserts hlog hins).last ▸ (publishes_ready i).le
    have hout : recoverOutput r c = .ok ({ r with session := i } : Recovering).publish := by
      unfold recoverOutput
      rw [if_pos hl, insert_of_ok hins]
      rfl
    refine ⟨_, hout, hgrows, ?_, .inl hdr⟩
    by_contra hunp
    have hheld := (hadds.publish.held c.seq).mpr (.inr rfl)
    have hpend : i.publishReady.1.pending.get? c.seq ≠ none := hheld.resolve_left hunp
    have hne : c.seq ≠ i.publishReady.1.lastPublishedSeq + 1 := by
      intro heq
      exact hpend (heq ▸ hdr)
    have hexit := exitAt_of_lt (hawaits.mono hgrows) hrec.reached.le hsorted htruth.bound hle
      (by dsimp only [Recovering.publish] at hunp; omega)
    rcases hkn with hkn | hnext
    · exact hrec.not_exitAt_next hdr hkn hexit
    · dsimp only [Recovering.publish] at hunp
      omega
  · refine ⟨r, if_neg hl, le_rfl, Nat.not_lt.mp hl, hroom⟩

end

/-- **When nothing was lost the loop goes through**: it infers right, and publishes every
output up to the target. -/
theorem recoverChunks_ok (htruth : Truthful log res t)
    (hbyt : ∀ c ∈ res.chunks, c.chunk.length ≤ maxPendingProcessEventBytes)
    (hchun : ∀ c ∈ chunks, c ∈ res.chunks) (hsorted : chunks.Pairwise fun a b => a.seq < b.seq)
    (h : Recovers log st t r) (hroom : Room r.session res)
    (hawaits : Awaits log st.lastPublishedSeq t r.session chunks) :
    LoopInfersRight log res t r chunks ∧
      ∃ next, recoverChunks res t r chunks = .ok next ∧
        Awaits log st.lastPublishedSeq t next.session [] := by
  induction chunks generalizing r with
  | nil => exact ⟨trivial, r, rfl, hawaits⟩
  | cons c rest ih =>
    obtain ⟨hmem, hrest⟩ := List.forall_mem_cons.mp hchun
    obtain ⟨hfst, hsortedRest⟩ := List.pairwise_cons.mp hsorted
    have hle := (htruth.chunks c hmem).1
    obtain ⟨hr, before, hbefore, hkn, hgrows, hroom⟩ :=
      recoverExitBefore_ok h htruth hawaits hfst hroom hle
    have hrec := recoverExitBefore_ends h htruth hle hr
    rw [hbefore] at hrec
    obtain ⟨next, hnext, hgrows', hpub, hroom⟩ := recoverOutput_ok hrec htruth
      (hawaits.mono hgrows) hfst hroom hmem (hbyt c hmem) hkn
    have hchunk : recoverChunk res t r c = .ok next := by
      unfold recoverChunk
      rw [if_neg (Nat.not_lt.mpr hle), hbefore]
      exact hnext
    have hends := recoverChunk_ends h htruth hmem hr
    rw [hchunk] at hends
    have hawaits' : Awaits log st.lastPublishedSeq t next.session rest := by
      intro o hlog hst htgt
      rcases hawaits.mono (hgrows.trans hgrows') o hlog hst htgt with hle | hmem
      · exact .inl hle
      · rcases List.mem_cons.mp hmem with rfl | hmem
        · exact .inl hpub
        · exact .inr hmem
    obtain ⟨hlat, final, hfin, hdone⟩ := ih hrest hsortedRest hends hroom hawaits'
    refine ⟨⟨hr, fun o ho => ?_⟩, final, ?_, hdone⟩
    · rw [hchunk] at ho
      cases ho
      exact hlat
    · unfold recoverChunks
      rw [hchunk]
      exact hfin

/-! ### After the loop -/

section

variable (h : Recovers log st t r) (htruth : Truthful log res t)
  (hdone : Awaits log st.lastPublishedSeq t r.session [])
include h htruth hdone

/-- Nothing up to the target can be missing but the exit and the close. -/
theorem terminal_of_not_held (hle : seq ≤ t) (hunp : r.session.lastPublishedSeq < seq) :
    log.ExitAt seq ∨ (seq = t ∧ res.closed = true) := by
  obtain ⟨e, hlog⟩ : ∃ e, log.event? seq = some e :=
    exists_event? (by omega) (hle.trans htruth.bound)
  cases e with
  | exited => exact .inl ⟨_, hlog, rfl⟩
  | output c =>
    obtain rfl : c.seq = seq := Option.some.inj (seq_of_event? hlog)
    have hst := h.reached.le
    rcases hdone c hlog (by omega) hle with hpub | hmem
    · omega
    · exact absurd hmem List.not_mem_nil
  | closed =>
    have hl := closed_last hlog rfl
    have hbound := htruth.bound
    exact .inr ⟨by omega, htruth.closed.mpr ⟨seq, hle, _, hlog, rfl⟩⟩
  | failed => cases seq_of_event? hlog

/-- When the close is missing, at most the exit is pending. -/
theorem room_for_closed (hcl : log.event? t = some (.closed t)) (hnot : ¬ Held r.session t) :
    r.session.pending.size < maxPendingProcessEvents ∧ r.session.pendingBytes = 0 := by
  have hexit : ∀ k e, r.session.pending.get? k = some e → log.ExitAt k ∧ e.isExited := by
    intro k e hk
    obtain ⟨hlt, hlog⟩ := h.reached.tracks.pending k e hk
    have hle : k ≤ t := closed_last hcl rfl ▸ le_of_event? hlog
    rcases terminal_of_not_held h htruth hdone hle hlt with hexit | ⟨rfl, -⟩
    · obtain ⟨o, ho, hex⟩ := hexit
      rw [hlog] at ho
      cases ho
      exact ⟨⟨e, hlog, hex⟩, hex⟩
    · exact absurd (.inr (hk ▸ Option.some_ne_none e)) hnot
  constructor
  · refine lt_of_le_of_lt (OrderedMap.size_le_one fun a b ha hb => ?_) (by decide)
    obtain ⟨e, ha⟩ := Option.ne_none_iff_exists'.mp ha
    obtain ⟨e', hb⟩ := Option.ne_none_iff_exists'.mp hb
    exact (hexit a e ha).1.unique (hexit b e' hb).1
  · rw [h.reached.tracks.bytes]
    refine List.sum_eq_zero_iff_forall_eq_nat.mpr fun bs hbyt => ?_
    obtain ⟨⟨k, e⟩, hmem, rfl⟩ := List.mem_map.mp hbyt
    have hex := (hexit k e (OrderedMap.get?_eq_some_iff.mpr hmem)).2
    cases e with
    | exited => rfl
    | output | closed | failed => cases hex

theorem recoverClosed_ok :
    ∃ next, recoverClosed res t r = .ok next ∧
      next.session.lastPublishedSeq = r.session.lastPublishedSeq ∧
      (res.closed = true → Held next.session t) := by
  rcases recoverClosed_cases h htruth with ⟨heq, hheld⟩ | ⟨heq, hcl, hnot⟩
  · exact ⟨r, heq, rfl, hheld⟩
  · have hlog := htruth.closed_target hcl
    obtain ⟨hsize, hbyt⟩ := room_for_closed h htruth hdone hlog hnot
    obtain ⟨i, hins⟩ := insertPending_accepts
      (show (ExecProcessEvent.closed t).seq = some t from rfl) (Nat.zero_le _)
      (.inr ⟨hsize, by rw [hbyt]; exact Nat.zero_le _⟩)
    have hinser := h.reached.tracks.inserts hlog hins
    rw [heq]
    exact ⟨_, insert_of_ok hins, hinser.last, fun _ => hinser.held_iff.mpr (.inr rfl)⟩

theorem recoverExited_ok (hcl : res.closed = true → Held r.session t) :
    ∃ next, recoverExited res t r = .ok next := by
  rcases recoverExited_cases h htruth with
    ⟨-, k, hk, hnot, hne⟩ | ⟨heq, -⟩ | ⟨exit, hle, hexit, hheld, ec, hlog, heq⟩
  · rcases terminal_of_not_held h htruth hdone hk (lt_of_not_held hnot) with hexit | ⟨rfl, hresp⟩
    · exact absurd hexit hne
    · exact absurd (hcl hresp) hnot
  · exact ⟨r, heq⟩
  · have hlt := lt_of_not_held fun hin => (hheld exit hle).mp hin rfl
    -- Before the exit nothing is missing, so it is the next event.
    have hnext : exit = r.session.lastPublishedSeq + 1 := by
      by_contra hne
      rcases terminal_of_not_held h htruth hdone
        (show r.session.lastPublishedSeq + 1 ≤ t by omega) (Nat.lt_succ_self _)
        with hear | ⟨htgt, -⟩
      · exact hne (hexit.unique hear)
      · omega
    obtain ⟨i, hins⟩ := insertPending_accepts (seq_of_event? hlog) (Nat.zero_le _) (.inl hnext)
    exact ⟨_, heq.trans (insert_of_ok hins)⟩

end

/-! ### Whole recoveries -/

/-- The answer has every output of the log after what is published. -/
def LeavesOutNothing (log : ServerLog) (s : SessionState) (res : ReadResponse) (t : Nat) : Prop :=
  ∀ chunk, log.event? chunk.seq = some (.output chunk) →
    s.lastPublishedSeq < chunk.seq → chunk.seq ≤ t → chunk ∈ res.chunks

/-- No output is larger than the reorder buffer, and there is room in it for one more, if the
next event is pending. -/
structure WithinLimits (s : SessionState) (res : ReadResponse) : Prop where
  chunks : ∀ chunk ∈ res.chunks, chunk.chunk.length ≤ maxPendingProcessEventBytes
  room : Room s res

theorem recoverFrom_ok (h : Tracks log s) (hal : s.failure = none)
    (hl : s.lastPublishedSeq < t) (htruth : Truthful log res t)
    (hall : LeavesOutNothing log s res t) (hlim : WithinLimits s res) :
    ∃ rec, recoverFrom res t (beginRecovery s res t) = .ok rec ∧
      Reached log s t rec.session rec.publishedClosed ∧
      ∀ k ≤ t, Held rec.session k := by
  obtain ⟨hsess, hbeg⟩ := beginRecovery_spec h hal hl.le htruth
  have hawaits : Awaits log s.lastPublishedSeq t (beginRecovery s res t).session res.chunks :=
    fun c hlog hst htgt => .inr (hall c hlog hst htgt)
  obtain ⟨hloop, looped, hlooped, hdone⟩ := recoverChunks_ok htruth hlim.chunks (fun _ => id)
    htruth.inOrder hbeg (hsess.symm ▸ hlim.room) hawaits
  have hends := recoverFrom_ends hbeg htruth hloop
  have hrec := recoverChunks_ends hbeg htruth (fun _ => id) hloop
  rw [hlooped] at hrec
  obtain ⟨closed, hcl, hsame, hheld⟩ := recoverClosed_ok hrec htruth hdone
  have hrec' := recoverClosed_ends hrec htruth
  rw [hcl] at hrec'
  obtain ⟨rec, hrecov⟩ := recoverExited_ok hrec' htruth (hdone.mono hsame.ge) hheld
  have hfrom : recoverFrom res t (beginRecovery s res t) = .ok rec := by
    unfold recoverFrom
    rw [hlooped]
    show ((recoverClosed res t looped).bind _) = _
    rw [hcl]
    exact hrecov
  rw [hfrom] at hends
  exact ⟨rec, hfrom, hends⟩

section

variable {log : ServerLog} {state : SessionState} {e : ExecProcessEvent} {seq target : Nat}
  {response : ReadResponse}

/-- **A recovery from an answer that leaves out nothing succeeds.**  It publishes everything up
to the target, in order, and after it what was pending without a gap; it tells whether the
close was among that. -/
theorem complete_recovery (h : Tracks log state) (halive : state.failure = none)
    (htruth : Truthful log response target)
    (hall : LeavesOutNothing log state response target) (hlimits : WithinLimits state response) :
    ∃ reached, (recoverEvents state response).1.events = log.events.take reached ∧
      (recoverEvents state response).2 =
        .ok (((log.events.take reached).drop state.lastPublishedSeq).any (·.isClosed)) ∧
      (target ≤ state.lastPublishedSeq → reached = state.lastPublishedSeq) ∧
      (state.lastPublishedSeq < target → target ≤ reached ∧
        (∀ seq, target < seq → seq ≤ reached → state.pending.get? seq ≠ none) ∧
        state.pending.get? (reached + 1) = none) := by
  have hevs := h.events_of_alive halive
  rcases recoverEvents_cases h htruth with ⟨heq, hidle⟩ | ⟨⟨-, hop, hl⟩, heq⟩
  · have hle : target ≤ state.lastPublishedSeq := by
      rcases hidle with hfl | hcl | hle
      · rw [halive] at hfl
        cases hfl
      · rw [h.closed, any_take_iff] at hcl
        obtain ⟨seq, hle, e, hlog, hev⟩ := hcl
        have hbound := htruth.bound
        have := closed_last hlog hev
        omega
      · exact hle
    rw [heq]
    refine ⟨state.lastPublishedSeq, hevs, ?_, fun _ => rfl, fun hlt => by omega⟩
    rw [List.drop_eq_nil_of_le (List.length_take_le ..)]
    rfl
  · obtain ⟨rec, hfrom, hreac, hheld⟩ := recoverFrom_ok h halive hl htruth hall hlimits
    have hpub := hreac.publishReady
    have hdr := drained_publishReady rec.session
    generalize hfin : rec.session.publishReady = final at hpub hdr
    have htgt : target ≤ final.1.lastPublishedSeq := by
      by_contra hlt
      have hnext : Held final.1 (final.1.lastPublishedSeq + 1) := by
        rw [← hfin, (publishes_ready rec.session).held_iff, hfin]
        exact hheld _ (by omega)
      rcases hnext with hle | hpend
      · omega
      · exact hpend hdr
    have hcl := hpub.closed
    rw [hop, Bool.false_or] at hcl
    rw [heq, hfrom]
    refine ⟨final.1.lastPublishedSeq, ?_, ?_, fun hle => by omega, fun _ => ⟨htgt, ?_, ?_⟩⟩
    · show rec.session.publishReady.1.events = _
      rw [hfin]
      exact hpub.tracks.events_of_alive hpub.alive
    · show Except.ok (rec.publishedClosed || rec.session.publishReady.2) = _
      rw [hfin, ← hcl, hpub.tracks.closed]
      have hn : (log.events.take state.lastPublishedSeq).any (·.isClosed) = false :=
        h.closed.symm.trans hop
      refine congrArg Except.ok (Lists.any_eq_any_drop ?_)
      rw [List.take_take, Nat.min_eq_left hpub.le]
      exact hn
    · exact fun seq htgt hle => hpub.taken seq htgt (by omega) hle
    · rw [← hpub.left _ (by omega) (Nat.lt_succ_self _)]
      exact hdr

end

/-! The second chunk is pending, and the answer is from before it. -/

def secondPending : SessionState :=
  (SessionState.new.publishOrderedEvent (.output ⟨2, .stdout, [98]⟩)).1

def firstAnswer : ReadResponse := twoChunks.answer 1 0 0

theorem secondPending_tracks : Tracks twoChunks secondPending :=
  (publishOrderedEvent_carries tracks_new rfl
    (rfl : twoChunks.event? 2 = some (.output ⟨2, .stdout, [98]⟩))).tracks

theorem firstAnswer_truthful : Truthful twoChunks firstAnswer 1 := answer_truthful twoChunks 1 0 0

theorem firstAnswer_leavesOutNothing : LeavesOutNothing twoChunks secondPending firstAnswer 1 := by
  intro c hlog hlt hle
  obtain hseq : c.seq = 1 := le_antisymm hle hlt
  rw [hseq] at hlog
  cases hlog
  decide

theorem firstAnswer_withinLimits : WithinLimits secondPending firstAnswer where
  chunks := by decide
  room := .inl rfl

/-- The answer is from after the exit, which is found by counting. -/
def lastAnswer : ReadResponse := twoChunks.answer 3 0 0

theorem lastAnswer_leavesOutNothing : LeavesOutNothing twoChunks secondPending lastAnswer 3 := by
  intro c hlog hlt hle
  have hseq : c.seq = 1 ∨ c.seq = 2 ∨ c.seq = 3 := by
    have : 0 < c.seq := hlt
    omega
  rcases hseq with hseq | hseq | hseq <;> rw [hseq] at hlog <;> cases hlog <;> decide

theorem lastAnswer_completes :
    lastAnswer.exited = true ∧ secondPending.exitPublished = false ∧
      ∃ reached, (recoverEvents secondPending lastAnswer).1.events =
        twoChunks.events.take reached ∧ 3 ≤ reached := by
  obtain ⟨reached, hevs, -, -, hbey⟩ := complete_recovery secondPending_tracks rfl
    (answer_truthful twoChunks 3 0 0) lastAnswer_leavesOutNothing ⟨by decide, .inl rfl⟩
  exact ⟨rfl, rfl, reached, hevs, (hbey (by decide)).1⟩

/-- The recovery publishes more than the answer is about. -/
theorem recovery_beyond_answer :
    Tracks twoChunks secondPending ∧ secondPending.failure = none ∧
      Truthful twoChunks firstAnswer 1 ∧
      LeavesOutNothing twoChunks secondPending firstAnswer 1 ∧
      WithinLimits secondPending firstAnswer ∧ firstAnswer.nextSeq - 1 = 1 ∧
      (recoverEvents secondPending firstAnswer).1.events = twoChunks.events.take 2 ∧
      twoChunks.events.take 2 ≠ twoChunks.events.take 1 :=
  ⟨secondPending_tracks, rfl, firstAnswer_truthful, firstAnswer_leavesOutNothing,
    firstAnswer_withinLimits, rfl, by decide +kernel, by decide⟩

end SushiGpt.ExecServer
