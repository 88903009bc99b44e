/-
What a recovery publishes.

Whether the loop over the chunks infers the exit at the right place, and whether a call
publishes anything, can be told from the state before it.  The loop infers the exit at the
first gap before a chunk (`loopInfersRight_iff`); a wrong exit is published at once, and what
has been published stays (`recoverEvents_invents`).  A call publishes something exactly when it
comes by the next event (`recoverEvents_same_iff`).
-/
import SushiGpt.Proofs.ExecServer.Recovery

namespace SushiGpt.ExecServer

open SessionState List Option ExecProcessEvent OrderedMap ServerLog

variable {log : ServerLog} {s s' st : SessionState} {e : ExecProcessEvent} {r : ReadResponse}
  {t seq : Nat} {rec : Recovering} {ch : ProcessOutputChunk}

/-! ### What a recovery keeps -/

/-- However a recovery ends, the session has the property. -/
def EndsIn (kept : SessionState → Prop) : Recovery → Prop :=
  Ends (fun next => kept next.session) kept

theorem endsIn_not {k : SessionState → Prop} {recovery : Recovery} :
    EndsIn (¬ k ·) recovery ↔ ¬ EndsIn k recovery := by
  cases recovery <;> exact Iff.rfl

section Kept

variable {k : SessionState → Prop} (r t ch)

theorem recoverExited_keeps {d : SessionState → Prop} (hdone : ∀ ses, k ses → d ses)
    (hins : ∀ ses e i, k ses → ses.insertPending e = .ok i → d i)
    (h : k rec.session) : Ends (fun next => d next.session) k (recoverExited r t rec) := by
  unfold recoverExited
  split_ifs
  · exact h
  · split
    · exact h
    · unfold Recovering.insert
      split
      · exact h
      · exact hins _ _ _ h ‹_›
  · exact h
  · exact hdone _ h

variable (h : k rec.session)

include h

theorem recoverClosed_keeps
    (hins : r.closed = true → ∀ i, rec.session.insertPending (.closed t) = .ok i → k i) :
    EndsIn k (recoverClosed r t rec) := by
  unfold recoverClosed
  split_ifs with hclosed
  · simp only [Bool.and_eq_true] at hclosed
    unfold Recovering.insert
    split
    · exact h
    · exact hins hclosed.1.1 _ ‹_›
  · exact h

variable (hpublish : ∀ ses e i, k ses → ses.insertPending e = .ok i → k i.publishReady.1)

include hpublish

theorem insert_publish_keeps {f : Recovering → Recovering}
    (hf : ∀ next, (f next).session = next.publish.session) :
    EndsIn k ((rec.insert e).map f) := by
  unfold Recovering.insert
  cases hins : rec.session.insertPending e with
  | error m => exact h
  | ok i =>
    show k (f _).session
    rw [hf]
    exact hpublish _ e i h hins

theorem recoverExitBefore_keeps : EndsIn k (recoverExitBefore r rec ch) := by
  unfold recoverExitBefore
  split_ifs
  · split
    · exact h
    · exact insert_publish_keeps h hpublish fun _ => rfl
  · exact h

theorem recoverOutput_keeps : EndsIn k (recoverOutput rec ch) := by
  unfold recoverOutput
  split_ifs
  · exact insert_publish_keeps h hpublish fun _ => rfl
  · exact h

theorem recoverChunk_keeps : EndsIn k (recoverChunk r t rec ch) := by
  unfold recoverChunk
  split_ifs
  · exact h
  · exact (recoverExitBefore_keeps r ch h hpublish).bind fun _ _ hreac =>
      recoverOutput_keeps ch hreac hpublish

theorem recoverChunks_keeps (cs : List ProcessOutputChunk) :
    EndsIn k (recoverChunks r t rec cs) := by
  induction cs generalizing rec with
  | nil => exact h
  | cons ch rest ih =>
    exact (recoverChunk_keeps r t ch h hpublish).bind fun _ _ => ih

end Kept

/-! ### Nothing is left that could be published -/

/-- Nothing is held back that could be published. -/
def Drained (state : SessionState) : Prop :=
  state.pending.get? (state.lastPublishedSeq + 1) = none

theorem drained_publishes (ses : SessionState) (e : ExecProcessEvent) (i : SessionState)
    (_ : Drained ses) (_ : ses.insertPending e = .ok i) : Drained i.publishReady.1 :=
  drained_publishReady i

theorem not_held_next (hdr : Drained s) : ¬ Held s (s.lastPublishedSeq + 1) := by
  rintro (hle | hpend)
  · omega
  · exact hpend hdr

section

variable (h : Recovers log st t rec) (htr : Truthful log r t)
include h htr

/-- The close is the next event, or leaves the next event alone. -/
theorem recoverClosed_drained (hdr : Drained rec.session) :
    Ends (fun next => Drained next.session ∨ ∀ k ≤ t, Held next.session k) Drained
      (recoverClosed r t rec) := by
  rcases recoverClosed_cases h htr with ⟨heq, -⟩ | ⟨heq, hcl, -⟩
  · rw [heq]
    exact .inl hdr
  · rw [heq]
    rcases insert_cases h.reached.tracks (htr.closed_target hcl) with
      ⟨m, herr⟩ | ⟨i, hok, -, hinser⟩
    · rw [herr]
      exact hdr
    · rw [hok]
      by_cases hnext : t = rec.session.lastPublishedSeq + 1
      · refine .inr fun k hk => hinser.held_iff.mpr ?_
        unfold Held
        omega
      · left
        unfold Drained
        rw [hinser.last, hinser.others _ (Ne.symm hnext)]
        exact hdr

theorem recoverExited_drained (hdr : Drained rec.session ∨ ∀ k ≤ t, Held rec.session k) :
    Ends (fun _ => True) Drained (recoverExited r t rec) := by
  rcases recoverExited_cases h htr with
    ⟨⟨m, heq⟩, k, hk, hnot, -⟩ | ⟨heq, -⟩ | ⟨exit, hle, -, hiff, ec, hlog, heq⟩
  · rw [heq]
    exact hdr.resolve_right fun hheld => hnot (hheld k hk)
  · rw [heq]
    trivial
  · have hdr := hdr.resolve_right fun hheld => (hiff exit hle).mp (hheld exit hle) rfl
    rw [heq]
    rcases insert_cases h.reached.tracks hlog with ⟨m, herr⟩ | ⟨i, hok, -⟩
    · rw [herr]
      exact hdr
    · rw [hok]
      trivial

end

/-! ### What the loop infers, from the start -/

/-- The first number that is neither published nor pending and has no chunk, as long as the
chunks before it can be taken. -/
def FirstGap (state : SessionState) (chunks : List ProcessOutputChunk) (n : Nat) : Prop :=
  ¬ Held state n ∧ (∀ chunk ∈ chunks, chunk.seq ≠ n) ∧
    ∀ m < n, Held state m ∨
      ∃ chunk ∈ chunks, chunk.seq = m ∧ chunk.chunk.length ≤ maxPendingProcessEventBytes

instance (state : SessionState) (chunks : List ProcessOutputChunk) (n : Nat) :
    Decidable (FirstGap state chunks n) :=
  inferInstanceAs (Decidable (_ ∧ _ ∧ _))

/-- A chunk that is published or pending makes no difference to the first gap. -/
theorem firstGap_cons_iff {n : Nat} {cs : List ProcessOutputChunk}
    (hheld : ∀ k, Held s' k ↔ Held s k ∨ k = ch.seq)
    (htaken : Held s ch.seq ∨ ch.chunk.length ≤ maxPendingProcessEventBytes) :
    FirstGap s (ch :: cs) n ↔ FirstGap s' cs n := by
  unfold FirstGap
  rw [hheld n, forall_mem_cons, not_or, and_assoc, and_assoc, ne_comm]
  refine and_congr_right fun _ => and_congr_right fun _ => and_congr_right fun _ =>
    forall₂_congr fun m _ => ?_
  rw [hheld m, exists_mem_cons_iff]
  by_cases hm : m = ch.seq
  · subst hm
    exact iff_of_true (htaken.imp_right fun hle => .inl ⟨rfl, hle⟩) (.inl (.inr rfl))
  · simp [hm, Ne.symm hm]

theorem insertPending_accepts (hseq : e.seq = some seq)
    (hbyt : pendingProcessEventBytes e ≤ maxPendingProcessEventBytes)
    (hroom : seq = s.lastPublishedSeq + 1 ∨ (s.pending.size < maxPendingProcessEvents ∧
      s.pendingBytes + pendingProcessEventBytes e ≤ maxPendingProcessEventBytes)) :
    ∃ i, s.insertPending e = .ok i := by
  unfold insertPending
  rw [hseq]
  dsimp only
  split_ifs with hpres hsize hlar htot
  · exact ⟨_, rfl⟩
  · simp only [Bool.and_eq_true, Bool.not_eq_true', beq_eq_false_iff_ne, decide_eq_true_eq] at hsize
    omega
  · omega
  · simp only [Bool.and_eq_true, Bool.not_eq_true', beq_eq_false_iff_ne, decide_eq_true_eq] at htot
    omega
  · exact ⟨_, rfl⟩

theorem insertPending_refuses (hseq : e.seq = some seq) (habs : s.pending.get? seq = none)
    (hfull : maxPendingProcessEventBytes < pendingProcessEventBytes e ∨
      (seq ≠ s.lastPublishedSeq + 1 ∧ ¬ (s.pending.size < maxPendingProcessEvents ∧
        s.pendingBytes + pendingProcessEventBytes e ≤ maxPendingProcessEventBytes))) :
    ∃ message, s.insertPending e = .error message := by
  unfold insertPending
  rw [hseq]
  dsimp only
  split_ifs with hpres hsize hlarge htotal
  · rw [habs] at hpres
    cases hpres
  · exact ⟨_, rfl⟩
  · exact ⟨_, rfl⟩
  · exact ⟨_, rfl⟩
  · simp only [Bool.and_eq_true, Bool.not_eq_true', beq_eq_false_iff_ne, decide_eq_true_eq,
      not_and, Nat.not_le] at hsize htotal
    omega

/-- The next event is always accepted when it is not too large. -/
theorem insertPending_next (hseq : e.seq = some (s.lastPublishedSeq + 1)) (hdr : Drained s)
    (hbyt : pendingProcessEventBytes e ≤ maxPendingProcessEventBytes) :
    ∃ s', s.insertPending e = .ok s' ∧ Inserts s s' (s.lastPublishedSeq + 1) e := by
  obtain ⟨s', hins⟩ := insertPending_accepts hseq hbyt (.inl rfl)
  refine ⟨s', hins, ?_⟩
  rcases insertPending_ok hseq hins with ⟨hpres, -⟩ | ⟨-, rfl⟩
  · exact absurd hdr hpres
  · exact ⟨rfl, rfl, rfl, get?_insert_self, fun _ hne => get?_insert_of_ne hne⟩

theorem insert_of_ok (hins : rec.session.insertPending e = .ok s') :
    rec.insert e = .ok { rec with session := s' } := by
  unfold Recovering.insert
  rw [hins]

theorem recoverOutput_exitKnown {next : Recovering} (h : recoverOutput rec ch = .ok next) :
    next.exitKnown = rec.exitKnown := by
  unfold recoverOutput Recovering.insert at h
  split_ifs at h
  · split at h <;> cases h
    rfl
  · cases h
    rfl

/-- A recovery that has inferred the exit knows it. -/
theorem recoverChunk_exitKnown {next : Recovering} (h : recoverChunk r t rec ch = .ok next) :
    next.exitKnown = (rec.exitKnown || infersExit r rec ch) := by
  unfold recoverChunk at h
  split_ifs at h
  unfold recoverExitBefore at h
  split_ifs at h with hinf
  · split at h
    · cases h
    · unfold Recovering.insert at h
      split at h
      · cases h
      · rw [recoverOutput_exitKnown h, hinf, Bool.or_true]
  · rw [recoverOutput_exitKnown h, Bool.eq_false_iff.mpr hinf, Bool.or_false]

/-- When the exit is known, or has not happened, nothing is inferred. -/
theorem loopInfersRight_of_known (h : (r.exited && !rec.exitKnown) = false)
    (cs : List ProcessOutputChunk) : LoopInfersRight log r t rec cs := by
  induction cs generalizing rec with
  | nil => trivial
  | cons ch rest ih =>
    have hinf : infersExit r rec ch = false := by
      unfold infersExit
      rw [h, Bool.false_and]
    refine ⟨fun htrue => absurd htrue (Bool.eq_false_iff.mp hinf), fun next hok => ih ?_⟩
    rw [recoverChunk_exitKnown hok, hinf, Bool.or_false, h]

theorem infersExit_eq_false (hle : ch.seq ≤ rec.session.lastPublishedSeq + 1) :
    infersExit r rec ch = false := by
  unfold infersExit
  rw [decide_eq_false (Nat.not_lt.mpr hle), Bool.and_false]

theorem recoverChunk_of_not_infers (htgt : ch.seq ≤ t) (hinf : infersExit r rec ch = false) :
    recoverChunk r t rec ch = recoverOutput rec ch := by
  unfold recoverChunk recoverExitBefore
  rw [if_neg (Nat.not_lt.mpr htgt), hinf]
  rfl

/-- A chunk that has been published is passed over. -/
theorem recoverChunk_of_le (hle : ch.seq ≤ rec.session.lastPublishedSeq) (htgt : ch.seq ≤ t) :
    recoverChunk r t rec ch = .ok rec := by
  rw [recoverChunk_of_not_infers htgt (infersExit_eq_false (Nat.le_succ_of_le hle))]
  exact if_neg (Nat.not_lt.mpr hle)

/-- The chunk with the next number is published at once, unless it is too large. -/
theorem recoverChunk_next (hseq : ch.seq = rec.session.lastPublishedSeq + 1) (htgt : ch.seq ≤ t)
    (hdr : Drained rec.session) :
    (maxPendingProcessEventBytes < ch.chunk.length ∧
      ∃ message, recoverChunk r t rec ch = .error (rec.session, message)) ∨
    (ch.chunk.length ≤ maxPendingProcessEventBytes ∧ ∃ next, recoverChunk r t rec ch = .ok next ∧
      ∀ k, Held next.session k ↔ Held rec.session k ∨ k = ch.seq) := by
  have hev : (output ch).seq = some (rec.session.lastPublishedSeq + 1) := congrArg some hseq
  rw [recoverChunk_of_not_infers htgt (infersExit_eq_false hseq.le)]
  unfold recoverOutput
  rw [if_pos (by omega)]
  rcases Nat.lt_or_ge maxPendingProcessEventBytes ch.chunk.length with hlarge | hbyt
  · obtain ⟨message, herr⟩ := insertPending_refuses hev hdr (.inl hlarge)
    refine .inl ⟨hlarge, message, ?_⟩
    unfold Recovering.insert
    rw [herr]
    rfl
  · obtain ⟨i, hins, hinser⟩ := insertPending_next hev hdr hbyt
    rw [insert_of_ok hins, hseq]
    exact .inr ⟨hbyt, _, rfl, fun k => (publishes_ready i).held_iff.trans hinser.held_iff⟩

/-- The first gap is the next number, unless the answer has a chunk there that can be taken. -/
theorem FirstGap.eq_next {n : Nat} {cs : List ProcessOutputChunk} (hgap : FirstGap s cs n)
    (hdr : Drained s) (hlarge : ∀ ch ∈ cs, ch.seq = s.lastPublishedSeq + 1 →
      maxPendingProcessEventBytes < ch.chunk.length) : n = s.lastPublishedSeq + 1 := by
  by_contra hne
  have hlt := lt_of_not_held hgap.1
  obtain ⟨ch, hch, hseq, hbyt⟩ :=
    (hgap.2.2 (s.lastPublishedSeq + 1) (by omega)).resolve_left (not_held_next hdr)
  exact absurd (hlarge ch hch hseq) (Nat.not_lt.mpr hbyt)

/-- **What the loop infers can be told from where it starts**: the number is the first gap
before a chunk. -/
theorem loopInfersRight_iff (htr : Truthful log r t) {cs : List ProcessOutputChunk}
    (hchun : ∀ ch ∈ cs, ch ∈ r.chunks) (hsorted : cs.Pairwise fun a b => a.seq < b.seq)
    (h : Recovers log st t rec) (hdr : Drained rec.session)
    (hunknown : (r.exited && !rec.exitKnown) = true) :
    LoopInfersRight log r t rec cs ↔
      ∀ ch ∈ cs, ∀ n < ch.seq, FirstGap rec.session cs n → log.ExitAt n := by
  induction cs generalizing rec with
  | nil => simp [LoopInfersRight]
  | cons ch rest ih =>
    obtain ⟨hmem, hrest⟩ := forall_mem_cons.mp hchun
    obtain ⟨hfirst, hsorted⟩ := pairwise_cons.mp hsorted
    have htgt := (htr.chunks ch hmem).1
    -- Once the chunk is held, the loop goes on with the rest.
    have hgoes (next : Recovering) (hok : recoverChunk r t rec ch = .ok next)
        (hheld : ∀ k, Held next.session k ↔ Held rec.session k ∨ k = ch.seq)
        (htaken : Held rec.session ch.seq ∨ ch.chunk.length ≤ maxPendingProcessEventBytes)
        (hle : ch.seq ≤ rec.session.lastPublishedSeq + 1) :
        LoopInfersRight log r t rec (ch :: rest) ↔
          ∀ c ∈ ch :: rest, ∀ n < c.seq, FirstGap rec.session (ch :: rest) n → log.ExitAt n := by
      have hinf : infersExit r rec ch = false := infersExit_eq_false hle
      have hends := recoverChunk_ends h htr hmem fun htrue => absurd htrue (by rw [hinf]; decide)
      have hdrained := recoverChunk_keeps r t ch hdr drained_publishes
      rw [hok] at hends hdrained
      have hknown : (r.exited && !next.exitKnown) = true := by
        rw [recoverChunk_exitKnown hok, hinf, Bool.or_false, hunknown]
      simp only [LoopInfersRight, hinf, hok, firstGap_cons_iff hheld htaken, forall_mem_cons,
        Except.ok.injEq, forall_eq', Bool.false_eq_true, false_imp_iff, true_and,
        ih hrest hsorted hends hdrained hknown]
      refine (and_iff_right fun n hn hgap => absurd ((hheld n).mpr ?_) hgap.1).symm
      exact .inl (.inl (by omega))
    rcases Nat.lt_trichotomy ch.seq (rec.session.lastPublishedSeq + 1) with hlt | heq | hgt
    · have hheld : Held rec.session ch.seq := .inl (by omega)
      refine hgoes rec (recoverChunk_of_le (by omega) htgt) (fun k => ?_) (.inl hheld) hlt.le
      exact ⟨.inl, fun hk => hk.elim id fun hk => hk ▸ hheld⟩
    · rcases recoverChunk_next heq htgt hdr with ⟨hlarge, m, herr⟩ | ⟨hbyt, next, hok, hheld⟩
      · -- The loop stops at the chunk, and no gap comes before it.
        refine iff_of_true ⟨fun hinf => ?_, fun next hok => ?_⟩ fun c _ n _ hgap => ?_
        · rw [infersExit_eq_false heq.le] at hinf
          cases hinf
        · rw [herr] at hok
          cases hok
        · have hn := hgap.eq_next hdr (forall_mem_cons.mpr ⟨fun _ => hlarge, fun c hc hseq => by
            have := hfirst c hc
            omega⟩)
          exact absurd (heq.trans hn.symm) (hgap.2.1 ch mem_cons_self)
      · exact hgoes next hok hheld (.inr hbyt) heq.le
    · have hinf : infersExit r rec ch = true := by
        unfold infersExit
        rw [hunknown, Bool.true_and, decide_eq_true_eq]
        exact hgt
      have hout : ∀ c ∈ ch :: rest, rec.session.lastPublishedSeq + 1 < c.seq :=
        forall_mem_cons.mpr ⟨hgt, fun c hc => hgt.trans (hfirst c hc)⟩
      constructor
      · intro hloop c _ n _ hgap
        obtain rfl := hgap.eq_next hdr fun c hc hseq => absurd hseq (hout c hc).ne'
        exact hloop.1 hinf
      · intro hgaps
        refine ⟨fun _ => hgaps ch mem_cons_self _ hgt ⟨not_held_next hdr,
          fun c hc => (hout c hc).ne', fun m hm => .inl (.inl (Nat.lt_succ_iff.mp hm))⟩,
          fun next hok => loopInfersRight_of_known ?_ rest⟩
        rw [recoverChunk_exitKnown hok, hinf, Bool.or_true, Bool.not_true, Bool.and_false]

/-- Neither failed nor closed: calls are not idle. -/
def Open (state : SessionState) : Prop := state.failure = none ∧ state.closedPublished = false

instance (state : SessionState) : Decidable (Open state) := inferInstanceAs (Decidable (_ ∧ _))

/-- If the answer has an exit that is neither published nor pending, the first gap before a
chunk is the exit. -/
def InfersRight (log : ServerLog) (state : SessionState) (response : ReadResponse) : Prop :=
  Open state → (∃ exit ≤ response.nextSeq - 1, log.ExitAt exit ∧ ¬ Held state exit) →
    ∀ chunk ∈ response.chunks, ∀ n < chunk.seq, FirstGap state response.chunks n → log.ExitAt n

instance (log : ServerLog) (state : SessionState) (response : ReadResponse) :
    Decidable (InfersRight log state response) :=
  inferInstanceAs (Decidable (_ → _ → _))

/-- What a call does to a session that follows the log. -/
structure Carries (log : ServerLog) (state state' : SessionState) : Prop where
  tracks : Tracks log state'
  drained : Drained state'
  le : state.lastPublishedSeq ≤ state'.lastPublishedSeq
  failure : state'.failure = state.failure
  same : state.failure ≠ none → state'.events = state.events

theorem Carries.refl (h : Tracks log s) (hdr : Drained s) : Carries log s s :=
  ⟨h, hdr, le_rfl, rfl, fun _ => rfl⟩

theorem Carries.noteChange (h : Carries log s s') (seq : Nat) : Carries log s (s'.noteChange seq) :=
  ⟨h.tracks.noteChange seq, h.drained, h.le, h.failure, h.same⟩

section

variable (h : Tracks log s) (hdr : Drained s) (htr : Truthful log r t)
include h hdr htr

theorem infersRight_iff (hop : Open s) (hl : s.lastPublishedSeq < t) :
    InfersRight log s r ↔ LoopInfersRight log r t (beginRecovery s r t) r.chunks := by
  obtain ⟨hsess, hbeg⟩ := beginRecovery_spec h hop.1 hl.le htr
  have hknown := hbeg.exitKnown
  rw [hsess] at hknown
  have hunknown : (∃ exit ≤ r.nextSeq - 1, log.ExitAt exit ∧ ¬ Held s exit) ↔
      (r.exited && !(beginRecovery s r t).exitKnown) = true := by
    rw [htr.next, Nat.add_sub_cancel, Bool.and_eq_true, htr.exited, Bool.not_eq_true',
      Bool.eq_false_iff, ne_eq, hknown]
    constructor
    · rintro ⟨seq, hle, hexit, hheld⟩
      refine ⟨⟨seq, hle, hexit⟩, ?_⟩
      rintro ⟨seq', -, hexit', hheld'⟩
      exact hheld (hexit.unique hexit' ▸ hheld')
    · rintro ⟨⟨seq, hle, hexit⟩, hnot⟩
      exact ⟨seq, hle, hexit, fun hheld => hnot ⟨seq, hle, hexit, hheld⟩⟩
  unfold InfersRight
  rw [forall_prop_of_true hop, hunknown]
  by_cases hun : (r.exited && !(beginRecovery s r t).exitKnown) = true
  · rw [forall_prop_of_true hun, loopInfersRight_iff htr (fun _ => id) htr.inOrder hbeg
      (by rw [hsess]; exact hdr) hun, hsess]
  · exact iff_of_true (fun htrue => absurd htrue hun)
      (loopInfersRight_of_known (Bool.eq_false_iff.mpr hun) _)

omit h hdr in
theorem recoverFrom_drained (hbeg : Recovers log st t rec) (hdr : Drained rec.session)
    (hloop : LoopInfersRight log r t rec r.chunks) :
    Ends (fun _ => True) Drained (recoverFrom r t rec) := by
  have hchunks := (recoverChunks_ends hbeg htr (fun _ => id) hloop).and
    (recoverChunks_keeps r t hdr drained_publishes r.chunks)
  have hclosed := hchunks.bind fun _ _ ⟨hrec, hnext⟩ =>
    (recoverClosed_ends hrec htr).and (recoverClosed_drained hrec htr hnext)
  exact hclosed.bind fun _ _ ⟨hrec, hnext⟩ => recoverExited_drained hrec htr hnext

/-- **A recovery that infers right keeps following the log**, whether it fails or not. -/
theorem recoverEvents_carries (hr : InfersRight log s r) : Carries log s (recoverEvents s r).1 := by
  rcases recoverEvents_cases h htr with ⟨heq, -⟩ | ⟨⟨hal, hop, hl⟩, heq⟩
  · rw [heq]
    exact .refl h hdr
  · have hloop := (infersRight_iff h hdr htr ⟨hal, hop⟩ hl).mp hr
    obtain ⟨hsess, hbeg⟩ := beginRecovery_spec h hal hl.le htr
    obtain ⟨closed, hreac⟩ := finishRecovery_reached (recoverFrom_ends hbeg htr hloop)
    have hfrom := recoverFrom_drained htr hbeg (hsess.symm ▸ hdr) hloop
    rw [heq]
    refine ⟨hreac.tracks, ?_, hreac.le, hreac.alive.trans hal.symm, fun hfl => absurd hal hfl⟩
    cases hrecov : recoverFrom r t (beginRecovery s r t) with
    | error stop =>
      rw [hrecov] at hfrom
      exact hfrom
    | ok recovered => exact drained_publishReady recovered.session

end

/-! ### Wrong inferences

A wrong exit is published at once, and what has been published stays. -/

theorem events_loop (f : Nat) (s : SessionState) :
    s.events <+: (s.publishReadyLoop f).1.events := by
  induction f generalizing s with
  | zero => exact prefix_rfl
  | succ f ih =>
    unfold publishReadyLoop
    split
    · exact prefix_rfl
    · rename_i e _
      exact (prefix_append _ _).trans (ih (s.publishNext e))

theorem insertPending_events (hins : s.insertPending e = .ok s') : s'.events = s.events := by
  unfold insertPending at hins
  split at hins
  · cases hins
  · dsimp only at hins
    split_ifs at hins <;> cases hins <;> rfl

/-- An exit has been published where the log has none. -/
def Invents (log : ServerLog) (state : SessionState) : Prop :=
  ∃ n exitCode denied,
    log.events.take n ++ [.exited (n + 1) exitCode denied] <+: state.events ∧ ¬ log.ExitAt (n + 1)

theorem Invents.mono (h : Invents log s) (hgrows : s.events <+: s'.events) : Invents log s' := by
  obtain ⟨n, ec, d, hpre, hexit⟩ := h
  exact ⟨n, ec, d, hpre.trans hgrows, hexit⟩

theorem Invents.inserts (ses : SessionState) (e : ExecProcessEvent) (i : SessionState)
    (h : Invents log ses) (hins : ses.insertPending e = .ok i) : Invents log i :=
  h.mono (insertPending_events hins ▸ prefix_rfl)

theorem Invents.publishes (ses : SessionState) (e : ExecProcessEvent) (i : SessionState)
    (h : Invents log ses) (hins : ses.insertPending e = .ok i) : Invents log i.publishReady.1 :=
  (h.inserts _ _ _ hins).mono (events_loop _ _)

theorem publishReady_first (hnext : s.pending.get? (s.lastPublishedSeq + 1) = some e) :
    s.events ++ [e] <+: s.publishReady.1.events := by
  unfold publishReady
  cases hsize : s.pending.size with
  | zero =>
    rw [get?_of_size_eq_zero hsize] at hnext
    cases hnext
  | succ f =>
    unfold publishReadyLoop
    rw [hnext]
    exact events_loop f (s.publishNext e)

/-- The inferred exit is published at once. -/
theorem recoverExitBefore_infers (hdr : Drained rec.session) (hinf : infersExit r rec ch = true)
    {ec : Int} (hcode : r.exitCode = some ec) :
    ∃ i, rec.session.insertPending
        (.exited (rec.session.lastPublishedSeq + 1) ec (some r.sandboxDenied)) = .ok i ∧
      Inserts rec.session i (rec.session.lastPublishedSeq + 1)
        (.exited (rec.session.lastPublishedSeq + 1) ec (some r.sandboxDenied)) ∧
      recoverExitBefore r rec ch =
        .ok { ({ rec with session := i } : Recovering).publish with exitKnown := true } := by
  obtain ⟨i, hins, hinser⟩ := insertPending_next
    (show (exited _ ec (some r.sandboxDenied)).seq = _ from rfl) hdr (Nat.zero_le _)
  refine ⟨i, hins, hinser, ?_⟩
  unfold recoverExitBefore
  rw [if_pos hinf, hcode]
  dsimp only
  rw [insert_of_ok hins]
  rfl

section

variable (h : Recovers log st t rec) (htr : Truthful log r t) (hdr : Drained rec.session)

include h htr hdr

theorem recoverExitBefore_invents (hinf : infersExit r rec ch = true)
    (hwrong : ¬ log.ExitAt (rec.session.lastPublishedSeq + 1)) :
    EndsIn (Invents log) (recoverExitBefore r rec ch) := by
  have hex : r.exited = true := by
    simp only [infersExit, Bool.and_eq_true] at hinf
    exact hinf.1.1
  obtain ⟨seq, hle, hexit⟩ := htr.exited.mp hex
  obtain ⟨ec, hcode, -⟩ := htr.exit seq hle hexit
  obtain ⟨i, hins, hinser, hbefore⟩ := recoverExitBefore_infers hdr hinf hcode
  rw [hbefore]
  refine ⟨rec.session.lastPublishedSeq, ec, some r.sandboxDenied, ?_, hwrong⟩
  have hpub := h.reached.tracks.published
  rw [h.reached.alive, map_none, toList_none, append_nil] at hpub
  rw [← hpub, ← insertPending_events hins]
  refine publishReady_first ?_
  rw [hinser.last]
  exact hinser.self

theorem recoverChunks_invents {cs : List ProcessOutputChunk} (hchun : ∀ ch ∈ cs, ch ∈ r.chunks)
    (hwrong : ¬ LoopInfersRight log r t rec cs) :
    EndsIn (Invents log) (recoverChunks r t rec cs) := by
  induction cs generalizing rec with
  | nil => exact absurd trivial hwrong
  | cons ch rest ih =>
    obtain ⟨hmem, hrest⟩ := forall_mem_cons.mp hchun
    by_cases hr : infersExit r rec ch = true → log.ExitAt (rec.session.lastPublishedSeq + 1)
    · -- The wrong inference comes later.
      obtain ⟨next, hok, hlat⟩ : ∃ next,
          recoverChunk r t rec ch = .ok next ∧ ¬ LoopInfersRight log r t next rest := by
        by_contra hn
        refine hwrong ⟨hr, fun next hok => ?_⟩
        by_contra hlat
        exact hn ⟨next, hok, hlat⟩
      have hends := recoverChunk_ends h htr hmem hr
      have hnextDrained := recoverChunk_keeps r t ch hdr drained_publishes
      rw [hok] at hends hnextDrained
      unfold recoverChunks
      rw [hok]
      exact ih hends hnextDrained hrest hlat
    · rw [Classical.not_imp] at hr
      have hbefore := recoverExitBefore_invents h htr hdr hr.1 hr.2
      have hle := (htr.chunks ch hmem).1
      have hchunk : EndsIn (Invents log) (recoverChunk r t rec ch) := by
        unfold recoverChunk
        rw [if_neg (Nat.not_lt.mpr hle)]
        exact hbefore.bind fun _ _ hnext => recoverOutput_keeps ch hnext Invents.publishes
      exact hchunk.bind fun _ _ hnext => recoverChunks_keeps r t hnext Invents.publishes rest

end

/-- **A recovery that infers wrong publishes an exit that the log does not have there.** -/
theorem recoverEvents_invents (h : Tracks log s) (hdr : Drained s) (htr : Truthful log r t)
    (hwrong : ¬ InfersRight log s r) : s.failure = none ∧ Invents log (recoverEvents s r).1 := by
  have hwrong' := hwrong
  unfold InfersRight at hwrong'
  push Not at hwrong'
  obtain ⟨⟨hal, hop⟩, -, ch, hmem, n, hlt, hgap, -⟩ := hwrong'
  have hl : s.lastPublishedSeq < t :=
    (lt_of_not_held hgap.1).trans (hlt.trans_le (htr.chunks ch hmem).1)
  have hloop := hwrong ∘ (infersRight_iff h hdr htr ⟨hal, hop⟩ hl).mpr
  refine ⟨hal, ?_⟩
  rcases recoverEvents_cases h htr with ⟨-, hidle⟩ | ⟨-, heq⟩
  · rw [hal, hop] at hidle
    simp at hidle
    omega
  · obtain ⟨hsess, hbeg⟩ := beginRecovery_spec h hal hl.le htr
    have hchun := recoverChunks_invents hbeg htr (by rw [hsess]; exact hdr) (fun _ => id) hloop
    have hfrom : EndsIn (Invents log) (recoverFrom r t (beginRecovery s r t)) :=
      (hchun.bind fun _ _ hinv => recoverClosed_keeps r t hinv fun _ _ => hinv.inserts _ _ _).bind
        fun _ _ => recoverExited_keeps r t (fun _ => id) Invents.inserts
    rw [heq]
    cases hrec : recoverFrom r t (beginRecovery s r t) with
    | error stop =>
      rw [hrec] at hfrom
      exact hfrom
    | ok recovered =>
      rw [hrec] at hfrom
      exact hfrom.mono (events_loop _ _)

/-! ### Notifications -/

/-- A notification that is not idle is inserted, and what is ready is published. -/
theorem publishOrderedEvent_of_awake (hlog : log.event? seq = some e)
    (hawake : ¬ (s.failure.isSome || s.closedPublished || decide (seq ≤ s.lastPublishedSeq))) :
    (publishOrderedEvent s e).1 =
      (s.insertPending e).toOption.elim s fun inserted => inserted.publishReady.1 := by
  unfold publishOrderedEvent
  rw [seq_of_event? hlog]
  dsimp only
  rw [if_neg hawake]
  cases s.insertPending e <;> rfl

theorem publishOrderedEvent_of_idle (hlog : log.event? seq = some e)
    (hidle : s.failure.isSome || s.closedPublished || decide (seq ≤ s.lastPublishedSeq)) :
    (publishOrderedEvent s e).1 = s := by
  unfold publishOrderedEvent
  rw [seq_of_event? hlog]
  dsimp only
  rw [if_pos hidle]

theorem publishOrderedEvent_carries (h : Tracks log s) (hdr : Drained s)
    (hlog : log.event? seq = some e) : Carries log s (publishOrderedEvent s e).1 := by
  by_cases hidle : s.failure.isSome || s.closedPublished || decide (seq ≤ s.lastPublishedSeq)
  · rw [publishOrderedEvent_of_idle hlog hidle]
    exact .refl h hdr
  · rw [publishOrderedEvent_of_awake hlog hidle]
    simp only [Bool.or_eq_true, decide_eq_true_eq, not_or, Bool.not_eq_true, Nat.not_le,
      isSome_eq_false_iff, isNone_iff_eq_none] at hidle
    obtain ⟨⟨hal, -⟩, hl⟩ := hidle
    cases hins : s.insertPending e with
    | error m => exact .refl h hdr
    | ok i =>
      have hinser := h.inserts hlog hins
      have hpub := publishes_ready i
      refine ⟨?_, drained_publishReady i, hinser.last ▸ hpub.le,
        hpub.failure.trans hinser.failure, fun hfl => absurd hal hfl⟩
      exact (h.insert hlog hl hins).publishReady (hinser.failure.trans hal)

/-! ### What a call publishes -/

theorem Tracks.events_of_alive (h : Tracks log s) (hal : s.failure = none) :
    s.events = log.events.take s.lastPublishedSeq := by
  rw [h.published, hal]
  exact append_nil _

/-- A call publishes nothing exactly when the next event is still missing after it. -/
theorem Carries.same_iff (h : Tracks log s) (hcar : Carries log s s') (hal : s.failure = none) :
    s'.events = s.events ↔ ¬ Held s' (s.lastPublishedSeq + 1) := by
  have hevs := h.events_of_alive hal
  have hevs' := hcar.tracks.events_of_alive (hcar.failure.trans hal)
  have hle := hcar.le
  constructor
  · intro heq
    have hlen := congrArg List.length heq
    have hbound := h.bound
    have hbound' := hcar.tracks.bound
    rw [hevs, hevs', length_take, length_take] at hlen
    rw [show s.lastPublishedSeq = s'.lastPublishedSeq by omega]
    exact not_held_next hcar.drained
  · intro hnot
    unfold Held at hnot
    rw [hevs, hevs', show s'.lastPublishedSeq = s.lastPublishedSeq by omega]

/-- **A notification is published at once if it has the next number**, unless it is too large
for the reorder buffer. -/
theorem publishOrderedEvent_same_iff (h : Tracks log s) (hdr : Drained s)
    (hlog : log.event? seq = some e) :
    (publishOrderedEvent s e).1.events = s.events ↔ (Open s → seq = s.lastPublishedSeq + 1 →
      maxPendingProcessEventBytes < pendingProcessEventBytes e) := by
  by_cases hidle : s.failure.isSome || s.closedPublished || decide (seq ≤ s.lastPublishedSeq)
  · rw [publishOrderedEvent_of_idle hlog hidle]
    refine iff_of_true rfl fun hop hseq => ?_
    rw [hop.1, hop.2, hseq] at hidle
    exact absurd (of_decide_eq_true hidle) (Nat.not_succ_le_self _)
  · have hcar := publishOrderedEvent_carries h hdr hlog
    have heq := publishOrderedEvent_of_awake hlog hidle
    simp only [Bool.or_eq_true, decide_eq_true_eq, not_or, Bool.not_eq_true, Nat.not_le,
      isSome_eq_false_iff, isNone_iff_eq_none] at hidle
    obtain ⟨⟨hal, hop⟩, -⟩ := hidle
    rw [hcar.same_iff h hal, forall_prop_of_true ⟨hal, hop⟩, heq]
    by_cases hseq : seq = s.lastPublishedSeq + 1
    · rw [forall_prop_of_true hseq]
      subst hseq
      rcases Nat.lt_or_ge maxPendingProcessEventBytes (pendingProcessEventBytes e) with hlarge | hle
      · obtain ⟨m, herr⟩ := insertPending_refuses (seq_of_event? hlog) hdr (.inl hlarge)
        rw [herr]
        exact iff_of_true (not_held_next hdr) hlarge
      · obtain ⟨i, hins, hinser⟩ := insertPending_next (seq_of_event? hlog) hdr hle
        rw [hins]
        refine iff_of_false (not_not.mpr ?_) (Nat.not_lt.mpr hle)
        exact (publishes_ready i).held_iff.mpr (hinser.held_iff.mpr (.inr rfl))
    · refine iff_of_true ?_ fun heq => absurd heq hseq
      cases hins : s.insertPending e with
      | error m => exact not_held_next hdr
      | ok i =>
        show ¬ Held i.publishReady.1 _
        rw [(publishes_ready i).held_iff, (h.inserts hlog hins).held_iff, not_or]
        exact ⟨not_held_next hdr, Ne.symm hseq⟩

/-- The close that the answer tells of can be pending. -/
def TakesClose (state : SessionState) (response : ReadResponse) (seq : Nat) : Prop :=
  seq = response.nextSeq - 1 ∧ response.closed = true ∧
    state.pending.size < maxPendingProcessEvents ∧
    state.pendingBytes ≤ maxPendingProcessEventBytes

/-- A recovery comes by the next event of the log: the answer has the chunk; a later chunk
shows that the exit is missing, or everything else up to the target is there; or the next
event is the close. -/
def Obtains (log : ServerLog) (state : SessionState) (response : ReadResponse) : Prop :=
  let next := state.lastPublishedSeq + 1
  next ≤ response.nextSeq - 1 ∧
    match log.event? next with
    | some (.output chunk) =>
      chunk ∈ response.chunks ∧ chunk.chunk.length ≤ maxPendingProcessEventBytes
    | some (.exited ..) => (∃ chunk ∈ response.chunks, next < chunk.seq) ∨
        ∀ seq ≤ response.nextSeq - 1, next < seq → Held state seq ∨ TakesClose state response seq
    | some (.closed _) => True
    | some (.failed _) | none => False

instance (state : SessionState) (response : ReadResponse) (seq : Nat) :
    Decidable (TakesClose state response seq) :=
  inferInstanceAs (Decidable (_ ∧ _ ∧ _ ∧ _))

instance (log : ServerLog) (state : SessionState) (response : ReadResponse) :
    Decidable (Obtains log state response) := by
  unfold Obtains
  dsimp only
  split <;> infer_instance

theorem insertPending_held {k : Nat} (ses : SessionState) (e : ExecProcessEvent)
    (i : SessionState) (h : Held ses k) (hins : ses.insertPending e = .ok i) : Held i k := by
  cases hseq : e.seq with
  | none =>
    unfold insertPending at hins
    rw [hseq] at hins
    cases hins
  | some seq =>
    rcases insertPending_ok hseq hins with ⟨-, rfl⟩ | ⟨-, rfl⟩
    · exact h
    · refine h.imp_right fun hpend => ?_
      by_cases hk : k = seq
      · rw [hk, get?_insert_self]
        nofun
      · rw [get?_insert_of_ne hk]
        exact hpend

theorem publish_held {k : Nat} (ses : SessionState) (e : ExecProcessEvent)
    (i : SessionState) (h : Held ses k) (hins : ses.insertPending e = .ok i) :
    Held i.publishReady.1 k :=
  (publishes_ready i).held_iff.mpr (insertPending_held ses e i h hins)

section

variable {cs : List ProcessOutputChunk} (h : Recovers log st t rec) (htr : Truthful log r t)
include h htr

/-- **The loop comes by the next event** when that is a chunk that can be taken, or the exit and
before a chunk. -/
theorem recoverChunks_held_iff {n : Nat} (hn : st.lastPublishedSeq + 1 = n)
    (hnot : ¬ Held rec.session n) (hdr : Drained rec.session) (hchun : ∀ ch ∈ cs, ch ∈ r.chunks)
    (hsorted : cs.Pairwise fun a b => a.seq < b.seq) (hr : LoopInfersRight log r t rec cs) :
    EndsIn (Held · n) (recoverChunks r t rec cs) ↔
      (∃ ch ∈ cs, ch.seq = n ∧ ch.chunk.length ≤ maxPendingProcessEventBytes) ∨
        log.ExitAt n ∧ ∃ ch ∈ cs, n < ch.seq := by
  induction cs generalizing rec with
  | nil => exact iff_of_false hnot (by simp)
  | cons ch rest ih =>
    obtain ⟨hmem, hrest⟩ := forall_mem_cons.mp hchun
    obtain ⟨hfirst, hsorted⟩ := pairwise_cons.mp hsorted
    obtain ⟨htgt, hlog⟩ := htr.chunks ch hmem
    have hlast : rec.session.lastPublishedSeq + 1 = n := by
      have := h.reached.le
      have := lt_of_not_held hnot
      omega
    have hgoes (hchunk : EndsIn (Held · n) (recoverChunk r t rec ch)) :
        EndsIn (Held · n) (recoverChunks r t rec (ch :: rest)) :=
      hchunk.bind fun _ _ hnext => recoverChunks_keeps r t hnext publish_held rest
    rcases Nat.lt_trichotomy ch.seq n with hlt | heq | hgt
    · have hpass : recoverChunk r t rec ch = .ok rec := recoverChunk_of_le (by omega) htgt
      unfold recoverChunks
      rw [hpass]
      show EndsIn _ (recoverChunks r t rec rest) ↔ _
      rw [ih h hnot hdr hrest hsorted (hr.2 rec hpass)]
      simp [hlt.ne, Nat.not_lt.mpr hlt.le]
    · rcases recoverChunk_next (heq.trans hlast.symm) htgt hdr with
        ⟨hlarge, m, herr⟩ | ⟨hbyt, next, hok, hheld⟩
      · unfold recoverChunks
        rw [herr]
        refine iff_of_false hnot ?_
        rintro (⟨c, hc, hseq, hbyt⟩ | ⟨hexit, -⟩)
        · rcases mem_cons.mp hc with rfl | hc
          · omega
          · exact absurd (hfirst c hc) (by omega)
        · exact not_exitAt_of_output hlog (heq ▸ hexit)
      · refine iff_of_true (hgoes ?_) (.inl ⟨ch, mem_cons_self, heq, hbyt⟩)
        rw [hok]
        exact (hheld n).mpr (.inr heq.symm)
    · by_cases hexit : log.ExitAt n
      · refine iff_of_true (hgoes ?_) (.inr ⟨hexit, ch, mem_cons_self, hgt⟩)
        have hunknown : rec.exitKnown = false := by
          rw [Bool.eq_false_iff, ne_eq, h.exitKnown]
          rintro ⟨seq, -, hseq, hheld⟩
          exact hnot (hseq.unique hexit ▸ hheld)
        have hinf : infersExit r rec ch = true := by
          simp [infersExit, htr.exited.mpr ⟨n, by omega, hexit⟩, hunknown, hlast, hgt]
        obtain ⟨ec, hcode, -⟩ := htr.exit n (by omega) hexit
        obtain ⟨i, -, hinser, hbefore⟩ := recoverExitBefore_infers hdr hinf hcode
        unfold recoverChunk
        rw [if_neg (Nat.not_lt.mpr htgt), hbefore]
        refine recoverOutput_keeps ch ?_ publish_held
        exact (publishes_ready i).held_iff.mpr (hinser.held_iff.mpr (.inr hlast.symm))
      · have hinf : infersExit r rec ch = false :=
          Bool.eq_false_iff.mpr fun hinf => hexit (hlast ▸ hr.1 hinf)
        have hmisses : EndsIn (¬ Held · n) (recoverChunk r t rec ch) := by
          rw [recoverChunk_of_not_infers htgt hinf]
          unfold recoverOutput
          rw [if_pos (by omega)]
          rcases insert_cases h.reached.tracks hlog with ⟨m, herr⟩ | ⟨i, hok, -, hinser⟩
          · rw [herr]
            exact hnot
          · rw [hok]
            show ¬ Held i.publishReady.1 n
            rw [(publishes_ready i).held_iff, hinser.held_iff, not_or]
            exact ⟨hnot, hgt.ne⟩
        have hends := recoverChunk_ends h htr hmem hr.1
        have hdrained := recoverChunk_keeps r t ch hdr drained_publishes
        have hnone : ∀ c ∈ ch :: rest, c.seq ≠ n :=
          forall_mem_cons.mpr ⟨hgt.ne', fun c hc => (hgt.trans (hfirst c hc)).ne'⟩
        refine iff_of_false (endsIn_not.mp (hmisses.bind fun next hok hnext => ?_)) ?_
        · rw [hok] at hends hdrained
          refine (endsIn_not (k := (Held · n))).mpr fun hheld => ?_
          rcases (ih hends hnext hdrained hrest hsorted (hr.2 next hok)).mp hheld with
            ⟨c, hc, hseq, -⟩ | hbeyond
          · exact hnone c (mem_cons_of_mem _ hc) hseq
          · exact hexit hbeyond.1
        · rintro (⟨c, hc, hseq, -⟩ | hbeyond)
          · exact hnone c hc hseq
          · exact hexit hbeyond.1

theorem recoverClosed_misses {n : Nat} (hnot : ¬ Held rec.session n)
    (hlog : log.event? n = some e) (hopen : e.isClosed = false) :
    EndsIn (¬ Held · n) (recoverClosed r t rec) := by
  refine recoverClosed_keeps r t hnot fun hcl i hins => ?_
  have hclosed := htr.closed_target hcl
  rw [(h.reached.tracks.inserts hclosed hins).held_iff, not_or]
  refine ⟨hnot, ?_⟩
  rintro rfl
  rw [hclosed] at hlog
  cases hlog
  cases hopen

/-- Counting does not come by an event that is not the exit. -/
theorem recoverExited_misses {n : Nat} (hn : n ≤ t) (hnot : ¬ Held rec.session n)
    (hexit : ¬ log.ExitAt n) : EndsIn (¬ Held · n) (recoverExited r t rec) := by
  rcases recoverExited_cases h htr with
    ⟨⟨m, heq⟩, -⟩ | ⟨-, hheld⟩ | ⟨exit, -, hseq, hheld, -⟩
  · rw [heq]
    exact hnot
  · exact absurd (hheld n hn) hnot
  · refine absurd ((hheld n hn).mpr ?_) hnot
    rintro rfl
    exact hexit hseq

omit h in
/-- When the next event is not output, no chunk up to it is new. -/
theorem recoverChunks_skip (hle : ∀ ch ∈ cs, ch.seq ≤ rec.session.lastPublishedSeq + 1)
    (hother : ∀ c, log.event? (rec.session.lastPublishedSeq + 1) ≠ some (.output c))
    (hchun : ∀ ch ∈ cs, ch ∈ r.chunks) : recoverChunks r t rec cs = .ok rec := by
  induction cs with
  | nil => rfl
  | cons ch rest ih =>
    obtain ⟨hmem, hrest⟩ := forall_mem_cons.mp hchun
    obtain ⟨hfirst, hle⟩ := forall_mem_cons.mp hle
    obtain ⟨htgt, hlog⟩ := htr.chunks ch hmem
    have hne : ch.seq ≠ rec.session.lastPublishedSeq + 1 := fun heq => hother ch (heq ▸ hlog)
    unfold recoverChunks
    rw [recoverChunk_of_le (by omega) htgt]
    exact ih hle hrest

/-- A close that does not have the next number is pending afterwards, or there is no room. -/
theorem recoverClosed_held (hl : r.closed = true → rec.session.lastPublishedSeq + 1 < t) :
    (∃ message, recoverClosed r t rec = .error (rec.session, message) ∧ r.closed = true ∧
      ¬ Held rec.session t ∧ ¬ TakesClose rec.session r t) ∨
    ∃ next, recoverClosed r t rec = .ok next ∧
      next.session.lastPublishedSeq = rec.session.lastPublishedSeq ∧
      ∀ k, Held next.session k ↔ Held rec.session k ∨ TakesClose rec.session r k := by
  have htgt : r.nextSeq - 1 = t := by rw [htr.next, Nat.add_sub_cancel]
  unfold TakesClose
  rw [htgt]
  rcases recoverClosed_cases h htr with ⟨heq, hheld⟩ | ⟨heq, hcl, hnot⟩
  · refine .inr ⟨rec, heq, rfl, fun k => (or_iff_left_of_imp ?_).symm⟩
    rintro ⟨hk, hcl, -⟩
    exact hk ▸ hheld hcl
  · have hseq : (ExecProcessEvent.closed t).seq = some t := rfl
    rw [heq]
    by_cases hroom : rec.session.pending.size < maxPendingProcessEvents ∧
        rec.session.pendingBytes ≤ maxPendingProcessEventBytes
    · obtain ⟨i, hins⟩ := insertPending_accepts hseq (Nat.zero_le _) (.inr hroom)
      have hinser := h.reached.tracks.inserts (htr.closed_target hcl) hins
      refine .inr ⟨_, insert_of_ok hins, hinser.last, fun k => ?_⟩
      rw [hinser.held_iff]
      simp [hcl, hroom]
    · obtain ⟨m, herr⟩ := insertPending_refuses hseq (by_contra fun hpend => hnot (.inr hpend))
        (.inr ⟨(hl hcl).ne', hroom⟩)
      refine .inl ⟨m, ?_, hcl, hnot, fun htake => hroom htake.2.2⟩
      unfold Recovering.insert
      rw [herr]

/-- The exit is the next event, and no chunk lies beyond it: it is found by counting, if
nothing else is missing. -/
theorem recoverFrom_exit_iff {n : Nat} (hn : rec.session.lastPublishedSeq + 1 = n)
    (hdr : Drained rec.session) (hexit : log.ExitAt n) (hl : n ≤ t)
    (hnone : ∀ ch ∈ r.chunks, ch.seq ≤ n) :
    EndsIn (Held · n) (recoverFrom r t rec) ↔
      ∀ k ≤ t, n < k → Held rec.session k ∨ TakesClose rec.session r k := by
  subst hn
  have hother (c : ProcessOutputChunk) :
      log.event? (rec.session.lastPublishedSeq + 1) ≠ some (.output c) := by
    obtain ⟨e, hlog, hex⟩ := hexit
    rw [hlog]
    rintro ⟨⟩
    cases hex
  have hclosed (hcl : r.closed = true) : rec.session.lastPublishedSeq + 1 < t := by
    refine lt_of_le_of_ne hl ?_
    rintro rfl
    exact not_exitAt_of_closed (htr.closed_target hcl) hexit
  have hends := recoverClosed_ends h htr
  unfold recoverFrom
  rw [recoverChunks_skip htr hnone hother fun _ => id]
  show EndsIn _ ((recoverClosed r t rec).bind (recoverExited r t)) ↔ _
  rcases recoverClosed_held h htr hclosed with
    ⟨m, herr, hcl, hnot, htake⟩ | ⟨next, hok, hlast, hheld⟩
  · rw [herr]
    exact iff_of_false (not_held_next hdr) fun hall =>
      (hall t le_rfl (hclosed hcl)).elim hnot htake
  · rw [hok] at hends ⊢
    simp only [← hheld, ← hlast]
    have hnot : ¬ Held next.session (next.session.lastPublishedSeq + 1) := by
      rw [hlast, hheld, not_or]
      refine ⟨not_held_next hdr, ?_⟩
      rintro ⟨htgt, hcl, -⟩
      rw [htr.next, Nat.add_sub_cancel] at htgt
      exact (hclosed hcl).ne htgt
    show EndsIn _ (recoverExited r t next) ↔ _
    rcases recoverExited_cases hends htr with
      ⟨⟨m, heq⟩, k, hk, hmiss, hne⟩ | ⟨-, hall⟩ | ⟨exit, -, hseq, hall, ec, -, heq⟩
    · rw [heq]
      refine iff_of_false hnot fun hall => hmiss (hall k hk ?_)
      refine lt_of_le_of_ne (lt_of_not_held hmiss) ?_
      rintro rfl
      exact hne (hlast ▸ hexit)
    · exact absurd (hall _ (hlast ▸ hl)) hnot
    · obtain rfl : exit = next.session.lastPublishedSeq + 1 := hlast ▸ hseq.unique hexit
      obtain ⟨i, hins, hinser⟩ := insertPending_next
        (show (exited _ ec (some r.sandboxDenied)).seq = _ from rfl)
        (by_contra fun hpend => hnot (.inr hpend)) (Nat.zero_le _)
      rw [heq, insert_of_ok hins]
      exact iff_of_true (hinser.held_iff.mpr (.inr rfl)) fun k hk hlt => (hall k hk).mpr hlt.ne'

end

theorem finishRecovery_held {k : Nat} {recovery : Recovery} :
    Held (finishRecovery t recovery).1 k ↔ EndsIn (Held · k) recovery := by
  cases recovery with
  | error stop => exact Iff.rfl
  | ok recovered => exact (publishes_ready recovered.session).held_iff

/-- What a recovery has come by it keeps. -/
theorem recoverFrom_keeps {k : Nat} (h : EndsIn (Held · k) (recoverChunks r t rec r.chunks)) :
    EndsIn (Held · k) (recoverFrom r t rec) :=
  (h.bind fun _ _ hheld => recoverClosed_keeps r t hheld fun _ _ =>
    insertPending_held _ _ _ hheld).bind fun _ _ =>
      recoverExited_keeps r t (fun _ => id) insertPending_held

theorem recoverFrom_obtains_iff (h : Recovers log rec.session t rec) (htr : Truthful log r t)
    (hdr : Drained rec.session) (hl : rec.session.lastPublishedSeq < t)
    (hloop : LoopInfersRight log r t rec r.chunks) :
    EndsIn (Held · (rec.session.lastPublishedSeq + 1)) (recoverFrom r t rec) ↔
      Obtains log rec.session r := by
  have htgt : r.nextSeq - 1 = t := by rw [htr.next, Nat.add_sub_cancel]
  obtain ⟨e, hlog⟩ : ∃ e, log.event? (rec.session.lastPublishedSeq + 1) = some e :=
    exists_event? (Nat.succ_pos _) (hl.trans_le htr.bound)
  have hchunks := recoverChunks_held_iff h htr rfl (not_held_next hdr) hdr (fun _ => id)
    htr.inOrder hloop
  unfold Obtains
  dsimp only
  rw [htgt, hlog, and_iff_right (Nat.succ_le_of_lt hl)]
  cases e with
  | output c =>
    have hseq : c.seq = rec.session.lastPublishedSeq + 1 := Option.some.inj (seq_of_event? hlog)
    have hexit := not_exitAt_of_output (hseq ▸ hlog)
    rw [hseq] at hexit
    have hget : EndsIn (Held · (rec.session.lastPublishedSeq + 1))
        (recoverChunks r t rec r.chunks) ↔
          c ∈ r.chunks ∧ c.chunk.length ≤ maxPendingProcessEventBytes := by
      rw [hchunks, or_iff_left fun hbeyond => hexit hbeyond.1]
      refine ⟨?_, fun ⟨hch, hbyt⟩ => ⟨c, hch, hseq, hbyt⟩⟩
      rintro ⟨ch, hch, heq, hbyt⟩
      have hlog' := (htr.chunks ch hch).2
      rw [heq, hlog] at hlog'
      cases hlog'
      exact ⟨hch, hbyt⟩
    refine Iff.trans ?_ hget
    refine ⟨fun hends => by_contra fun hmiss => endsIn_not.mp ?_ hends, recoverFrom_keeps⟩
    have hboth := (recoverChunks_ends h htr (fun _ => id) hloop).and (endsIn_not.mpr hmiss)
    have hclosed := hboth.bind fun next _ ⟨hrec, hnot⟩ =>
      (recoverClosed_ends hrec htr).and (recoverClosed_misses hrec htr hnot hlog rfl)
    exact hclosed.bind fun next _ ⟨hrec, hnot⟩ => recoverExited_misses hrec htr hl hnot hexit
  | exited seq ec sd =>
    have hexit : log.ExitAt (rec.session.lastPublishedSeq + 1) := ⟨_, hlog, rfl⟩
    by_cases hbeyond : ∃ ch ∈ r.chunks, rec.session.lastPublishedSeq + 1 < ch.seq
    · exact iff_of_true (recoverFrom_keeps (hchunks.mpr (.inr ⟨hexit, hbeyond⟩))) (.inl hbeyond)
    · have hnone : ∀ ch ∈ r.chunks, ch.seq ≤ rec.session.lastPublishedSeq + 1 :=
        fun ch hch => Nat.not_lt.mp fun hlt => hbeyond ⟨ch, hch, hlt⟩
      rw [recoverFrom_exit_iff h htr rfl hdr hexit hl hnone]
      exact (or_iff_right hbeyond).symm
  | closed seq =>
    obtain rfl : rec.session.lastPublishedSeq + 1 = t :=
      le_antisymm hl (closed_last hlog rfl ▸ htr.bound)
    refine iff_of_true ?_ trivial
    unfold recoverFrom
    rw [recoverChunks_skip htr (fun ch hch => (htr.chunks ch hch).1) (fun c => by rw [hlog]; nofun)
      fun _ => id]
    show EndsIn _ ((recoverClosed r _ rec).bind _)
    rcases recoverClosed_cases h htr with ⟨-, hheld⟩ | ⟨heq, -⟩
    · exact absurd (hheld (htr.closed.mpr ⟨_, le_rfl, _, hlog, rfl⟩)) (not_held_next hdr)
    · obtain ⟨i, hins, hinser⟩ := insertPending_next
        (show (ExecProcessEvent.closed _).seq = _ from rfl) hdr (Nat.zero_le _)
      rw [heq, insert_of_ok hins]
      exact recoverExited_keeps r _ (fun _ => id) insertPending_held
        (hinser.held_iff.mpr (.inr rfl))
  | failed m => cases seq_of_event? hlog

/-- **A recovery that infers right publishes something exactly when it comes by the next
event.** -/
theorem recoverEvents_same_iff (h : Tracks log s) (hdr : Drained s) (htr : Truthful log r t)
    (hr : InfersRight log s r) :
    (recoverEvents s r).1.events = s.events ↔ (Open s → ¬ Obtains log s r) := by
  rcases recoverEvents_cases h htr with ⟨heq, hidle⟩ | ⟨⟨hal, hop, hl⟩, heq⟩
  · rw [heq]
    refine iff_of_true rfl fun hop hget => ?_
    have hle := hget.1
    rw [htr.next] at hle
    rw [hop.1, hop.2] at hidle
    simp at hidle
    omega
  · obtain ⟨hsess, hbeg⟩ := beginRecovery_spec h hal hl.le htr
    have hloop := (infersRight_iff h hdr htr ⟨hal, hop⟩ hl).mp hr
    rw [(recoverEvents_carries h hdr htr hr).same_iff h hal, forall_prop_of_true ⟨hal, hop⟩,
      not_iff_not, heq, finishRecovery_held]
    have hiff := recoverFrom_obtains_iff (hsess.symm ▸ hbeg) htr (hsess.symm ▸ hdr)
      (hsess.symm ▸ hl) hloop
    rwa [hsess] at hiff

end SushiGpt.ExecServer
