/-
Whether the events a client publishes are those of the server.

A session publishes the events of the log in order, until a recovery takes dropped output for
the exit, or until something is published after a call has failed.  Neither can be told from
the session alone: the first needs the log, the second that a failed call and its
`set_failure` are two steps.
-/
import SushiGpt.Lib.Machine
import SushiGpt.Proofs.ExecServer.Inference

namespace SushiGpt.ExecServer

open SessionState List Option ExecProcessEvent Client ServerLog Machine

variable {log : ServerLog} {s s' : SessionState}

/-! ### What is to be published -/

/-- Nothing, or one `Failed`. -/
def OnlyFailed (events : List ExecProcessEvent) : Prop :=
  events = [] ∨ ∃ message, events = [.failed message]

/-- The events of the client are the first events of the log, and at most one `Failed` after
them; after a call has failed, only the `Failed` comes. -/
structure Exact (log : ServerLog) (client : Client) : Prop where
  published : ∃ (n : Nat) (failure : Option Text), client.session.events =
    log.events.take n ++ (failure.map failed).toList
  afterError : ∀ k ∈ client.erredAt, OnlyFailed (client.session.events.drop k)

/-- What holds of a client whose events are exact. -/
structure Follows (log : ServerLog) (client : Client) : Prop where
  tracks : Tracks log client.session
  drained : Drained client.session
  responses : ∀ response ∈ client.responses, ∃ emitted evicted after,
    response = log.answer emitted evicted after
  erred : ∀ k ∈ client.erredAt, k ≤ client.session.events.length

/-- A step that infers no exit where there is none, and does not come by the next event after a
call has failed. -/
def Harmless (log : ServerLog) (client : Client) : ClientAction → Prop
  | .deliver seq => ∀ event ∈ log.event? seq, client.erredAt.isSome → Open client.session →
      seq = client.session.lastPublishedSeq + 1 →
      maxPendingProcessEventBytes < pendingProcessEventBytes event
  | .recover index => ∀ response ∈ client.responses[index]?,
      InfersRight log client.session response ∧
        (client.erredAt.isSome → Open client.session → ¬ Obtains log client.session response)
  | _ => True

instance (log : ServerLog) (client : Client) : ∀ action, Decidable (Harmless log client action)
  | .deliver seq => inferInstanceAs (Decidable (∀ event ∈ log.event? seq, _ → _))
  | .recover index => inferInstanceAs (Decidable (∀ response ∈ client.responses[index]?, _ ∧ _))
  | .emit | .request | .answer .. | .readFails _ | .setFailure _ | .connectionFails _ =>
    .isTrue trivial

theorem not_exact_of_invents {c : Client} (h : Invents log c.session) : ¬ Exact log c := by
  rintro ⟨⟨m, f, hevs⟩, -⟩
  obtain ⟨n, ec, d, hpre, hexit⟩ := h
  have hmem : .exited (n + 1) ec d ∈ c.session.events :=
    hpre.subset (mem_append_right _ (mem_singleton_self _))
  rw [hevs, mem_append] at hmem
  rcases hmem with hmem | hmem
  · obtain ⟨seq, -, hlog⟩ := mem_take_iff.mp hmem
    obtain rfl : n + 1 = seq := Option.some.inj (seq_of_event? hlog)
    exact hexit ⟨_, hlog, rfl⟩
  · cases f with
    | none => cases hmem
    | some msg => cases mem_singleton.mp hmem

/-- As long as nothing has failed, no `Failed` is published. -/
theorem Tracks.nothing_after {k : Nat} (h : Tracks log s) (hal : s.failure = none)
    (haft : OnlyFailed (s.events.drop k)) : s.events.drop k = [] := by
  refine haft.resolve_right ?_
  rintro ⟨m, hfl⟩
  have hmem : .failed m ∈ s.events := mem_of_mem_drop (hfl ▸ mem_singleton_self _)
  rw [h.events_of_alive hal] at hmem
  obtain ⟨seq, -, hlog⟩ := mem_take_iff.mp hmem
  cases seq_of_event? hlog

/-- After an error a call keeps the events exact only by publishing nothing. -/
theorem Carries.onlyFailed_iff {k : Nat} (h : Tracks log s) (hcar : Carries log s s')
    (hk : k ≤ s.events.length) (hbefore : OnlyFailed (s.events.drop k)) :
    OnlyFailed (s'.events.drop k) ↔ s'.events = s.events := by
  refine ⟨fun haft => ?_, fun heq => heq ▸ hbefore⟩
  by_cases hal : s.failure = none
  · have hal' : s'.failure = none := hcar.failure.trans hal
    have hevs := h.events_of_alive hal
    have hevs' := hcar.tracks.events_of_alive hal'
    have hbound := hcar.tracks.bound
    have hle := hcar.le
    have hem := hcar.tracks.nothing_after hal' haft
    rw [drop_eq_nil_iff, hevs', length_take] at hem
    rw [hevs, length_take] at hk
    rw [hevs, hevs', show s'.lastPublishedSeq = s.lastPublishedSeq by omega]
  · exact hcar.same hal

theorem Carries.length_le (h : Tracks log s) (hcar : Carries log s s') :
    s.events.length ≤ s'.events.length := by
  by_cases hal : s.failure = none
  · have hle := hcar.le
    rw [h.events_of_alive hal,
      hcar.tracks.events_of_alive (hcar.failure.trans hal), length_take,
      length_take]
    omega
  · rw [hcar.same hal]

/-! ### Steps -/

section

variable {c c' : Client} {processId : Text}

/-- A call that leaves the session following the log.  It may have failed. -/
theorem Follows.call (hfol : Follows log c) (hex : Exact log c)
    (hcar : Carries log c.session c'.session) (hres : c'.responses = c.responses)
    (herr : c'.erredAt = c.erredAt ∨ c'.erredAt = c.erredAt.or (some c'.session.events.length)) :
    (Exact log c' ↔
      (c.erredAt.isSome → c'.session.events = c.session.events)) ∧
      (Exact log c' → Follows log c') := by
  have hpub : ∃ (n : Nat) (f : Option Text), c'.session.events =
      log.events.take n ++ (f.map failed).toList :=
    ⟨_, _, hcar.tracks.published⟩
  have hlen := hcar.length_le hfol.tracks
  cases hat : c.erredAt with
  | none =>
    have hall : ∀ k ∈ c'.erredAt, k = c'.session.events.length := by
      intro k hk
      rw [hat] at herr
      rcases herr with herr | herr
      · rw [herr] at hk
        cases hk
      · rw [herr] at hk
        exact (Option.some.inj hk).symm
    refine ⟨iff_of_true ⟨hpub, fun k hk => ?_⟩ nofun, fun _ => ⟨hcar.tracks,
      hcar.drained, hres ▸ hfol.responses, fun k hk => (hall k hk).le⟩⟩
    rw [hall k hk, drop_length]
    exact .inl rfl
  | some k =>
    have hat' : c'.erredAt = some k := by
      rw [hat] at herr
      exact herr.elim id id
    have hk := hfol.erred k hat
    have honly := hcar.onlyFailed_iff hfol.tracks hk (hex.afterError k hat)
    refine ⟨⟨fun haft _ => honly.mp (haft.afterError k hat'), fun hsame => ?_⟩, fun _ =>
      ⟨hcar.tracks, hcar.drained, hres ▸ hfol.responses, fun k' hk' => ?_⟩⟩
    · refine ⟨hpub, fun k' hk' => ?_⟩
      rw [hat'] at hk'
      cases hk'
      exact honly.mpr (hsame rfl)
    · rw [hat'] at hk'
      cases hk'
      exact hk.trans hlen

/-- `set_failure` publishes one `Failed`, and only the first time. -/
theorem Follows.setFailure (hfol : Follows log c) (hex : Exact log c)
    (message : Text) (errors : List Text) :
    Exact log { c with session := c.session.setFailure message, errors } ∧
      Follows log { c with session := c.session.setFailure message, errors } := by
  unfold SessionState.setFailure
  split_ifs with hidle
  · exact ⟨{ hex with }, { hfol with }⟩
  · simp only [Bool.or_eq_true, not_or, Bool.not_eq_true, isSome_eq_false_iff,
      isNone_iff_eq_none] at hidle
    have hevs := hfol.tracks.events_of_alive hidle.1
    refine ⟨⟨⟨_, some message, congrArg (· ++ [failed message]) hevs⟩,
      fun k hk => ?_⟩, ⟨?_, rfl, hfol.responses, fun k hk => ?_⟩⟩
    · have hle := hfol.erred k hk
      have hem := hfol.tracks.nothing_after hidle.1 (hex.afterError k hk)
      right
      refine ⟨message, ?_⟩
      rw [drop_append_of_le_length hle, hem]
      rfl
    · exact ⟨hfol.tracks.bound, congrArg (· ++ [failed message]) hevs,
        nofun, hfol.tracks.exited, hfol.tracks.closed, rfl⟩
    · rw [length_append]
      exact (hfol.erred k hk).trans (Nat.le_add_right ..)

theorem step_exact {action : ClientAction} (hfol : Follows log c)
    (hex : Exact log c) (hs : c.step processId log action = some c') :
    (Exact log c' ↔ Harmless log c action) ∧ (Exact log c' → Follows log c') := by
  cases action with
  | emit =>
    dsimp only [step] at hs
    split_ifs at hs
    cases hs
    exact ⟨iff_of_true { hex with } trivial, fun _ => { hfol with }⟩
  | deliver seq =>
    dsimp only [step] at hs
    split_ifs at hs
    obtain ⟨e, hlog, rfl⟩ := map_eq_some_iff.mp hs
    have hcar := publishOrderedEvent_carries hfol.tracks hfol.drained hlog
    have hhar : Harmless log c (.deliver seq) ↔ (c.erredAt.isSome →
        (c.session.publishOrderedEvent e).1.events = c.session.events) := by
      simp [Harmless, hlog, publishOrderedEvent_same_iff hfol.tracks hfol.drained hlog]
    rw [hhar]
    generalize c.session.publishOrderedEvent e = called at hcar ⊢
    rcases called with ⟨ses, message | closed⟩
    · exact hfol.call hex hcar rfl (.inr rfl)
    · exact hfol.call hex (hcar.noteChange seq) rfl (.inl rfl)
  | request =>
    cases hs
    exact ⟨iff_of_true { hex with } trivial, fun _ => { hfol with }⟩
  | answer index evicted =>
    obtain ⟨after, -, rfl⟩ := map_eq_some_iff.mp hs
    exact ⟨iff_of_true { hex with } trivial, fun _ => { hfol with
      responses := forall_mem_append.mpr
        ⟨hfol.responses, forall_mem_singleton.mpr ⟨_, _, _, rfl⟩⟩ }⟩
  | recover index =>
    obtain ⟨r, hresp, rfl⟩ := map_eq_some_iff.mp hs
    obtain ⟨emitted, evicted, after, rfl⟩ := hfol.responses r (mem_of_getElem? hresp)
    have htr := answer_truthful log emitted evicted after
    by_cases hr : InfersRight log c.session (log.answer emitted evicted after)
    · have hcar := recoverEvents_carries hfol.tracks hfol.drained htr hr
      have hhar : Harmless log c (.recover index) ↔ (c.erredAt.isSome →
          (c.session.recoverEvents (log.answer emitted evicted after)).1.events =
            c.session.events) := by
        rw [recoverEvents_same_iff hfol.tracks hfol.drained htr hr]
        simp [Harmless, hresp, hr]
      rw [hhar]
      generalize c.session.recoverEvents _ = called at hcar ⊢
      rcases called with ⟨ses, message | closed⟩
      · exact hfol.call hex hcar rfl (.inr rfl)
      · exact hfol.call hex hcar rfl (.inl rfl)
    · have hinv := (recoverEvents_invents hfol.tracks hfol.drained htr hr).2
      have hnot : ∀ reached : Client, reached.session =
          (c.session.recoverEvents (log.answer emitted evicted after)).1 → ¬ Exact log reached := by
        intro reached hsess
        exact not_exact_of_invents (hsess ▸ hinv)
      generalize c.session.recoverEvents _ = called at hnot ⊢
      rcases called with ⟨ses, message | closed⟩
      all_goals exact ⟨iff_of_false (hnot _ rfl) fun h => hr (h _ hresp).1,
        fun hex => absurd hex (hnot _ rfl)⟩
  | readFails error =>
    cases hs
    have hc : (Exact log (c.fails (recoveryMessage processId error)) ↔
        (c.erredAt.isSome → c.session.events = c.session.events)) ∧ _ :=
      hfol.call hex (.refl hfol.tracks hfol.drained) rfl (.inr rfl)
    exact ⟨iff_of_true (hc.1.mpr fun _ => rfl) trivial, hc.2⟩
  | setFailure index =>
    obtain ⟨message, -, rfl⟩ := map_eq_some_iff.mp hs
    have hfails := hfol.setFailure hex message (c.errors.eraseIdx index)
    exact ⟨iff_of_true hfails.1 trivial, fun _ => hfails.2⟩
  | connectionFails message =>
    cases hs
    have hfails := hfol.setFailure hex message c.errors
    exact ⟨iff_of_true hfails.1 trivial, fun _ => hfails.2⟩

/-- **The events a client publishes are exact exactly when no step of its run finds the first
gap before a chunk where the exit is not, or comes by the next event after a call has
failed.** -/
theorem client_exact_iff {actions : List ClientAction} {final : Client}
    (hrun : run (step processId log) .start actions = some final) :
    Machine.Throughout (step processId log) (Exact log) .start actions ↔
      Machine.Along (step processId log) (Harmless log) .start actions := by
  refine throughout_iff_along
    (fun _ _ _ hfol hex hs => (step_exact hfol hex hs).2)
    (fun _ _ _ hfol hex hs => (step_exact hfol hex hs).1) actions ?_ ?_ hrun
  · exact ⟨tracks_new, rfl, nofun, nofun⟩
  · exact ⟨⟨0, none, rfl⟩, nofun⟩

end

/-! Two chunks of output and the exit. -/

def twoChunks : ServerLog where
  events := [.output ⟨1, .stdout, [97]⟩, .output ⟨2, .stdout, [98]⟩, .exited 3 0 (some false)]
  numbered
    | 0, _, rfl => rfl
    | 1, _, rfl => rfl
    | 2, _, rfl => rfl
  exitedOnce := by
    have hlast : ∀ (i : Nat) (event : ExecProcessEvent),
        [output ⟨1, .stdout, [97]⟩, .output ⟨2, .stdout, [98]⟩,
          .exited 3 0 (some false)][i]? = some event → event.isExited → i = 2
      | 0, _, rfl, hexited => nomatch hexited
      | 1, _, rfl, hexited => nomatch hexited
      | 2, _, rfl, _ => rfl
    intro i j a b ha hb hexited hexited'
    rw [hlast i a ha hexited, hlast j b hb hexited']
  closedLast
    | 0, _, rfl, hclosed => nomatch hclosed
    | 1, _, rfl, hclosed => nomatch hclosed
    | 2, _, rfl, hclosed => nomatch hclosed
  judged := by
    intro seq exitCode sandboxDenied hmem
    simp only [mem_cons, reduceCtorEq, exited.injEq, not_mem_nil, or_false, false_or] at hmem
    rw [hmem.2.2]
    rfl

/-- Every notification is lost; a recovery finds everything retained. -/
def recoverRetained : List ClientAction :=
  [.emit, .emit, .emit, .request, .answer 0 0, .recover 0]

theorem recover_retained_exact :
    ∃ final, run (step [] twoChunks) .start recoverRetained = some final ∧
      Machine.Throughout (step [] twoChunks) (Exact twoChunks) .start recoverRetained := by
  refine ⟨_, rfl, (client_exact_iff rfl).mpr ?_⟩
  decide +kernel

/-- Every notification is lost; by the time of the recovery the first chunk has been dropped. -/
def recoverEvicted : List ClientAction :=
  [.emit, .emit, .emit, .request, .answer 0 1, .recover 0]

/-- The recovery fails because the first chunk has been dropped; then its notification
arrives. -/
def deliverAfterError : List ClientAction :=
  [.emit, .emit, .emit, .deliver 3, .request, .answer 0 1, .recover 0, .deliver 1]

/-- The events after a run, and how many there were at the first error. -/
def eventsAfter (actions : List ClientAction) : Option (List ExecProcessEvent × Option Nat) :=
  (run (step [] twoChunks) .start actions).map fun client => (client.session.events, client.erredAt)

theorem client_not_exact :
    (∃ final, run (step [] twoChunks) .start recoverEvicted = some final ∧
      ¬ Exact twoChunks final) ∧
    (∃ final, run (step [] twoChunks) .start deliverAfterError = some final ∧
      ¬ Exact twoChunks final) := by
  constructor
  · have hevs : eventsAfter recoverEvicted = some
        ([.exited 1 0 (some false), .output ⟨2, .stdout, [98]⟩], some 2) := by decide +kernel
    obtain ⟨final, hrun, hfin⟩ := map_eq_some_iff.mp hevs
    refine ⟨final, hrun, not_exact_of_invents ⟨0, 0, some false, ?_, by decide⟩⟩
    rw [(Prod.mk.inj hfin).1]
    decide
  · have hevs : eventsAfter deliverAfterError = some (twoChunks.events, some 0) := by
      decide +kernel
    obtain ⟨final, hrun, hfin⟩ := map_eq_some_iff.mp hevs
    obtain ⟨hpub, hat⟩ := Prod.mk.inj hfin
    refine ⟨final, hrun, fun hex => ?_⟩
    have honly := hex.afterError 0 hat
    rw [hpub] at honly
    rcases honly with h | ⟨message, h⟩ <;> cases h

end SushiGpt.ExecServer
