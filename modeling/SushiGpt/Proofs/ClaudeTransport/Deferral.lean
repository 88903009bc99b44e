/-
Requests that are put off.

A `tools/call` request that no open call is for is put off until the message is complete,
which binds it or fails.  But it is put off after the message as well, and then nothing reads
it again: the next request of the session starts with none put off.  Nothing is dropped in a
session exactly when no such request comes late.
-/
import SushiGpt.Proofs.ClaudeTransport.Correlation

namespace SushiGpt.ClaudeTransport

open Json CodexApi Session Option List.Forall₂
open List hiding isEmpty_iff

variable {serde : Serde} {ses final : Session} {s s' : Sampling} {replies : List Json}
  {request : Request} {o : Sampling}

/-! ### Late requests -/

namespace Sampling

/-- A `tools/call` request after the message that no open call is for. -/
def lateRequest (s : Sampling) : Input → Bool
  | .frame frame =>
    s.responseId.isSome && Exchange.isToolsCall frame &&
      match Exchange.correlate s.calls (Exchange.callParams frame) with
      | .ok [] => true
      | _ => false
  | .result _ => false

/-- None of the inputs is a late request when it is read. -/
def noneLate (serde : Serde) (parallelToolCalls : Bool) : Sampling → List Input → Bool
  | _, [] => true
  | s, input :: rest =>
    !s.lateRequest input &&
      match s.onInput serde parallelToolCalls input with
      | some (next, false) => noneLate serde parallelToolCalls next rest
      | _ => true

end Sampling

namespace Session

def sampleNoneLate (serde : Serde) (ses : Session) (request : Request) : Bool :=
  match ses.beginSample serde request.prompt request.model request.uuid with
  | .ok o => o.noneLate serde request.prompt.parallelToolCalls request.inputs
  | .error _ => true

/-- No request of the session reads a late request. -/
def noneLate (serde : Serde) : Session → List Request → Bool
  | _, [] => true
  | ses, request :: rest =>
    ses.sampleNoneLate serde request &&
      (ses.sample serde request).all fun s => noneLate serde s.session rest

end Session

/-- What an input does to the requests that have been put off. -/
inductive PutsOff (s s' : Sampling) (input : Input) : Prop where
  | nothing (hlate : s.lateRequest input = false)
      (hid : s'.responseId = s.responseId)
      (hpending : s'.session.pendingToolCalls = s.session.pendingToolCalls)
  | request (frame : Json) (hlate : s.lateRequest input = s.responseId.isSome)
      (hid : s'.responseId = s.responseId)
      (hpending : s'.session.pendingToolCalls = s.session.pendingToolCalls ++ [frame])
  /-- The message binds all of them. -/
  | message (hlate : s.lateRequest input = false) (hid : s.responseId = none)
      (hid' : s'.responseId ≠ none) (hpending : s'.session.pendingToolCalls = [])

theorem lateRequest_of_not_call {f : Json} (h : Exchange.isToolsCall f = false) :
    s.lateRequest (.frame f) = false := by
  rw [Sampling.lateRequest, h, Bool.and_false, Bool.false_and]

theorem lateRequest_of_kind {f : Json} (h : ¬ (f.get "type").isStr "control_request" = true) :
    s.lateRequest (.frame f) = false :=
  lateRequest_of_not_call (Bool.eq_false_iff.mpr fun hc => h (kind_of_isToolsCall hc))

theorem Ledger.putsOff {done : List Input} {input : Input} {returned : Bool}
    (h : Ledger serde o done s) (hs : InputStep serde s s' input returned) :
    PutsOff s s' input := by
  cases hs with
  | result item id call heff => exact .nothing rfl heff.responseId heff.pending
  | frame frame hs =>
    cases hs with
    | ignored hst hctl => exact .nothing (lateRequest_of_kind hctl) rfl rfl
    | streams hk stream hpush =>
      exact .nothing (lateRequest_of_kind (not_isStr_of_isStr hk (by decide))) rfl rfl
    | completes hk stream message _ hpush hasm =>
      obtain ⟨hasm⟩ := hasm
      have hid : s.responseId = none := hasm.first
      have hset := hasm.books h.books (h.before hid) h.final
      exact .message (lateRequest_of_kind (not_isStr_of_isStr hk (by decide))) hid
        hset.responseId hset.pending
    | controls hk exchange hctl =>
      cases hctl with
      | replies hno response hrep =>
        exact .nothing (lateRequest_of_not_call hno) rfl rfl
      | defers hc hn hdef =>
        refine .request frame ?_ rfl rfl
        rw [Sampling.lateRequest, hc, hn, Bool.and_true, Bool.and_true]
      | takes hc id call item value hfd hlk hi hmir =>
        refine .nothing ?_ rfl rfl
        rw [Sampling.lateRequest, hfd, Bool.and_false]
    | ends hk hcs exchange hfin =>
      obtain ⟨-, -, -, hsil⟩ := emitFinal_ok hfin h.final
      exact .nothing (lateRequest_of_kind (not_isStr_of_isStr hk (by decide))) rfl hsil.pending

/-- One step of the condition: what is put off after it is what was before, unless the
message has come, and nothing that is late. -/
theorem PutsOff.cleared_iff {i : Input} (h : PutsOff s s' i) :
    (s'.responseId = none ∨ s'.session.pendingToolCalls = []) ↔
      (s.responseId = none ∨ s.session.pendingToolCalls = []) ∧ s.lateRequest i = false := by
  cases h with
  | nothing hlate hid hpend =>
    rw [hid, hpend, hlate]
    exact ⟨fun h => ⟨h, rfl⟩, fun h => h.1⟩
  | request f hlate hid hpend =>
    rw [hid, hpend, hlate]
    cases s.responseId with
    | none => exact ⟨fun _ => ⟨Or.inl rfl, rfl⟩, fun _ => Or.inl rfl⟩
    | some id => simp
  | message hlate hid hid' hpend =>
    rw [hpend, hlate, hid]
    exact ⟨fun _ => ⟨Or.inl rfl, rfl⟩, fun _ => Or.inr rfl⟩

/-- **What a request has put off at its end is what it has read late.** -/
theorem Ledger.cleared_iff {ptc r : Bool} (inputs : List Input) :
    ∀ {d : List Input} {s : Sampling},
      Ledger serde o d s → s.session.heldReply = none →
      s.loop serde ptc inputs = some (s', r) →
      ((s'.responseId = none ∨ s'.session.pendingToolCalls = []) ↔
        (s.responseId = none ∨ s.session.pendingToolCalls = []) ∧
          s.noneLate serde ptc inputs = true) := by
  induction inputs with
  | nil =>
    intro d s _ _ hloop
    cases hloop
    exact ⟨fun h => ⟨h, rfl⟩, fun h => h.1⟩
  | cons i rest ih =>
    intro d s h hheld hloop
    unfold Sampling.loop at hloop
    unfold Sampling.noneLate
    split at hloop
    · cases hloop
    · next next hinp =>
      have hs := onInput_step hinp
      obtain ⟨hnext, hheld'⟩ := h.input hheld hs
      rw [ih hnext (hheld' rfl) hloop, (h.putsOff hs).cleared_iff, hinp,
        Bool.and_eq_true, Bool.not_eq_true', and_assoc]
    · next next hinp =>
      split_ifs at hloop with hem
      cases hloop
      rw [(h.putsOff (onInput_step hinp)).cleared_iff, hinp, Bool.and_true, Bool.not_eq_true']

/-! ### Requests that have their reply -/

/-- When a request returns, all its calls have their results. -/
theorem loop_returned {parallelToolCalls : Bool} (inputs : List Input) :
    ∀ {s : Sampling},
      s.loop serde parallelToolCalls inputs = some (s', true) →
      ∀ entry ∈ s'.calls, entry.2.finished = true := by
  induction inputs with
  | nil => exact fun hloop => nomatch hloop
  | cons input rest ih =>
    intro s hloop
    unfold Sampling.loop at hloop
    split at hloop
    · cases hloop
    · next next hinp => exact ih hloop
    · next next hinp =>
      split_ifs at hloop
      cases hloop
      cases onInput_step hinp with
      | result item id call heff => exact heff.finished rfl
      | frame frame hs =>
        cases hs with
        | ends hk hcs exchange hfin =>
          intro entry he
          rw [(emitFinal_same hfin).2, hcs] at he
          cases he

def boundTo (calls : Calls) (id : Text) : Option Json :=
  (calls.lookup id).bind ToolCall.request

theorem filterMap_boundTo {cs : Calls} (hnd : (cs.map Prod.fst).Nodup) :
    (cs.map Prod.fst).filterMap (boundTo cs) = cs.filterMap fun e => e.2.request := by
  rw [filterMap_map]
  refine filterMap_congr fun e he => ?_
  show (cs.lookup e.1).bind ToolCall.request = _
  rw [Lists.lookup_of_mem hnd he]
  rfl

theorem carries_of_answers {cs : Calls} (hnd : (cs.map Prod.fst).Nodup)
    {l : List ResponseItem} (h : List.Forall₂ (Answers cs) l replies) :
    List.Forall₂ Carries ((l.filterMap resultId).filterMap (boundTo cs)) replies := by
  induction h with
  | nil => exact nil
  | cons hans _ ih =>
    obtain ⟨id, call, request, c, ie, hid, hmem, -, hreq, -, rfl⟩ := hans
    have hbound : boundTo cs id = some request := by
      rw [boundTo, Lists.lookup_of_mem hnd hmem]
      exact hreq
    rw [filterMap_cons_some hid, filterMap_cons_some hbound]
    exact cons (carries_toolReply ..) ih

/-- Every request that has been read has its own reply. -/
def Answered (requests replies : List Json) : Prop :=
  ∃ order, requests.Perm order ∧ List.Forall₂ Carries order replies

theorem Answered.append {first s replies' : List Json} (h : Answered first replies)
    (h' : Answered s replies') : Answered (first ++ s) (replies ++ replies') := by
  obtain ⟨o, hperm, hcar⟩ := h
  obtain ⟨o', hperm', hcar'⟩ := h'
  exact ⟨o ++ o', hperm.append hperm', rel_append hcar hcar'⟩

theorem Ledger.answered {d : List Input} (h : Ledger serde o d s)
    (hpend : s.session.pendingToolCalls = []) (hfin : ∀ e ∈ s.calls, e.2.finished = true)
    (hrep : List.Forall₂ (Answers s.calls) (results d) replies) :
    Answered (toolRequests d) replies := by
  refine ⟨_, ?_, carries_of_answers h.books.ids hrep⟩
  have hall : finishedIds s.calls = s.calls.map Prod.fst := by
    rw [finishedIds, ← filterMap_eq_map]
    exact filterMap_congr fun e he => if_pos (hfin e he)
  have hreqs := h.books.requests
  rw [hpend, append_nil, ← filterMap_boundTo h.books.ids, ← hall] at hreqs
  exact hreqs.trans (h.finished.symm.filterMap _)

/-! ### The whole session -/

/-- What it takes for a request to return `Ok`. -/
structure Returns (serde : Serde) (ses : Session) (request : Request) (s : Sampling) :
    Prop where
  ledger : ∃ o, ses.beginSample serde request.prompt request.model request.uuid =
      .ok o ∧ Ledger serde o request.inputs s ∧
    (s.session.pendingToolCalls = [] ↔
      o.noneLate serde request.prompt.parallelToolCalls request.inputs = true)
  finished : ∀ entry ∈ s.calls, entry.2.finished = true
  writes : ∃ frames replies, Writes ses s.session frames replies ∧
    List.Forall₂ (Answers s.calls) (results request.inputs) replies

theorem sample_returns (h : ses.sample serde request = some s) : Returns serde ses request s := by
  obtain ⟨o, hop, h⟩ := bind_eq_some_iff.mp h
  rw [toOption_eq_some] at hop
  obtain ⟨⟨s', r⟩, hloop, h⟩ := bind_eq_some_iff.mp h
  dsimp only at h
  split_ifs at h with hret
  cases h
  rw [Bool.and_eq_true] at hret
  obtain ⟨rfl, hcomp⟩ := hret
  have hid : s.responseId ≠ none := by
    intro hn
    unfold Sampling.completed at hcomp
    rw [hn] at hcomp
    cases hcomp
  obtain ⟨hled, hheld, first, hfst, hopening⟩ := beginSample_ledger hop
  have hled' : Ledger serde o request.inputs s := hled.loop request.inputs hheld hloop
  obtain ⟨fs, htrans⟩ := hled'.transcript
  refine ⟨⟨o, hop, hled', ?_⟩, loop_returned _ hloop, ?_⟩
  · have hclear := hled.cleared_iff request.inputs hheld hloop
    have hst : o.responseId = none := (beginSample_ok hop).responseId
    simpa [hid, hst] using hclear
  · refine ⟨first :: fs, _, .of_opening hopening ?_, htrans.replies⟩
    rw [htrans.written, hfst, append_assoc]
    rfl

theorem noneLate_cons {r : List Request} (h : ses.sample serde request = some s) :
    ses.noneLate serde (request :: r) = true ↔
      s.session.pendingToolCalls = [] ∧ s.session.noneLate serde r = true := by
  obtain ⟨o, hop, -, hclear⟩ := (sample_returns h).ledger
  rw [noneLate, sampleNoneLate, hop, h, Bool.and_eq_true, hclear, all_some]

theorem samples_cons {r : List Request} :
    ses.samples serde (request :: r) = some final ↔
      ∃ s, ses.sample serde request = some s ∧ s.session.samples serde r = some final :=
  bind_eq_some_iff

/-- The requests that the process has sent since the session started. -/
def requestsRead (requests : List Request) : List Json :=
  requests.flatMap fun request => toolRequests request.inputs

/-- A session without late requests answers everything it reads. -/
theorem samples_answered (requests l : List Request) : ∀ {ses final : Session},
    ses.samples serde requests = some final →
    ses.noneLate serde (requests ++ l) = true → ses.pendingToolCalls = [] →
    final.pendingToolCalls = [] ∧ ∃ fs replies, Writes ses final fs replies ∧
      Answered (requestsRead requests) replies := by
  induction requests with
  | nil =>
    intro ses final hrun _ hpend
    cases hrun
    exact ⟨hpend, [], [], .refl ses, [], List.Perm.refl _, nil⟩
  | cons request r ih =>
    intro ses final hrun hlate _
    obtain ⟨s, hsam, hrest⟩ := samples_cons.mp hrun
    obtain ⟨hclear, hlate'⟩ := (noneLate_cons hsam).mp hlate
    have hret := sample_returns hsam
    obtain ⟨o, -, hled, -⟩ := hret.ledger
    obtain ⟨fs, replies, hwrit, hrep⟩ := hret.writes
    have hans := hled.answered hclear hret.finished hrep
    obtain ⟨hpend', fs', replies', hwrit', hans'⟩ := ih hrest hlate' hclear
    exact ⟨hpend', _, _, hwrit.trans hwrit', hans.append hans'⟩

theorem noneLate_of_cleared (requests : List Request) : ∀ {ses final : Session},
    ses.samples serde requests = some final →
    (∀ e r, e <+: requests → e ≠ [] → ses.samples serde e = some r → r.pendingToolCalls = []) →
    ses.noneLate serde requests = true := by
  induction requests with
  | nil => exact fun _ _ => rfl
  | cons request rest ih =>
    intro ses final hrun hclear
    obtain ⟨s, hsam, hrest⟩ := samples_cons.mp hrun
    refine (noneLate_cons hsam).mpr ⟨?_, ih hrest fun e r hpre _ hreac => ?_⟩
    · exact hclear [request] s.session (prefix_append [request] rest) nofun
        (samples_cons.mpr ⟨s, hsam, rfl⟩)
    · exact hclear (request :: e) r (cons_prefix_cons.mpr ⟨rfl, hpre⟩)
        nofun (samples_cons.mpr ⟨s, hsam, hreac⟩)

/-! ### Starting -/

/-- A session that has read no call and owes no reply. -/
structure Fresh (ses : Session) : Prop where
  heldReply : ses.heldReply = none
  pending : ses.pendingToolCalls = []
  written : ses.written.filter isToolReply = []

theorem handshake_fresh (fs : List Json) : ∀ {ses ses' : Session}, Fresh ses →
    ses.handshake serde fs = some ses' →
    Fresh ses' ∧ fs.filter Exchange.isToolsCall = [] := by
  induction fs with
  | nil => exact fun _ hrun => nomatch hrun
  | cons f rest ih =>
    intro ses ses' h hrun
    unfold handshake at hrun
    by_cases hk : (f.get "type").isStr "control_response" = true
    · have hc : ¬ Exchange.isToolsCall f = true := fun hc =>
        not_isStr_of_isStr hk (by decide) (kind_of_isToolsCall hc)
      split_ifs at hrun with hsuc
      cases hrun
      simp only [Bool.and_eq_true, List.isEmpty_iff] at hsuc
      rw [filter_cons_of_neg hc, hsuc.2]
      exact ⟨h, rfl⟩
    · rw [if_neg hk] at hrun
      split at hrun
      · next x hctl =>
        rcases control_step hctl with ⟨hc, r, hrep⟩ | ⟨-, -, hdef⟩ | ⟨-, id, c, i, v, -, hlk⟩
        · have hnext : Fresh (ses.write (Exchange.controlResponse f r)) := by
            refine ⟨h.heldReply, h.pending, ?_⟩
            show (ses.written ++ [Exchange.controlResponse f r]).filter isToolReply = []
            rw [filter_append, h.written, nil_append]
            exact filter_cons_of_neg (by rw [not_isToolReply_reply hrep]; exact nofun)
          rw [filter_cons_of_neg (Bool.eq_false_iff.mp hc)]
          exact ih hnext hrun
        · cases hdef
        · cases hlk
      · cases hrun

theorem start_fresh {p : Prompt} {m : Text} {fs : List Json} (h : start serde p m fs = some ses) :
    Fresh ses ∧ fs.filter Exchange.isToolsCall = [] := by
  unfold start at h
  split at h
  · split at h
    · refine handshake_fresh fs ⟨rfl, rfl, ?_⟩ h
      refine filter_cons_of_neg ?_
      simp [isToolReply, initializeRequest, get_object_eq]
      rfl
    · cases h
  · cases h

/-- Nothing that has been read since the session started is dropped: every `tools/call`
request has its own reply, written or held, and none is put off. -/
structure NothingDropped (frames : List Json) (requests : List Request) (ses : Session) :
    Prop where
  answered : Answered (frames.filter Exchange.isToolsCall ++ requestsRead requests)
    ((ses.written ++ ses.heldReply.toList).filter isToolReply)
  pending : ses.pendingToolCalls = []

/-- **Whenever a request of a session returns `Ok` nothing has been dropped, exactly when
no `tools/call` request without an open call is read after the message.** -/
theorem nothing_dropped_iff {prompt : Prompt} {model : Text} {frames : List Json}
    {session final : Session} {requests : List Request}
    (hstart : start serde prompt model frames = some session)
    (hrun : session.samples serde requests = some final) :
    (∀ earlier reached, earlier <+: requests → session.samples serde earlier = some reached →
        NothingDropped frames earlier reached) ↔
      session.noneLate serde requests = true := by
  obtain ⟨hfresh, hn⟩ := start_fresh hstart
  constructor
  · intro hkept
    exact noneLate_of_cleared requests hrun fun earlier reached hpre _ hreac =>
      (hkept earlier reached hpre hreac).pending
  · rintro hlate earlier reached ⟨l, rfl⟩ hreac
    obtain ⟨hpend, w, replies, hwrit, hans⟩ := samples_answered earlier l hreac hlate hfresh.pending
    refine ⟨?_, hpend⟩
    have hrep := hwrit.replied
    rw [hfresh.heldReply, toList_none, filter_nil, nil_append] at hrep
    rw [hn, nil_append, hwrit.written, append_assoc, filter_append,
      hfresh.written, nil_append, hrep]
    exact hans

/-! A session that answers its one call, and one whose only call comes late. -/

def initialized : List Json :=
  [object [("type", str "control_response".toList),
    ("response", object [("request_id", str "native-initialize".toList),
      ("subtype", str "success".toList)])]]

/-- The message has no call when the request for one is read. -/
def callLate : Request where
  prompt := askOnce
  model := []
  uuid := []
  inputs := readBy [startMessage, stopMessage, requestCall 0, turnResult]

/-- What a session does with the requests: whether none is late, and how many are put off. -/
def deferred (requests : List Request) : Option (Bool × Nat) := do
  let ses ← start wireSerde askOnce [] initialized
  let final ← ses.samples wireSerde requests
  some (ses.noneLate wireSerde requests, final.pendingToolCalls.length)

theorem exists_of_deferred {requests : List Request} {nl : Bool} {c : Nat}
    (h : deferred requests = some (nl, c)) :
    ∃ ses final, start wireSerde askOnce [] initialized = some ses ∧
      ses.samples wireSerde requests = some final ∧
      ses.noneLate wireSerde requests = nl ∧
      final.pendingToolCalls.length = c := by
  simp only [deferred, bind_eq_bind, bind_eq_some_iff] at h
  obtain ⟨ses, hst, final, hrun, h⟩ := h
  obtain ⟨hlate, hc⟩ := Prod.mk.inj (some.inj h)
  exact ⟨ses, final, hst, hrun, hlate, hc⟩

theorem one_call_not_dropped :
    ∃ session final, start wireSerde askOnce [] initialized = some session ∧
      session.samples wireSerde [callOnce, answerOnce] = some final ∧
      NothingDropped initialized [callOnce, answerOnce] final := by
  have hdef : deferred [callOnce, answerOnce] = some (true, 0) := by decide +kernel
  obtain ⟨session, final, hst, hrun, hlate, -⟩ := exists_of_deferred hdef
  exact ⟨session, final, hst, hrun,
    (nothing_dropped_iff hst hrun).mpr hlate _ final prefix_rfl hrun⟩

theorem late_call_dropped :
    ∃ session final, start wireSerde askOnce [] initialized = some session ∧
      session.samples wireSerde [callLate] = some final ∧
      final.pendingToolCalls ≠ [] ∧ ¬ NothingDropped initialized [callLate] final := by
  have hdef : deferred [callLate] = some (false, 1) := by decide +kernel
  obtain ⟨session, final, hst, hrun, -, hc⟩ := exists_of_deferred hdef
  have hpend : final.pendingToolCalls ≠ [] := ne_nil_of_length_eq_add_one hc
  exact ⟨session, final, hst, hrun, hpend, fun hkept => hpend hkept.pending⟩

end SushiGpt.ClaudeTransport
