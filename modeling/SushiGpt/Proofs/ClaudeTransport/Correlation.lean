/-
Tool calls over the requests of a session.

A request keeps its ledger from its first frame on, whatever it reads.  The reply to the last
result is held at its end and is the first frame of the next request, so over the whole
session the results that have been read and the replies to `tools/call` requests correspond
one to one, in order.
-/
import SushiGpt.Proofs.ClaudeTransport.Ledger
import SushiGpt.Proofs.ClaudeTransport.Duplex

namespace SushiGpt.ClaudeTransport

open Json CodexApi List Option

variable {serde : Serde} {session : Session} {ret : Bool} {u : Text} {state : Sampling}

/-! ### One request -/

theorem toOption_eq_some {ε α : Type} {r : Except ε α} {a : α} :
    r.toOption = some a ↔ r = .ok a := by
  cases r with
  | error e => exact ⟨nofun, nofun⟩
  | ok b => exact ⟨fun h => by cases h; rfl, fun h => by cases h; rfl⟩

inductive InputStep (serde : Serde) (state state' : Sampling) : Input → Bool → Prop where
  | frame {ret : Bool} (frame : Json)
      (hstep : FrameStep serde state frame state' ret) :
      InputStep serde state state' (.frame frame) ret
  | result {ret : Bool} (item : ResponseItem) (id : Text) (call : ToolCall)
      (heffect : ResultEffect serde state state' item ret id call) :
      InputStep serde state state' (.result item) ret

theorem onInput_step {state' : Sampling} {parallelToolCalls : Bool} {input : Input}
    (h : state.onInput serde parallelToolCalls input = some (state', ret)) :
    InputStep serde state state' input ret := by
  cases input with
  | frame frame => exact .frame frame (onFrame_step (toOption_eq_some.mp h))
  | result item =>
    dsimp only [Sampling.onInput] at h
    split_ifs at h
    obtain ⟨id, call, heff⟩ := onResult_ok (toOption_eq_some.mp h)
    exact .result item id call heff

theorem FrameStep.heldReply {state' : Sampling} {f : Json} (h : FrameStep serde state f state' ret)
    (hbefore : state.responseId = none → state.calls = []) :
    state'.session.heldReply = state.session.heldReply := by
  cases h with
  | ignored hst hctl | streams hk str hpush => rfl
  | completes hk str m _ hpush hasm =>
    obtain ⟨hasm⟩ := hasm
    obtain ⟨-, l, hopens⟩ := hasm.opens (hbefore hasm.first)
    exact hopens.emits.heldReply
  | controls hk x hs =>
    rcases control_ok hs with ⟨-, hem, -⟩ | ⟨-, -, i, hem, -⟩ <;> exact hem.heldReply
  | ends hk hcs x hfin =>
    exact (emitFinal_same hfin).1

namespace Ledger

variable {opened state state' : Sampling} {d : List Input}

theorem input {input : Input} (h : Ledger serde opened d state)
    (hheld : state.session.heldReply = none) (hs : InputStep serde state state' input ret) :
    Ledger serde opened (d ++ [input]) state' ∧
      (ret = false → state'.session.heldReply = none) := by
  cases hs with
  | frame frame hs =>
    exact ⟨h.frame hs, fun _ => (hs.heldReply h.before).trans hheld⟩
  | result item id call heff =>
    exact ⟨h.result hheld heff, fun hret => (heff.heldReply hret).trans hheld⟩

/-- **The loop keeps the ledger, whatever it reads.** -/
theorem loop {ptc : Bool} (inputs : List Input) :
    ∀ {d : List Input} {state : Sampling}, Ledger serde opened d state →
      state.session.heldReply = none →
      state.loop serde ptc inputs = some (state', ret) →
      Ledger serde opened (d ++ inputs) state' := by
  induction inputs with
  | nil =>
    intro d state h _ hloop
    cases hloop
    rw [append_nil]
    exact h
  | cons i r ih =>
    intro d state h hheld hloop
    unfold Sampling.loop at hloop
    split at hloop
    · cases hloop
    · next next hinp =>
      obtain ⟨hnext, hheld'⟩ := h.input hheld (onInput_step hinp)
      have hrest := ih hnext (hheld' rfl) hloop
      rwa [append_assoc] at hrest
    · next next hinp =>
      split_ifs at hloop with hem
      cases hloop
      rw [isEmpty_iff.mp hem]
      exact (h.input hheld (onInput_step hinp)).1

end Ledger

/-- The first frame of a request is the reply that is held, or else the new text. -/
structure OpeningFrame (session : Session) (u : Text) (first : Json) : Prop where
  held : ∀ reply, session.heldReply = some reply → first = reply
  text : session.heldReply = none → ∃ text, first = userMessage text u

theorem openingFrame_ok {text : Text} {first : Json}
    (h : session.openingFrame text u = .ok first) : OpeningFrame session u first := by
  unfold Session.openingFrame at h
  split at h
  · next r hrep =>
    split_ifs at h
    cases h
    refine ⟨fun o ho => ?_, fun hn => ?_⟩
    · rw [hrep] at ho
      exact some.inj ho
    · rw [hrep] at hn
      cases hn
  · next hn =>
    split_ifs at h
    cases h
    refine ⟨fun o ho => ?_, fun _ => ⟨text, rfl⟩⟩
    rw [hn] at ho
    cases ho

theorem beginSample_ledger {p : Prompt} {m : Text} {opened : Sampling}
    (h : session.beginSample serde p m u = .ok opened) :
    Ledger serde opened [] opened ∧ opened.session.heldReply = none ∧
      ∃ first, opened.session.written = session.written ++ [first] ∧
        OpeningFrame session u first := by
  obtain ⟨⟨a, ts, i⟩, -, h⟩ := bind_eq_ok.mp h
  dsimp only at h
  split_ifs at h
  obtain ⟨text, -, h⟩ := bind_eq_ok.mp h
  obtain ⟨first, hfst, h⟩ := bind_eq_ok.mp h
  cases h
  refine ⟨⟨rfl, rfl, ?_, fun _ => rfl, fun _ h => ?_, List.Perm.refl _, [], ?_⟩, rfl,
    first, rfl, openingFrame_ok hfst⟩
  · exact ⟨rfl, nodup_nil, forall_mem_nil _, forall_mem_nil _, List.Perm.refl _,
      List.Perm.refl _, forall_mem_nil _⟩
  · cases h
  · exact ⟨(append_nil _).symm, forall_mem_nil _, List.Forall₂.nil⟩

/-! ### The requests of a session -/

/-- One request of a session: the session before it, its state after its first frame, and
its state after everything it has read. -/
structure Sample where
  session : Session
  request : Request
  opened : Sampling
  state : Sampling

/-- The requests of a session one after the other.  All but the last return `Ok`; the last
may be at any point of its loop. -/
def Session.trace (serde : Serde) : Session → List Request → Option (List Sample)
  | _, [] => some []
  | session, request :: rest => do
    let opened ← (session.beginSample serde request.prompt request.model request.uuid).toOption
    let (state, ret) ←
      opened.loop serde request.prompt.parallelToolCalls request.inputs
    if rest.isEmpty then some [⟨session, request, opened, state⟩]
    else if ret && state.completed.toOption.isSome then do
      let later ← Session.trace serde state.session rest
      some (⟨session, request, opened, state⟩ :: later)
    else none

/-- The reply carries the identifiers of the request. -/
structure Carries (request reply : Json) : Prop where
  type : reply.get "type" = str "control_response".toList
  requestId : (reply.get "response").get "request_id" = request.get "request_id"
  id : (((reply.get "response").get "response").get "mcp_response").get "id" =
    ((request.get "request").get "message").get "id"

theorem carries_toolReply (r : Json) (c : List Json) (ie : Bool) :
    Carries r (Sampling.toolReply r c ie) := by
  refine ⟨type_toolReply .., ?_, ?_⟩ <;> simp [Sampling.toolReply, get_object_eq]

/-- The reply is to the request that is bound to the call of the result. -/
def Replies (calls : Calls) (item : ResponseItem) (reply : Json) : Prop :=
  ∃ id call request, resultId item = some id ∧ (id, call) ∈ calls ∧
    call.request = some request ∧ Carries request reply

theorem Answers.replies {cs : Calls} {i : ResponseItem} {r : Json}
    (h : Answers cs i r) : Replies cs i r := by
  obtain ⟨id, c, req, con, ie, hid, hmem, -, hreq, -, rfl⟩ := h
  exact ⟨id, c, req, hid, hmem, hreq, carries_toolReply ..⟩

/-- Calls, requests and results of one request are tied together exactly. -/
structure Exact (serde : Serde) (sample : Sample) : Prop where
  /-- There is at most one complete message, and its blocks declare the calls. -/
  message : (spelled serde sample.request.inputs).2.length ≤ 1
  distinct : (sample.state.calls.map Prod.fst).Nodup
  declared : ∀ entry ∈ sample.state.calls,
    ∃ block ∈ contentBlocks (spelled serde sample.request.inputs).2, Declares block entry.1 entry.2
  /-- A call is emitted at most once, with the name and the arguments of the message. -/
  emitted_once : ((emittedCalls sample.state.toExchange).map Prod.fst).Nodup
  emitted : ∀ emission ∈ emittedCalls sample.state.toExchange,
    ∃ call, (emission.1, call) ∈ sample.state.calls ∧
      nativeItem serde sample.state.session.adapter emission.1 call = some emission.2
  /-- Every request that has been read is bound to one call, or waits. -/
  requests : (toolRequests sample.request.inputs).Perm
    (sample.state.calls.filterMap (fun entry => entry.2.request) ++
      sample.state.session.pendingToolCalls)
  bound : ∀ entry ∈ sample.state.calls, ∀ request, entry.2.request = some request →
    Exchange.asksFor (Exchange.callParams request) entry.2 = true
  /-- A call has at most one result, and each result has one reply, in order. -/
  results_once : ((results sample.request.inputs).filterMap resultId).Nodup
  /-- The reply held before is written first and no user message after it. -/
  written : ∃ first fs,
    sample.state.session.written = sample.session.written ++ first :: fs ∧
    OpeningFrame sample.session sample.request.uuid first ∧
    (∀ frame ∈ fs, frame.get "type" = str "control_response".toList) ∧
    List.Forall₂ (Replies sample.state.calls) (results sample.request.inputs)
      ((fs ++ sample.state.session.heldReply.toList).filter isToolReply)

theorem Ledger.exact {sample : Sample}
    (h : Ledger serde sample.opened sample.request.inputs sample.state)
    (hop : ∃ first, sample.opened.session.written = sample.session.written ++ [first] ∧
      OpeningFrame sample.session sample.request.uuid first) : Exact serde sample := by
  obtain ⟨first, hfst, hopening⟩ := hop
  obtain ⟨fs, htrans⟩ := h.transcript
  refine ⟨?_, h.books.ids, fun e he => (h.books.entered e he).declared,
    ?_, ?_, h.books.requests, ?_, ?_, first, fs, ?_, hopening, htrans.responses,
    htrans.replies.imp fun _ _ => Answers.replies⟩
  · rw [h.single]
    cases sample.state.responseId with
    | none => exact Nat.zero_le 1
    | some id => exact Nat.le_refl 1
  · refine h.books.emitted.nodup_iff.mpr (h.books.ids.sublist ?_)
    exact Lists.filterMap_ite_sublist_map (fun e : Text × ToolCall => e.2.item = none) Prod.fst _
  · rw [h.books.adapter_eq]
    exact h.books.items
  · intro e he r hreq
    have hent := h.books.entered e he
    cases hi : e.2.item with
    | none =>
      obtain ⟨f, hframe, -, hasks⟩ := hent.bound hi
      rw [hreq] at hframe
      cases hframe
      exact hasks
    | some i =>
      rw [(hent.waiting i hi).2.1] at hreq
      cases hreq
  · refine h.finished.nodup_iff.mpr (h.books.ids.sublist ?_)
    exact Lists.filterMap_ite_sublist_map
      (fun e : Text × ToolCall => e.2.finished = true) Prod.fst _
  · rw [htrans.written, hfst, append_assoc]
    rfl

theorem trace_cons {r : Request} {rest : List Request} {log : List Sample}
    (h : session.trace serde (r :: rest) = some log) :
    ∃ sample l, log = sample :: l ∧ sample.session = session ∧
      sample.request = r ∧ Ledger serde sample.opened r.inputs sample.state ∧
      (∃ first, sample.opened.session.written = session.written ++ [first] ∧
        OpeningFrame session r.uuid first) ∧
      sample.state.session.trace serde rest = some l := by
  obtain ⟨opened, hop, h⟩ := bind_eq_some_iff.mp h
  obtain ⟨⟨state, ret⟩, hloop, h⟩ := bind_eq_some_iff.mp h
  obtain ⟨hled, hheld, hfst⟩ := beginSample_ledger (toOption_eq_some.mp hop)
  have hled' : Ledger serde opened r.inputs state := hled.loop r.inputs hheld hloop
  dsimp only at h
  split_ifs at h with hem hret
  · cases h
    refine ⟨⟨session, r, opened, state⟩, [], rfl, rfl, rfl, hled', hfst, ?_⟩
    rw [isEmpty_iff.mp hem]
    rfl
  · obtain ⟨l, hlat, h⟩ := bind_eq_some_iff.mp h
    cases h
    exact ⟨⟨session, r, opened, state⟩, l, rfl, rfl, rfl, hled', hfst, hlat⟩

/-! ### What is written over several requests -/

theorem OpeningFrame.filter {first : Json} (h : OpeningFrame session u first) :
    [first].filter isToolReply = session.heldReply.toList.filter isToolReply := by
  cases hheld : session.heldReply with
  | none =>
    obtain ⟨text, rfl⟩ := h.text hheld
    exact filter_cons_of_neg (by simp [isToolReply, userMessage, get_object_eq]; rfl)
  | some r => rw [h.held r hheld, toList_some]

/-- The frames written from one session to the next.  The replies to calls among them, and
the one held at the end, are the one held at the start and then the given ones. -/
structure Writes (session session' : Session) (fs replies : List Json) : Prop where
  written : session'.written = session.written ++ fs
  replied : (fs ++ session'.heldReply.toList).filter isToolReply =
    session.heldReply.toList.filter isToolReply ++ replies

namespace Writes

variable {first s t : Session} {fs fs' replies replies' : List Json}

theorem refl (session : Session) : Writes session session [] [] where
  written := (append_nil _).symm
  replied := by rw [nil_append, append_nil]

theorem trans (h : Writes first s fs replies) (h' : Writes s t fs' replies') :
    Writes first t (fs ++ fs') (replies ++ replies') where
  written := by rw [h'.written, h.written, append_assoc]
  replied := by
    rw [append_assoc, filter_append, h'.replied, ← append_assoc,
      ← filter_append, h.replied, append_assoc]

theorem of_opening {st : Json} (hop : OpeningFrame first u st)
    (hwrit : s.written = first.written ++ st :: fs) :
    Writes first s (st :: fs) ((fs ++ s.heldReply.toList).filter isToolReply) where
  written := hwrit
  replied := by
    rw [← hop.filter, ← filter_append]
    rfl

end Writes

/-- The results that have been read, each with the calls of its request. -/
def Sample.answered (sample : Sample) : List (Calls × ResponseItem) :=
  (results sample.request.inputs).map fun item => (sample.state.calls, item)

def lastSession (session : Session) (log : List Sample) : Session :=
  log.foldl (fun _ sample => sample.state.session) session

/-- Over the whole session every result has one reply to the request that is bound to its
call, written or held. -/
structure Accounted (session : Session) (log : List Sample) (fs replies : List Json) :
    Prop where
  writes : Writes session (lastSession session log) fs replies
  answered : List.Forall₂ (fun result reply => Replies result.1 result.2 reply)
    (log.flatMap Sample.answered) replies

theorem Accounted.cons {sample : Sample} {l : List Sample} {fs replies : List Json}
    (hex : Exact serde sample) (h : Accounted sample.state.session l fs replies) :
    ∃ fs' replies', Accounted sample.session (sample :: l) fs' replies' := by
  obtain ⟨first, new, hwrit, hop, -, hrep⟩ := hex.written
  refine ⟨_, _, (Writes.of_opening hop hwrit).trans h.writes, ?_⟩
  refine rel_append ?_ h.answered
  rw [Sample.answered, List.forall₂_map_left_iff]
  exact hrep

/-- **Tool-call correlation is exact, whatever the requests of a session read.** -/
theorem tool_calls_correlated {session : Session} {requests : List Request} {log : List Sample}
    (h : session.trace serde requests = some log) :
    (∀ sample ∈ log, Exact serde sample) ∧
      ∃ frames replies, Accounted session log frames replies := by
  induction requests generalizing session log with
  | nil =>
    obtain rfl : [] = log := some.inj h
    exact ⟨fun _ hsam => absurd hsam not_mem_nil, [], [], .refl session, List.Forall₂.nil⟩
  | cons r rest ih =>
    obtain ⟨sample, l, rfl, rfl, rfl, hled, hfst, hlat⟩ := trace_cons h
    have hex := hled.exact hfst
    obtain ⟨hall, frames, replies, hacc⟩ := ih hlat
    exact ⟨forall_mem_cons.mpr ⟨hex, hall⟩, hacc.cons hex⟩

/-! A session of two requests: one call with its result, then the answer. -/

def readBy (actions : List Action) : List Input :=
  actions.filterMap fun action =>
    match action with
    | .frame frame => some (.frame frame)
    | _ => none

def textOutput (id : String) : ResponseItem :=
  .functionCallOutput none (some id.toList) ⟨.text [], some true⟩

def turnResult : Action :=
  .frame (object [("type", str "result".toList), ("subtype", str "success".toList),
    ("is_error", bool false)])

def callOnce : Request where
  prompt := askOnce
  model := []
  uuid := []
  inputs := readBy [startMessage, startCall 0 "a", stopMessage, requestCall 0] ++
    [.result (textOutput "a")]

def answerOnce : Request where
  prompt := { askOnce with
    input := askOnce.input ++
      [.functionCall none "f".toList none "0".toList (some []) "a".toList, textOutput "a"] }
  model := []
  uuid := []
  inputs := readBy [startMessage, stopMessage, turnResult]

theorem one_call_correlated :
    ∃ log, freshSession.trace wireSerde [callOnce, answerOnce] = some log ∧
      (log.map fun sample => (sample.state.session.written.length,
        sample.state.session.heldReply.isSome)) = [(1, true), (2, false)] ∧
      (∀ sample ∈ log, Exact wireSerde sample) ∧
      ∃ frames replies, Accounted freshSession log frames replies := by
  have htrace : (freshSession.trace wireSerde [callOnce, answerOnce]).map (fun log =>
      log.map fun sample => (sample.state.session.written.length,
        sample.state.session.heldReply.isSome)) = some [(1, true), (2, false)] := by
    decide +kernel
  obtain ⟨log, hlog, hshape⟩ := map_eq_some_iff.mp htrace
  exact ⟨log, hlog, hshape, tool_calls_correlated hlog⟩

end SushiGpt.ClaudeTransport
