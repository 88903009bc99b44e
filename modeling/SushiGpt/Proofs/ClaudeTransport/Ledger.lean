/-
The ledger of a sampling request.

`Ledger` ties the state of the loop to everything it has read so far: the requests that are
bound or wait, the message that declared the calls, and the frames written since the first.
Every result that has been read has one reply among them, or held, and the reply goes to the
request that is bound to the call of the result.
-/
import SushiGpt.Proofs.ClaudeTransport.Books

namespace SushiGpt.ClaudeTransport

open Json CodexApi Exchange List Sampling Calls Option

variable {serde : Serde} {i : ResponseItem} {r : Bool} {id : Text}

/-! ### What a request reads -/

def Input.toolsCall? : Input → Option Json
  | .frame value => if Exchange.isToolsCall value then some value else none
  | .result _ => none

def Input.result? : Input → Option ResponseItem
  | .frame _ => none
  | .result item => some item

def toolRequests (inputs : List Input) : List Json := inputs.filterMap Input.toolsCall?

def results (inputs : List Input) : List ResponseItem := inputs.filterMap Input.result?

/-- The message that is streaming and the messages that are complete, after one more input. -/
def spell (serde : Serde) (spelled : MessageStream × List Json) : Input → MessageStream × List Json
  | .frame frame =>
    if (frame.get "type").isStr "stream_event" then
      match spelled.1.push serde (frame.get "event") with
      | .ok (stream, message) => (stream, spelled.2 ++ message.toList)
      | .error _ => spelled
    else spelled
  | .result _ => spelled

def spelled (serde : Serde) (inputs : List Input) : MessageStream × List Json :=
  inputs.foldl (spell serde) (.empty, [])

/-- The content of the messages the process has completed. -/
def contentBlocks (messages : List Json) : List Json :=
  messages.flatMap fun message => (message.get "content").asArray.getD []

variable {d : List Input} {s s' : Sampling}

section Inputs

variable {f : Json}

theorem results_frame : results (d ++ [.frame f]) = results d := by
  rw [results, filterMap_append]
  exact append_nil _

theorem results_result : results (d ++ [.result i]) = results d ++ [i] :=
  filterMap_append

theorem toolRequests_result : toolRequests (d ++ [.result i]) = toolRequests d := by
  rw [toolRequests, filterMap_append]
  exact append_nil _

theorem toolRequests_call (h : isToolsCall f = true) :
    toolRequests (d ++ [.frame f]) = toolRequests d ++ [f] := by
  rw [toolRequests, filterMap_append, filterMap_cons, Input.toolsCall?, if_pos h]
  rfl

theorem toolRequests_other (h : ¬ isToolsCall f = true) :
    toolRequests (d ++ [.frame f]) = toolRequests d := by
  rw [toolRequests, filterMap_append, filterMap_cons, Input.toolsCall?, if_neg h]
  exact append_nil _

theorem spelled_concat (input : Input) :
    spelled serde (d ++ [input]) = spell serde (spelled serde d) input :=
  foldl_concat ..

theorem spelled_push {str str' : MessageStream} {m : Option Json}
    (h : (f.get "type").isStr "stream_event" = true) (hst : (spelled serde d).1 = str)
    (hpush : str.push serde (f.get "event") = .ok (str', m)) :
    spelled serde (d ++ [.frame f]) = (str', (spelled serde d).2 ++ m.toList) := by
  rw [spelled_concat, spell, if_pos h, hst, hpush]

theorem toolRequests_of_kind (h : ¬ (f.get "type").isStr "control_request" = true) :
    toolRequests (d ++ [.frame f]) = toolRequests d :=
  toolRequests_other fun hc => h (kind_of_isToolsCall hc)

end Inputs

/-! ### The ledger -/

/-- The frame is the reply to a `tools/call` request. -/
def isToolReply (frame : Json) : Bool :=
  ((((frame.get "response").get "response").get "mcp_response").get "result").get "isError" != null

def resultId (item : ResponseItem) : Option Text := (item.toValue.get "call_id").asStr

/-- The reply gives the result to the request that is bound to its call. -/
def Answers (calls : Calls) (item : ResponseItem) (reply : Json) : Prop :=
  ∃ id call request content isError, resultId item = some id ∧ (id, call) ∈ calls ∧
    call.finished = true ∧ call.request = some request ∧
    toolResultContent item (item.toValue.get "output") = .ok (content, isError) ∧
    reply = toolReply request content isError

/-- What the request has written after its first frame. -/
structure Transcript (start : List Json) (done : List Input) (state : Sampling)
    (frames : List Json) : Prop where
  written : state.session.written = start ++ frames
  responses : ∀ frame ∈ frames, frame.get "type" = str "control_response".toList
  /-- Every result that has been read has one reply, in order; the last may be held. -/
  replies : List.Forall₂ (Answers state.calls) (results done)
    ((frames ++ state.session.heldReply.toList).filter isToolReply)

/-- The identifiers of the calls that have their result. -/
def finishedIds (calls : Calls) : List Text :=
  calls.filterMap fun entry => if entry.2.finished = true then some entry.1 else none

/-- The state of a request and what it has read and written so far. -/
structure Ledger (serde : Serde) (opened : Sampling) (done : List Input) (state : Sampling) :
    Prop where
  stream : (spelled serde done).1 = state.messageStream
  single : (spelled serde done).2.length = state.responseId.toList.length
  books : Books serde opened.session.adapter (contentBlocks (spelled serde done).2)
    (toolRequests done) state.toExchange state.session.pendingToolCalls
  before : state.responseId = none → state.calls = []
  final : ∀ item, state.finalMessage = some item → callIdOf item = none
  finished : ((results done).filterMap resultId).Perm (finishedIds state.calls)
  transcript : ∃ frames, Transcript opened.session.written done state frames

theorem Answers.mono {cs cs' : Calls} {reply : Json}
    (hkeeps : ∀ e ∈ cs, e.2.finished = true → e ∈ cs')
    (h : Answers cs i reply) : Answers cs' i reply := by
  obtain ⟨id, call, req, c, ie, hid, hmem, hfin, h⟩ := h
  exact ⟨id, call, req, c, ie, hid, hkeeps _ hmem hfin, hfin, h⟩

theorem mem_set_of_unfinished {cs : Calls} {old new : ToolCall} (hnd : (cs.map Prod.fst).Nodup)
    (h : cs.lookup id = some old) (hold : old.finished = false) :
    ∀ e ∈ cs, e.2.finished = true → e ∈ cs.set id new := by
  intro e he hfin
  have hne : e.1 ≠ id := by
    rintro rfl
    rw [Lists.lookup_of_mem hnd he] at h
    cases h
    rw [hfin] at hold
    cases hold
  exact mem_map.mpr ⟨e, he, if_neg hne⟩

theorem type_toolReply (req : Json) (c : List Json) (ie : Bool) :
    (toolReply req c ie).get "type" = str "control_response".toList := by
  simp [toolReply, get_object_eq]

theorem isToolReply_controlResponse (f res : Json) :
    isToolReply (controlResponse f res) =
      (((res.get "mcp_response").get "result").get "isError" != null) := by
  simp [isToolReply, controlResponse, get_object_eq]

/-- Only `tools/call` requests are answered with the result of a tool. -/
theorem not_isToolReply_reply {x : Exchange} {f res : Json}
    (h : x.reply (f.get "request") = .ok res) : isToolReply (controlResponse f res) = false := by
  rw [isToolReply_controlResponse]
  unfold reply at h
  split_ifs at h
  · obtain ⟨id, -, h⟩ := bind_eq_ok.mp h
    obtain ⟨c, -, h⟩ := bind_eq_ok.mp h
    split_ifs at h
    cases h
    simp [get_object_eq]
    rfl
  · obtain ⟨result, hres, h⟩ := bind_eq_ok.mp h
    cases h
    unfold mcpResult at hres
    dsimp only at hres
    split_ifs at hres <;> cases hres <;> simp [mcpResponse, get_object_eq]

namespace Transcript

variable {st : List Json} {d' : List Input} {fs : List Json}

theorem quiet (h : Transcript st d s fs) (hwrit : s'.session.written = s.session.written)
    (hheld : s'.session.heldReply = s.session.heldReply) (hres : results d' = results d)
    (hkeeps : ∀ e ∈ s.calls, e.2.finished = true → e ∈ s'.calls) : Transcript st d' s' fs := by
  refine ⟨hwrit.trans h.written, h.responses, ?_⟩
  rw [hheld, hres]
  exact h.replies.imp fun _ _ => Answers.mono hkeeps

theorem results_eq_nil (h : Transcript st d s fs) (hcs : s.calls = []) : results d = [] := by
  have hrep := h.replies
  cases hres : results d with
  | nil => rfl
  | cons i rest =>
    rw [hres, List.forall₂_cons_left_iff] at hrep
    obtain ⟨reply, -, ⟨id, c, -, -, -, -, hmem, -⟩, -⟩ := hrep
    rw [hcs] at hmem
    cases hmem

theorem responds {f res : Json} {x : Exchange} (h : Transcript st d s fs)
    (hrep : x.reply (f.get "request") = .ok res)
    (hwrit : s'.session.written = s.session.written ++ [controlResponse f res])
    (hheld : s'.session.heldReply = s.session.heldReply) (hres : results d' = results d)
    (hcs : s'.calls = s.calls) : Transcript st d' s' (fs ++ [controlResponse f res]) := by
  refine ⟨?_, ?_, ?_⟩
  · rw [hwrit, h.written, append_assoc]
  · refine forall_mem_append.mpr ⟨h.responses, forall_mem_singleton.mpr ?_⟩
    simp [controlResponse, get_object_eq]
  · have hfil : ((fs ++ [controlResponse f res]) ++
        s'.session.heldReply.toList).filter isToolReply =
        (fs ++ s.session.heldReply.toList).filter isToolReply := by
      have hno : ¬ isToolReply (controlResponse f res) = true := by
        rw [not_isToolReply_reply hrep]
        exact nofun
      rw [hheld, filter_append, filter_append, filter_cons_of_neg hno,
        filter_nil, append_nil, filter_append]
    rw [hfil, hres, hcs]
    exact h.replies

theorem answers {call : ToolCall} (h : Transcript st d s fs) (hnd : (s.calls.map Prod.fst).Nodup)
    (hheld : s.session.heldReply = none) (heff : ResultEffect serde s s' i r id call) :
    ∃ fs', Transcript st (d ++ [.result i]) s' fs' := by
  obtain ⟨req, c, ie, hreq, hcont, hrep⟩ := heff.reply
  have hans : Answers s'.calls i (toolReply req c ie) := by
    refine ⟨id, { call with finished := true }, req, c, ie, ?_, ?_, rfl, hreq, hcont, rfl⟩
    · rw [resultId, heff.callId]
      rfl
    · rw [heff.calls]
      exact mem_of_lookup (lookup_set_self heff.lookup)
  have hold : List.Forall₂ (Answers s'.calls) (results d) (fs.filter isToolReply) := by
    have hrepl := h.replies
    rw [hheld, toList_none, append_nil] at hrepl
    refine hrepl.imp fun _ _ => Answers.mono ?_
    rw [heff.calls]
    exact mem_set_of_unfinished hnd heff.lookup heff.unfinished
  have hfil : (fs ++ [toolReply req c ie]).filter isToolReply =
      fs.filter isToolReply ++ [toolReply req c ie] := by
    simp [isToolReply, toolReply, get_object_eq]
  have hnew : List.Forall₂ (Answers s'.calls) (results d ++ [i])
      (fs.filter isToolReply ++ [toolReply req c ie]) :=
    rel_append hold (List.Forall₂.cons hans List.Forall₂.nil)
  rw [← hfil, ← results_result] at hnew
  rcases hrep with ⟨hret, hwrit⟩ | ⟨hret, hwrit, hrep⟩
  · refine ⟨fs ++ [toolReply req c ie], ?_, ?_, ?_⟩
    · rw [hwrit, h.written, append_assoc]
    · exact forall_mem_append.mpr ⟨h.responses, forall_mem_singleton.mpr (type_toolReply ..)⟩
    · rw [heff.heldReply hret, hheld, toList_none, append_nil]
      exact hnew
  · refine ⟨fs, hwrit.trans h.written, h.responses, ?_⟩
    rw [hrep]
    exact hnew

end Transcript

namespace Ledger

variable {o : Sampling}

theorem unspelled {f : Json} (h : Ledger serde o d s)
    (hst : ¬ (f.get "type").isStr "stream_event" = true)
    (hmsg : s'.messageStream = s.messageStream)
    (hid : s'.responseId = s.responseId)
    (hbefore : s.responseId = none → s'.calls = [])
    (hfin : ∀ i, s'.finalMessage = some i → callIdOf i = none)
    (hfinis : finishedIds s'.calls = finishedIds s.calls)
    (hbooks : Books serde o.session.adapter (contentBlocks (spelled serde d).2)
      (toolRequests (d ++ [.frame f])) s'.toExchange s'.session.pendingToolCalls)
    (htrans : ∃ fs, Transcript o.session.written (d ++ [.frame f]) s'
      fs) : Ledger serde o (d ++ [.frame f]) s' := by
  have hspel : spelled serde (d ++ [.frame f]) = spelled serde d := by
    rw [spelled_concat, spell, if_neg hst]
  refine ⟨?_, ?_, hspel ▸ hbooks, hid ▸ hbefore, hfin, ?_, htrans⟩
  · rw [hspel, hmsg]
    exact h.stream
  · rw [hspel, hid]
    exact h.single
  · rw [results_frame, hfinis]
    exact h.finished

theorem frame {f : Json} (h : Ledger serde o d s) (hs : FrameStep serde s f s' r) :
    Ledger serde o (d ++ [.frame f]) s' := by
  obtain ⟨fs, htrans⟩ := h.transcript
  cases hs with
  | ignored hst hctl =>
    refine h.unspelled hst rfl rfl h.before h.final rfl ?_
      ⟨fs, htrans.quiet rfl rfl results_frame fun _ he _ => he⟩
    rw [toolRequests_of_kind hctl]
    exact h.books
  | streams hk str hpush =>
    have hspel := spelled_push hk h.stream hpush
    rw [toList_none, append_nil] at hspel
    refine ⟨?_, ?_, ?_, h.before, h.final, ?_,
      fs, htrans.quiet rfl rfl results_frame fun _ he _ => he⟩
    · rw [hspel]
    · rw [hspel]
      exact h.single
    · rw [hspel, toolRequests_of_kind (not_isStr_of_isStr hk (by decide))]
      exact h.books
    · rw [results_frame]
      exact h.finished
  | completes hk str m _ hpush hasm =>
    obtain ⟨hasm⟩ := hasm
    have hspel := spelled_push hk h.stream hpush
    rw [toList_some] at hspel
    have hid : s.responseId = none := hasm.first
    have hcs : s.calls = [] := h.before hid
    have hset := hasm.books h.books hcs h.final
    obtain ⟨-, l, hopens⟩ := hasm.opens hcs
    have hres := htrans.results_eq_nil hcs
    have hbloc : contentBlocks ((spelled serde d).2 ++ [m]) =
        contentBlocks (spelled serde d).2 ++ hasm.blocks := by
      rw [contentBlocks, flatMap_append, flatMap_singleton, hasm.content]
      rfl
    have hlen : s'.responseId.toList.length = 1 := by
      obtain ⟨id, hid'⟩ := ne_none_iff_exists'.mp hset.responseId
      rw [hid']
      rfl
    refine ⟨?_, ?_, ?_, fun hn => absurd hn hset.responseId, hset.final, ?_,
      fs, htrans.quiet hset.written hset.heldReply results_frame ?_⟩
    · rw [hspel, hset.messageStream]
    · rw [hspel, length_append, h.single, hid, hlen]
      rfl
    · rw [hspel, hbloc, toolRequests_of_kind (not_isStr_of_isStr hk (by decide)), hset.pending]
      exact hset.books
    · have hn : finishedIds s'.calls = [] := by
        rw [finishedIds, filterMap_eq_nil_iff]
        intro e he
        rw [hopens.unfinished e he]
        rfl
      rw [results_frame, hres, hn]
      exact List.Perm.refl _
    · rw [hcs]
      exact nofun
  | controls hk x hctl =>
    have hst : ¬ (f.get "type").isStr "stream_event" = true := not_isStr_of_isStr hk (by decide)
    cases hctl with
    | replies hno res hrep =>
      refine h.unspelled hst rfl rfl h.before h.final rfl ?_
        ⟨_, htrans.responds hrep rfl rfl results_frame rfl⟩
      rw [toolRequests_other (Bool.eq_false_iff.mp hno)]
      exact h.books.congr rfl rfl rfl
    | defers hc hn hdef =>
      refine h.unspelled hst rfl rfl h.before h.final rfl ?_
        ⟨_, htrans.quiet rfl rfl results_frame fun _ he _ => he⟩
      rw [toolRequests_call hc]
      exact ((h.books.read hc).reorder (perm_append_singleton _ _).symm).congr rfl rfl rfl
    | takes hc id c i v hfd hlk hi hmir =>
      have hent := h.books.entered _ (mem_of_lookup hlk)
      obtain ⟨-, -, hunf⟩ := hent.waiting i hi
      refine h.unspelled hst rfl rfl (fun hid => ?_) h.final
        (filterMap_set_same h.books.ids hlk _ _ rfl) ?_
        ⟨_, htrans.quiet rfl rfl results_frame (mem_set_of_unfinished h.books.ids hlk hunf)⟩
      · rw [h.before hid] at hlk
        cases hlk
      · rw [toolRequests_call hc]
        exact (h.books.read hc).takes hfd hlk hi
  | ends hk hcs x hfin =>
    obtain ⟨had, hsame, hqueued, hsil⟩ := emitFinal_ok hfin h.final
    refine h.unspelled (not_isStr_of_isStr hk (by decide)) rfl rfl
      (fun hid => hsame.trans (h.before hid)) nofun (congrArg finishedIds hsame) ?_
      ⟨fs, htrans.quiet hsil.written hsil.heldReply results_frame ?_⟩
    · rw [toolRequests_of_kind (not_isStr_of_isStr hk (by decide))]
      show Books _ _ _ _ _ x.session.pendingToolCalls
      rw [hsil.pending]
      exact h.books.congr had hsame hqueued
    · show ∀ e ∈ s.calls, e.2.finished = true → e ∈ x.calls
      rw [hsame]
      exact fun _ he _ => he

theorem result {c : ToolCall} (h : Ledger serde o d s) (hheld : s.session.heldReply = none)
    (heff : ResultEffect serde s s' i r id c) : Ledger serde o (d ++ [.result i]) s' := by
  obtain ⟨fs, htrans⟩ := h.transcript
  obtain ⟨req, -, -, hreq, -⟩ := heff.reply
  refine ⟨?_, ?_, ?_, ?_, ?_, ?_, htrans.answers h.books.ids hheld heff⟩
  · rw [spelled_concat, heff.messageStream]
    exact h.stream
  · rw [spelled_concat, heff.responseId]
    exact h.single
  · rw [spelled_concat, toolRequests_result, heff.pending]
    exact h.books.finishes heff.lookup hreq heff.adapter heff.calls heff.events
  · intro hid
    have hlk := heff.lookup
    rw [heff.responseId] at hid
    rw [h.before hid] at hlk
    cases hlk
  · rw [heff.finalMessage]
    exact h.final
  · have hset : (finishedIds (s.calls.set id { c with finished := true })).Perm
        (id :: finishedIds s.calls) := by
      refine filterMap_set_some h.books.ids heff.lookup ?_ ?_
      · rw [heff.unfinished]
        rfl
      · exact if_pos rfl
    have hid : resultId i = some id := by
      rw [resultId, heff.callId]
      rfl
    rw [results_result, filterMap_append, filterMap_cons, hid, heff.calls]
    exact ((perm_append_singleton id _).trans (h.finished.cons id)).trans hset.symm

end Ledger

end SushiGpt.ClaudeTransport
