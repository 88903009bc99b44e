/-
What one step of the sampling loop does.

A frame leaves the calls alone, takes the item of one call, or is the end of the message
that declares the calls; only the last of these emits a text, and it emits it first.  A
result finishes one call, and the request returns with the last of them.
-/
import SushiGpt.Proofs.ClaudeTransport.Control

namespace SushiGpt.ClaudeTransport

open Json CodexApi List Sampling Exchange Option

variable {d : Serde} {calls : Calls} {l : List ResponseItem} {b : Exchange}

/-! ### Emitted items -/

/-- An item the transport emits: a call, or a message. -/
def Emitted (item : ResponseItem) : Prop :=
  (callIdOf item).isSome = true ∨ ∃ id role content, item = .message id role content

variable {i : ResponseItem} {f : Json} {s s' : Sampling}

theorem Emitted.typed (h : Emitted i) : i.Typed := by
  rintro v rfl
  rcases h with h | ⟨id, ro, c, h⟩ <;> cases h

theorem Emitted.not_isOutput (h : Emitted i) : ¬ i.IsOutput := by
  intro hout
  rcases h with h | ⟨id, ro, c, rfl⟩
  · cases i with
    | functionCallOutput id cid o | customToolCallOutput id cid o => cases h
    | _ => exact hout
  · exact hout

/-! ### The message -/

/-- The calls of a message before any of them is taken. -/
def Declared (calls : Calls) : Prop :=
  ∀ entry ∈ calls, ∃ item, entry.2.item = some item ∧ callIdOf item = some entry.1 ∧
    entry.2.finished = false

def Unfinished (calls : Calls) : Prop := ∀ entry ∈ calls, entry.2.finished = false

theorem Declared.correlated (h : Declared calls) : Correlated calls [] [] where
  named id call i hc hi := by
    obtain ⟨i', hi', hid, -⟩ := h _ (Calls.mem_of_lookup hc)
    rw [hi] at hi'
    cases hi'
    exact hid
  waiting id call i hc _ := by
    obtain ⟨-, -, -, hnot⟩ := h _ (Calls.mem_of_lookup hc)
    exact hnot
  nodup := nodup_nil
  running := nofun

theorem Declared.unfinished (h : Declared calls) : Unfinished calls := by
  intro e he
  obtain ⟨-, -, -, hnot⟩ := h e he
  exact hnot

theorem Unfinished.takes {calls' : Calls} (h : Unfinished calls)
    (htak : Takes calls calls' f i) : Unfinished calls' := by
  obtain ⟨id, c, hc, -, rfl⟩ := htak.taken
  intro e he
  obtain ⟨old, hold, rfl⟩ := mem_map.mp he
  split_ifs
  · show c.finished = false
    exact h _ (Calls.mem_of_lookup hc)
  · exact h old hold

theorem restore_callId {a : Adapter} {n arg cid : Text}
    (h : a.restore d (.functionCall none n none arg (some []) cid) true =
      some i) : callIdOf i = some cid := by
  unfold Adapter.restore at h
  split_ifs at h
  obtain ⟨t, -, h⟩ := bind_eq_some_iff.mp h
  split_ifs at h
  · obtain ⟨input, -, h⟩ := bind_eq_some_iff.mp h
    cases h
    rfl
  · cases h
    rfl

theorem onBlock_declared {a : Adapter} {s s' : Text × Calls} {block : Json} (hdec : Declared s.2)
    (h : onBlock d a s block = .ok s') : Declared s'.2 := by
  unfold onBlock at h
  dsimp only at h
  split_ifs at h
  · obtain ⟨m, -, h⟩ := bind_eq_ok.mp h
    cases h
    exact hdec
  · obtain ⟨cid, -, h⟩ := bind_eq_ok.mp h
    obtain ⟨n, -, h⟩ := bind_eq_ok.mp h
    split_ifs at h
    obtain ⟨i, hi, h⟩ := bind_eq_ok.mp h
    cases h
    exact forall_mem_append.mpr ⟨hdec, forall_mem_singleton.mpr
      ⟨i, rfl, restore_callId (orFail_eq_ok.mp hi), rfl⟩⟩

/-- What the end of the message has emitted, and where it leaves the calls. -/
structure Opens (serde : Serde) (before after : Exchange) (items : List ResponseItem) : Prop where
  emits : Emits serde before after items
  correlated : Correlated after.calls items []
  unfinished : Unfinished after.calls
  /-- Only the first item may be a text. -/
  calls : ∀ item ∈ items.tail, (callIdOf item).isSome = true
  emitted : ∀ item ∈ items, Emitted item

theorem Takes.callId_isSome {calls' : Calls} {o : List Text} (h : Takes calls calls' f i)
    (hcor : Correlated calls l o) : (callIdOf i).isSome = true := by
  obtain ⟨id, c, hc, hi, -⟩ := h.taken
  rw [hcor.named id c i hc hi]
  rfl

theorem Opens.control {x x' : Exchange} {defer : Bool} (h : Opens d b x l)
    (hctl : x.control d f true defer = .ok x') : ∃ l', Opens d b x' l' := by
  rcases control_ok (control_step hctl) with ⟨-, hem, hcs⟩ | ⟨-, -, i, hem, htak⟩
  · refine ⟨l ++ [], h.emits.trans hem, ?_, ?_, ?_, ?_⟩
    · rw [hcs, append_nil]
      exact h.correlated
    · rw [hcs]
      exact h.unfinished
    · rw [append_nil]
      exact h.calls
    · rw [append_nil]
      exact h.emitted
  · have hc := htak.callId_isSome h.correlated
    refine ⟨l ++ [i], h.emits.trans hem, h.correlated.takes htak, h.unfinished.takes htak, ?_, ?_⟩
    · intro o ho
      cases l with
      | nil => cases ho
      | cons first r =>
        exact forall_mem_append.mpr ⟨h.calls, forall_mem_singleton.mpr hc⟩ o ho
    · exact forall_mem_append.mpr ⟨h.emitted, forall_mem_singleton.mpr (.inl hc)⟩

theorem Opens.controls {x x' : Exchange} {fs : List Json} (h : Opens d b x l)
    (hcon : fs.foldlM (fun x f => x.control d f true false) x = .ok x') : ∃ l', Opens d b x' l' :=
  foldlM_keeps (fun x => ∃ l, Opens d b x l) fs
    (fun _ _ _ _ ⟨_, hopens⟩ hctl => hopens.control hctl) x x'
    ⟨l, h⟩ hcon

theorem placeText_opens {id t : Text} (h : s.placeText d id t = .ok s')
    (hsame : Emits d b s.toExchange []) (hdec : Declared s.calls) :
    (∃ l, Opens d b s'.toExchange l) ∧ s'.responseId = s.responseId := by
  have hn : ∀ x : Exchange, Emits d b x [] → x.calls = s.calls → Opens d b x [] := by
    intro x hem hcs
    refine ⟨hem, ?_, ?_, nofun, nofun⟩
    · rw [hcs]
      exact hdec.correlated
    · rw [hcs]
      exact hdec.unfinished
  unfold placeText at h
  split_ifs at h
  · cases h
    exact ⟨⟨[], hn _ hsame rfl⟩, rfl⟩
  · cases h
    exact ⟨⟨[], hn _ hsame rfl⟩, rfl⟩
  · obtain ⟨x, hexc, h⟩ := bind_eq_ok.mp h
    cases h
    obtain ⟨hem, hcs⟩ := emit_ok hexc
    refine ⟨⟨[] ++ [assistantMessage id t], hsame.trans hem, ?_, ?_, nofun, ?_⟩, rfl⟩
    · rw [hcs]
      exact hdec.correlated.moves (List.Perm.refl _)
    · rw [hcs]
      exact hdec.unfinished
    · intro i hi
      rw [mem_singleton.mp hi]
      exact Or.inr ⟨_, _, _, rfl⟩

/-- What the end of the message does, in the order in which it happens. -/
structure Assembles (serde : Serde) (state : Sampling) (message : Json) (state' : Sampling) where
  id : Text
  executed : Text
  blocks : List Json
  text : Text
  calls : Calls
  placed : Sampling
  exchange : Exchange
  first : state.responseId = none
  content : (message.get "content").asArray = some blocks
  declares : blocks.foldlM (onBlock serde state.session.adapter) ([], state.calls) =
    .ok (text, calls)
  places : ({ state with
    events := state.events ++ [.created (some id), .serverModel executed]
    calls := calls
    responseId := some id
    usage := parseUsage (message.get "usage") } : Sampling).placeText serde id text = .ok placed
  controls : placed.session.pendingToolCalls.foldlM
    (fun exchange frame => exchange.control serde frame true false)
    { placed.toExchange with session := { placed.session with pendingToolCalls := [] } } =
      .ok exchange
  next : state' = { placed with toExchange := exchange }

theorem onAssistant_step {ptc : Bool} {m : Json} (h : s.onAssistant d ptc m = .ok s') :
    Nonempty (Assembles d s m s') := by
  unfold onAssistant at h
  split_ifs at h with hid
  obtain ⟨id, -, h⟩ := bind_eq_ok.mp h
  obtain ⟨e, -, h⟩ := bind_eq_ok.mp h
  obtain ⟨bs, hcont, h⟩ := bind_eq_ok.mp h
  obtain ⟨⟨t, calls⟩, hbloc, h⟩ := bind_eq_ok.mp h
  dsimp only at h
  split_ifs at h
  obtain ⟨p, hplac, h⟩ := bind_eq_ok.mp h
  obtain ⟨x, hexc, h⟩ := bind_eq_ok.mp h
  cases h
  exact ⟨⟨id, e, bs, t, calls, p, x, not_isSome_iff_eq_none.mp hid,
    orFail_eq_ok.mp hcont, hbloc, hplac, hexc, rfl⟩⟩

theorem Assembles.opens {m : Json} (h : Assembles d s m s') (hcs : s.calls = []) :
    s'.responseId ≠ none ∧ ∃ l, Opens d s.toExchange s'.toExchange l := by
  have hdec : Declared h.calls := by
    refine foldlM_keeps (fun s => Declared s.2) h.blocks
      (fun _ _ _ _ hdec hblock => onBlock_declared hdec hblock) _ _ ?_ h.declares
    rw [hcs]
    exact nofun
  have hst : Emits d s.toExchange ⟨s.session, h.calls,
      s.events ++ [.created (some h.id), .serverModel h.executed]⟩ [] := by
    refine .of_same rfl rfl rfl ?_
    rw [queued, filterMap_append]
    exact append_nil _
  obtain ⟨⟨l, hopens⟩, hid⟩ := placeText_opens h.places hst hdec
  have hem : Emits d s.toExchange { h.placed.toExchange with
      session := { h.placed.session with pendingToolCalls := [] } } (l ++ []) :=
    hopens.emits.trans (.of_same rfl rfl rfl rfl)
  rw [append_nil] at hem
  have htak : Opens d s.toExchange { h.placed.toExchange with
      session := { h.placed.session with pendingToolCalls := [] } } l :=
    ⟨hem, hopens.correlated, hopens.unfinished, hopens.calls, hopens.emitted⟩
  rw [h.next]
  refine ⟨?_, htak.controls h.controls⟩
  rw [hid]
  exact nofun

/-! ### Steps of the loop -/

/-- A call that the native side is asked for now. -/
def Requests (calls : Calls) (frame : Json) : Prop :=
  isToolsCall frame = true ∧ correlate calls (callParams frame) ≠ .ok []

/-- What a frame does when it does not end the request. -/
inductive FrameEffect (serde : Serde) (state state' : Sampling) (frame : Json) : Prop where
  | quiet (hno : ¬ Requests state.calls frame)
      (hemits : Emits serde state.toExchange state'.toExchange [])
      (hcalls : state'.calls = state.calls) (hid : state'.responseId = state.responseId)
  | takes (hrequests : Requests state.calls frame) (item : ResponseItem)
      (hemits : Emits serde state.toExchange state'.toExchange [item])
      (htakes : Takes state.calls state'.calls frame item)
      (hid : state'.responseId = state.responseId)
  | opens (hno : ¬ Requests state.calls frame) (hid : state.responseId = none)
      (hid' : state'.responseId ≠ none) (items : List ResponseItem)
      (hopens : Opens serde state.toExchange state'.toExchange items)

theorem kind_of_isToolsCall (h : isToolsCall f = true) :
    (f.get "type").isStr "control_request" = true := by
  unfold isToolsCall at h
  simp only [Bool.and_eq_true] at h
  exact h.1.1.1

theorem not_requests_of_kind (h : ¬ (f.get "type").isStr "control_request" = true) :
    ¬ Requests calls f :=
  fun hreqs => h (kind_of_isToolsCall hreqs.1)

inductive FrameStep (serde : Serde) (state : Sampling) (frame : Json) :
    Sampling → Bool → Prop where
  /-- The frame carries nothing for the request. -/
  | ignored (hstream : ¬ (frame.get "type").isStr "stream_event" = true)
      (hcontrol : ¬ (frame.get "type").isStr "control_request" = true) :
      FrameStep serde state frame state false
  /-- A piece of a message that is not complete yet. -/
  | streams (hkind : (frame.get "type").isStr "stream_event" = true) (stream : MessageStream)
      (hpush : state.messageStream.push serde (frame.get "event") = .ok (stream, none)) :
      FrameStep serde state frame { state with messageStream := stream } false
  /-- The last piece of a message. -/
  | completes (hkind : (frame.get "type").isStr "stream_event" = true) (stream : MessageStream)
      (message : Json) (state' : Sampling)
      (hpush : state.messageStream.push serde (frame.get "event") = .ok (stream, some message))
      (hassembles : Nonempty
        (Assembles serde { state with messageStream := stream } message state')) :
      FrameStep serde state frame state' false
  | controls (hkind : (frame.get "type").isStr "control_request" = true) (exchange : Exchange)
      (hstep : ControlStep serde state.toExchange frame true exchange) :
      FrameStep serde state frame { state with toExchange := exchange } false
  /-- The end of the turn; there is no call to wait for. -/
  | ends (hkind : (frame.get "type").isStr "result" = true) (hcalls : state.calls = [])
      (exchange : Exchange) (hfinal : state.emitFinal serde = .ok exchange) :
      FrameStep serde state frame { state with
        toExchange := { exchange with session := { exchange.session with inTurn := false } }
        finalMessage := none } true

theorem onFrame_step {ptc r : Bool} (h : s.onFrame d ptc f = .ok (s', r)) :
    FrameStep d s f s' r := by
  unfold onFrame at h
  dsimp only at h
  split_ifs at h with hass hst hctl hres hinfo hden
  · cases h
    exact .ignored (not_isStr_of_isStr hass (by decide)) (not_isStr_of_isStr hass (by decide))
  · obtain ⟨next, hnext, h⟩ := bind_eq_ok.mp h
    cases h
    unfold onStreamEvent at hnext
    split_ifs at hnext
    obtain ⟨⟨str, m⟩, hpush, hnext⟩ := bind_eq_ok.mp hnext
    cases m with
    | none =>
      cases hnext
      exact .streams hst str hpush
    | some m => exact .completes hst str m _ hpush (onAssistant_step hnext)
  · obtain ⟨x, hexc, h⟩ := bind_eq_ok.mp h
    cases h
    exact .controls hctl x (control_step hexc)
  · obtain ⟨next, hnext, h⟩ := bind_eq_ok.mp h
    cases h
    unfold onTurnResult at hnext
    split_ifs at hnext with hfails
    obtain ⟨x, hexc, hnext⟩ := bind_eq_ok.mp hnext
    cases hnext
    refine .ends hres ?_ x hexc
    simp only [Bool.or_eq_true, not_or] at hfails
    simpa using hfails.1.1.1.1
  · cases h
    exact .ignored hst hctl

theorem emitFinal_same {x : Exchange} (h : s.emitFinal d = .ok x) :
    x.session.heldReply = s.session.heldReply ∧ x.calls = s.calls := by
  unfold emitFinal at h
  split at h
  · exact ⟨(emit_ok h).1.heldReply, (emit_ok h).2⟩
  · cases h
    exact ⟨rfl, rfl⟩

theorem onFrame_ok {ptc r : Bool} (hdec : s.responseId = none → s.calls = [])
    (h : s.onFrame d ptc f = .ok (s', r)) :
    (r = true ∧ s'.session.heldReply = s.session.heldReply) ∨
      (r = false ∧ FrameEffect d s s' f) := by
  cases onFrame_step h with
  | ignored hst hctl =>
    exact Or.inr ⟨rfl, .quiet (not_requests_of_kind hctl) (.of_same rfl rfl rfl rfl) rfl rfl⟩
  | streams hk str hpush =>
    exact Or.inr ⟨rfl, .quiet (not_requests_of_kind (not_isStr_of_isStr hk (by decide)))
      (.of_same rfl rfl rfl rfl) rfl rfl⟩
  | completes hk str m _ hpush hasm =>
    obtain ⟨hasm⟩ := hasm
    have hid : s.responseId = none := hasm.first
    obtain ⟨hid', l, hopens⟩ := hasm.opens (hdec hid)
    exact Or.inr ⟨rfl, .opens (not_requests_of_kind (not_isStr_of_isStr hk (by decide)))
      hid hid' l hopens⟩
  | controls hk x hs =>
    refine Or.inr ⟨rfl, ?_⟩
    rcases control_ok hs with ⟨hn, hem, hcs⟩ | ⟨hc, hsome, i, hem, htak⟩
    · exact .quiet (fun hreqs => hreqs.2 (hn hreqs.1)) hem hcs rfl
    · exact .takes ⟨hc, hsome⟩ i hem htak rfl
  | ends hk hcs x hfin =>
    exact Or.inl ⟨rfl, (emitFinal_same hfin).1⟩

structure ResultEffect (serde : Serde) (state state' : Sampling) (item : ResponseItem)
    (returned : Bool) (id : Text) (call : ToolCall) : Prop where
  callId : item.toValue.get "call_id" = str id
  lookup : state.calls.lookup id = some call
  adapter : state'.session.adapter = state.session.adapter
  history : state'.session.history.map some =
    state.session.history.map some ++ [mirror serde state.session.adapter item]
  events : state'.events = state.events
  responseId : state'.responseId = state.responseId
  calls : state'.calls = state.calls.set id { call with finished := true }
  finished : returned = true → ∀ entry ∈ state'.calls, entry.2.finished = true
  heldReply : returned = false → state'.session.heldReply = state.session.heldReply
  pending : state'.session.pendingToolCalls = state.session.pendingToolCalls
  messageStream : state'.messageStream = state.messageStream
  finalMessage : state'.finalMessage = state.finalMessage
  unfinished : call.finished = false
  /-- One reply to the request of the call is written, or held. -/
  reply : ∃ request content isError, call.request = some request ∧
    toolResultContent item (item.toValue.get "output") = .ok (content, isError) ∧
    ((returned = false ∧ state'.session.written =
        state.session.written ++ [toolReply request content isError]) ∨
      (returned = true ∧ state'.session.written = state.session.written ∧
        state'.session.heldReply = some (toolReply request content isError)))

/-- **A result finishes the call it is for; the request returns when all are finished.** -/
theorem onResult_ok {r : Bool} (h : s.onResult d i = .ok (s', r)) :
    ∃ id c, ResultEffect d s s' i r id c := by
  unfold onResult at h
  obtain ⟨id, hid, h⟩ := bind_eq_ok.mp h
  obtain ⟨c, hc, h⟩ := bind_eq_ok.mp h
  rw [orFail_eq_ok] at hid hc
  by_cases hfin : c.finished = true
  · rw [if_pos hfin] at h
    cases h
  rw [if_neg hfin] at h
  obtain ⟨req, hreq, h⟩ := bind_eq_ok.mp h
  rw [orFail_eq_ok] at hreq
  obtain ⟨⟨con, ie⟩, hcont, h⟩ := bind_eq_ok.mp h
  obtain ⟨ses, hsess, h⟩ := bind_eq_ok.mp h
  obtain ⟨v, hv, rfl⟩ := rememberValue_ok hsess
  have hnot : c.finished = false := Bool.not_eq_true _ ▸ hfin
  have hcallId : i.toValue.get "call_id" = str id := by
    revert hid
    cases i.toValue.get "call_id" with
    | str t =>
      intro hid
      rw [some.inj hid]
    | _ => rintro ⟨⟩
  have hhis : (s.session.history ++ [v]).map some =
      s.session.history.map some ++ [mirror d s.session.adapter i] := by
    rw [map_append, map_singleton, hv]
  refine ⟨id, c, ?_⟩
  split_ifs at h with hall
  · cases h
    exact ⟨hcallId, hc, rfl, hhis, rfl, rfl, rfl,
      fun _ e he => all_eq_true.mp hall e he, Bool.noConfusion, rfl, rfl, rfl, hnot,
      req, con, ie, hreq, hcont, Or.inr ⟨rfl, rfl, rfl⟩⟩
  · cases h
    exact ⟨hcallId, hc, rfl, hhis, rfl, rfl, rfl, Bool.noConfusion, fun _ => rfl, rfl, rfl, rfl,
      hnot, req, con, ie, hreq, hcont, Or.inl ⟨rfl, rfl⟩⟩

end SushiGpt.ClaudeTransport
