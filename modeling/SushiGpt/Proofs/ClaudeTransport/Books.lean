/-
The calls of a message and the requests for them.

Every `tools/call` request that is read goes into one of two places: it is bound to the one
open call it asks for, or it waits.  Binding it emits the item of that call.  `Books` says
this of the calls and the requests; it is kept by a request that arrives, by a native result,
and by the end of the message, which binds every request that has waited for it.
-/
import SushiGpt.Proofs.ClaudeTransport.Sampling
import SushiGpt.Lib.Lists

namespace SushiGpt.ClaudeTransport

open Json CodexApi Exchange List

variable {d : Serde} {c : ToolCall} {x x' : Exchange} {s : Sampling}
  {id : Text} {new : ToolCall}

/-! ### One entry of the calls -/

namespace Calls

variable {cs : Calls} {id : Text} {old : ToolCall}

theorem mem_set {e : Text × ToolCall} (h : e ∈ cs.set id new) :
    e = (id, new) ∨ (e ∈ cs ∧ e.1 ≠ id) := by
  obtain ⟨o, ho, rfl⟩ := mem_map.mp h
  split_ifs with hid
  · exact Or.inl rfl
  · exact Or.inr ⟨ho, hid⟩

variable (hnd : (cs.map Prod.fst).Nodup) (h : cs.lookup id = some old)

include hnd h

/-- The entry of a call, and what replacing it leaves. -/
theorem exists_split :
    ∃ b aft, cs = b ++ (id, old) :: aft ∧ ∀ new, cs.set id new = b ++ (id, new) :: aft := by
  obtain ⟨b, aft, rfl, hbefore⟩ := lookup_eq_some_iff.mp h
  refine ⟨b, aft, rfl, fun new => ?_⟩
  have hkeep : ∀ es : Calls, (∀ e ∈ es, e.1 ≠ id) →
      es.map (fun e => if e.1 = id then (id, new) else e) = es := by
    intro es hents
    conv_rhs => rw [← map_id es]
    exact map_congr_left fun e he => if_neg (hents e he)
  rw [map_append, map_cons, nodup_append, nodup_cons] at hnd
  obtain ⟨-, ⟨haft, -⟩, -⟩ := hnd
  unfold Calls.set
  rw [map_append, map_cons, if_pos rfl, hkeep b, hkeep aft]
  · intro e he heq
    refine haft ?_
    show id ∈ aft.map Prod.fst
    rw [← heq]
    exact mem_map_of_mem he
  · intro e he heq
    have := hbefore e he
    rw [heq] at this
    simp at this

theorem filterMap_set_some {β : Type} {f : Text × ToolCall → Option β} {b : β}
    (hold : f (id, old) = none) (hnew : f (id, new) = some b) :
    ((cs.set id new).filterMap f).Perm (b :: cs.filterMap f) := by
  obtain ⟨bef, aft, hcs, hset⟩ := exists_split hnd h
  rw [hset, hcs]
  simp only [filterMap_append, filterMap_cons, hold, hnew]
  exact perm_middle

theorem filterMap_set_same {β : Type} (f : Text × ToolCall → Option β) (new : ToolCall)
    (hsame : f (id, new) = f (id, old)) : (cs.set id new).filterMap f = cs.filterMap f := by
  obtain ⟨b, aft, hcs, hset⟩ := exists_split hnd h
  rw [hset, hcs]
  simp only [filterMap_append, filterMap_cons, hsame]

/-- What holds of a call under its identifier still holds of the entry that replaces it. -/
theorem exists_mem_set {P : Text → ToolCall → Prop} {o : Text} (hnew : P id old → P id new)
    (hmem : (o, c) ∈ cs) (hc : P o c) :
    ∃ c', (o, c') ∈ cs.set id new ∧ P o c' := by
  by_cases heq : o = id
  · subst heq
    have hsame := Lists.lookup_of_mem hnd hmem
    rw [h] at hsame
    cases hsame
    exact ⟨new, mem_of_lookup (lookup_set_self h), hnew hc⟩
  · refine ⟨c, mem_of_lookup ?_, hc⟩
    rw [lookup_set_of_ne heq]
    exact Lists.lookup_of_mem hnd hmem

end Calls

/-! ### Requests and the calls they are for -/

/-- A call that a request may be for is open and is what the request asks for. -/
theorem correlate_singleton {cs : Calls} {p : Json} (hnd : (cs.map Prod.fst).Nodup)
    (h : correlate cs p = .ok [id]) (hlk : cs.lookup id = some c) :
    c.request = none ∧ asksFor p c = true := by
  unfold correlate at h
  dsimp only at h
  split at h
  · next n hnam =>
    obtain ⟨found, hfd, h⟩ := bind_eq_ok.mp h
    split_ifs at h with hasks
    cases h
    rw [hlk] at hfd
    cases hfd
    obtain ⟨-, hop⟩ := Option.filter_eq_some_iff.mp hnam
    rw [hlk] at hop
    exact ⟨Option.isNone_iff_eq_none.mp hop, hasks⟩
  · have hmem : id ∈ (cs.filter fun e => e.2.request.isNone && asksFor p e.2).map Prod.fst := by
      rw [Except.ok.inj h]
      exact mem_cons_self
    obtain ⟨e, he, rfl⟩ := mem_map.mp hmem
    obtain ⟨he, hasks⟩ := mem_filter.mp he
    rw [Lists.lookup_of_mem hnd he] at hlk
    cases hlk
    rw [Bool.and_eq_true] at hasks
    exact ⟨Option.isNone_iff_eq_none.mp hasks.1, hasks.2⟩

/-- The block of the model message that declares a call. -/
structure Declares (block : Json) (id : Text) (call : ToolCall) : Prop where
  kind : block.get "type" = str "tool_use".toList
  id : block.get "id" = str id
  name : block.get "name" = str (toolPre ++ call.name)
  input : block.get "input" = call.arguments

/-- The native item of a call: its tool under its native name, with its arguments. -/
def nativeItem (serde : Serde) (adapter : Adapter) (id : Text) (call : ToolCall) :
    Option ResponseItem :=
  adapter.restore serde
    (.functionCall none call.name none (serde.print call.arguments) (some []) id) true

/-- A call is as a block declares it, and either waits with its item or has the request
that asked for it. -/
structure Entered (serde : Serde) (adapter : Adapter) (blocks : List Json) (id : Text)
    (call : ToolCall) : Prop where
  declared : ∃ block ∈ blocks, Declares block id call
  waiting : ∀ item, call.item = some item →
    nativeItem serde adapter id call = some item ∧ call.request = none ∧ call.finished = false
  bound : call.item = none → ∃ frame, call.request = some frame ∧
    isToolsCall frame = true ∧
    asksFor (callParams frame) call = true

/-- The calls that have been emitted to the native side, with their identifiers. -/
def emittedCalls (exchange : Exchange) : List (Text × ResponseItem) :=
  (queued exchange.events).filterMap fun item => (callIdOf item).map fun id => (id, item)

theorem emittedCalls_emit {i : ResponseItem} (h : x'.events = x.events ++ [.outputItemDone i]) :
    emittedCalls x' = emittedCalls x ++ ((callIdOf i).map fun id => (id, i)).toList := by
  rw [emittedCalls, h, queued, filterMap_append, filterMap_append]
  cases hid : callIdOf i <;> simp [emittedCalls, queued, ResponseEvent.item?, hid]

theorem emittedCalls_congr (h : queued x'.events = queued x.events) :
    emittedCalls x' = emittedCalls x := by
  rw [emittedCalls, h, emittedCalls]

/-- The calls of a message and the requests that have been read for them. -/
structure Books (serde : Serde) (adapter : Adapter) (blocks reads : List Json)
    (exchange : Exchange) (waiting : List Json) : Prop where
  adapter_eq : exchange.session.adapter = adapter
  ids : (exchange.calls.map Prod.fst).Nodup
  entered : ∀ entry ∈ exchange.calls, Entered serde adapter blocks entry.1 entry.2
  asked : ∀ frame ∈ reads, isToolsCall frame = true
  /-- Every request read is bound to one call or waits. -/
  requests : reads.Perm (exchange.calls.filterMap (fun entry => entry.2.request) ++ waiting)
  /-- The calls that have been emitted are those whose item is taken, each once. -/
  emitted : ((emittedCalls exchange).map Prod.fst).Perm
    (exchange.calls.filterMap fun entry => if entry.2.item = none then some entry.1 else none)
  items : ∀ emission ∈ emittedCalls exchange, ∃ call, (emission.1, call) ∈ exchange.calls ∧
    nativeItem serde adapter emission.1 call = some emission.2

variable {a : Adapter} {bs reads : List Json}

namespace Books

variable {waiting waiting' : List Json} {x x' : Exchange} {f : Json}

/-- The order in which requests wait does not matter. -/
theorem reorder (h : Books d a bs reads x waiting)
    (hperm : waiting.Perm waiting') : Books d a bs reads x waiting' :=
  { h with requests := h.requests.trans (hperm.append_left _) }

theorem read (h : Books d a bs reads x waiting) (hc : isToolsCall f = true) :
    Books d a bs (reads ++ [f]) x (f :: waiting) := by
  refine { h with asked := ?_, requests := ?_ }
  · exact forall_mem_append.mpr ⟨h.asked, forall_mem_singleton.mpr hc⟩
  · refine (perm_append_singleton f reads).trans ?_
    exact (h.requests.cons f).trans perm_middle.symm

/-- Everything but the calls, the calls in the channel and the adapter may change. -/
theorem congr (h : Books d a bs reads x waiting) (had : x'.session.adapter = x.session.adapter)
    (hcs : x'.calls = x.calls) (hqueued : emittedCalls x' = emittedCalls x) :
    Books d a bs reads x' waiting := by
  obtain ⟨_, calls, _⟩ := x'
  obtain rfl : calls = x.calls := hcs
  refine { h with adapter_eq := had.trans h.adapter_eq, emitted := ?_, items := ?_ }
  · rw [hqueued]
    exact h.emitted
  · rw [hqueued]
    exact h.items

/-- A request that waits is one for a tool. -/
theorem first (h : Books d a bs reads x (f :: waiting)) : isToolsCall f = true :=
  h.asked f (h.requests.mem_iff.mpr (mem_append_right _ mem_cons_self))

/-- The request that waits first takes the call it asks for. -/
theorem takes {i : ResponseItem} {v : Json} (h : Books d a bs reads x (f :: waiting))
    (hfd : correlate x.calls (callParams f) = .ok [id]) (hlk : x.calls.lookup id = some c)
    (hi : c.item = some i) :
    Books d a bs reads {
      session := { x.session with history := x.session.history ++ [v] }
      calls := x.calls.set id { c with item := none, request := some f }
      events := x.events ++ [.outputItemDone i] } waiting := by
  have hmem := Calls.mem_of_lookup hlk
  have hent := h.entered _ hmem
  obtain ⟨hnat, hreq, hfin⟩ := hent.waiting i hi
  obtain ⟨-, hasks⟩ := correlate_singleton h.ids hfd hlk
  have hid : callIdOf i = some id := restore_callId hnat
  have hemit : emittedCalls ⟨{ x.session with
      history := x.session.history ++ [v] }, x.calls.set id
      { c with item := none, request := some f },
      x.events ++ [.outputItemDone i]⟩ = emittedCalls x ++ [(id, i)] := by
    rw [emittedCalls_emit rfl, hid]
    rfl
  refine ⟨h.adapter_eq, ?_, ?_, h.asked, ?_, ?_, ?_⟩
  · rw [Calls.map_fst_set]
    exact h.ids
  · intro entry he
    rcases Calls.mem_set he with rfl | ⟨he, -⟩
    · obtain ⟨b, hblock, hdec⟩ := hent.declared
      exact ⟨⟨b, hblock, { hdec with }⟩, nofun, fun _ => ⟨f, rfl, h.first, hasks⟩⟩
    · exact h.entered entry he
  · have hset : ((x.calls.set id { c with item := none, request := some f }).filterMap
        fun entry => entry.2.request).Perm
        (f :: x.calls.filterMap fun entry => entry.2.request) :=
      Calls.filterMap_set_some h.ids hlk hreq rfl
    refine h.requests.trans (perm_middle.trans ?_)
    exact (hset.append_right waiting).symm
  · rw [hemit, map_append]
    refine (perm_append_singleton id _).trans ?_
    refine (h.emitted.cons id).trans (Calls.filterMap_set_some h.ids hlk ?_ ?_).symm
    · rw [hi]
      rfl
    · rfl
  · intro e hemis
    rw [hemit] at hemis
    obtain ⟨c', hc', hnat'⟩ : ∃ c', (e.1, c') ∈ x.calls ∧ nativeItem d a e.1 c' = some e.2 := by
      rcases mem_append.mp hemis with hemis | hemis
      · exact h.items e hemis
      · rw [mem_singleton.mp hemis]
        exact ⟨c, hmem, hnat⟩
    exact Calls.exists_mem_set
      (P := fun id c => nativeItem d a id c = some e.2)
      h.ids hlk (fun hold => hold) hc' hnat'

/-- A native result finishes a call that has its request. -/
theorem finishes {r : Json} (h : Books d a bs reads x waiting) (hlk : x.calls.lookup id = some c)
    (hreq : c.request = some r) (had : x'.session.adapter = x.session.adapter)
    (hcs : x'.calls = x.calls.set id { c with finished := true }) (hevs : x'.events = x.events) :
    Books d a bs reads x' waiting := by
  have hent := h.entered _ (Calls.mem_of_lookup hlk)
  have hn : c.item = none := by
    cases hi : c.item with
    | none => rfl
    | some i =>
      have := (hent.waiting i hi).2.1
      rw [hreq] at this
      cases this
  have hemit : emittedCalls x' = emittedCalls x := emittedCalls_congr (by rw [hevs])
  refine ⟨had.trans h.adapter_eq, ?_, ?_, h.asked, ?_, ?_, ?_⟩
  · rw [hcs, Calls.map_fst_set]
    exact h.ids
  · intro e he
    rw [hcs] at he
    rcases Calls.mem_set he with rfl | ⟨he, -⟩
    · obtain ⟨b, hblock, hdec⟩ := hent.declared
      refine ⟨⟨b, hblock, { hdec with }⟩, fun i hi => ?_, hent.bound⟩
      rw [hn] at hi
      cases hi
    · exact h.entered e he
  · have hsame := Calls.filterMap_set_same h.ids hlk (fun e => e.2.request)
      { c with finished := true } rfl
    rw [hcs, hsame]
    exact h.requests
  · have hsame := Calls.filterMap_set_same h.ids hlk
      (fun e => if e.2.item = none then some e.1 else none) { c with finished := true } rfl
    rw [hcs, hemit, hsame]
    exact h.emitted
  · intro emi hemis
    rw [hemit] at hemis
    obtain ⟨c', hc', hnat⟩ := h.items emi hemis
    rw [hcs]
    exact Calls.exists_mem_set
      (P := fun id c => nativeItem d a id c = some emi.2)
      h.ids hlk (fun hold => hold) hc' hnat

end Books

/-! ### The end of the message -/

/-- Nothing has been written or held, and no request has been put off. -/
structure Silent (session session' : Session) : Prop where
  written : session'.written = session.written
  heldReply : session'.heldReply = session.heldReply
  pending : session'.pendingToolCalls = session.pendingToolCalls

theorem Silent.trans {first second t : Session} (h : Silent first second)
    (h' : Silent second t) : Silent first t :=
  ⟨h'.written.trans h.written, h'.heldReply.trans h.heldReply, h'.pending.trans h.pending⟩

/-- A request that is not put off is bound. -/
theorem Books.control {f : Json} {waiting : List Json} (h : Books d a bs reads x (f :: waiting))
    (hs : ControlStep d x f false x') :
    Books d a bs reads x' waiting ∧ Silent x.session x'.session := by
  cases hs with
  | replies hno r hrep =>
    rw [h.first] at hno
    cases hno
  | defers hc hn hdef => cases hdef
  | takes hc id c i v hfd hlk hi hmir => exact ⟨h.takes hfd hlk hi, rfl, rfl, rfl⟩

/-- The requests that waited for the message are all bound by it. -/
theorem Books.controls {fs : List Json} : ∀ {x x' : Exchange},
    Books d a bs reads x fs →
    fs.foldlM (fun x f => x.control d f true false) x = .ok x' →
    Books d a bs reads x' [] ∧ Silent x.session x'.session := by
  induction fs with
  | nil =>
    intro x x' h hrun
    cases hrun
    exact ⟨h, rfl, rfl, rfl⟩
  | cons f r ih =>
    intro x x' h hrun
    rw [foldlM_cons, bind_eq_ok] at hrun
    obtain ⟨next, hnext, hrun⟩ := hrun
    obtain ⟨hbooks, hfirst⟩ := h.control (control_step hnext)
    obtain ⟨hend, hsil⟩ := ih hbooks hrun
    exact ⟨hend, hfirst.trans hsil⟩

/-- The calls as the blocks of the message declare them. -/
structure Listed (serde : Serde) (adapter : Adapter) (blocks : List Json) (calls : Calls) :
    Prop where
  ids : (calls.map Prod.fst).Nodup
  entered : ∀ entry ∈ calls, Entered serde adapter blocks entry.1 entry.2
  waiting : ∀ entry ∈ calls, entry.2.item ≠ none

theorem asStr_eq_some {v : Json} {t : Text} (h : v.asStr = some t) : v = str t := by
  cases v with
  | str t' =>
    cases h
    rfl
  | _ => cases h

theorem Listed.onBlock {s s' : Text × Calls} {b : Json} (h : Listed d a bs s.2) (hmem : b ∈ bs)
    (hblock : Sampling.onBlock d a s b = .ok s') : Listed d a bs s'.2 := by
  unfold Sampling.onBlock at hblock
  split_ifs at hblock with htext htool
  · obtain ⟨m, -, hblock⟩ := bind_eq_ok.mp hblock
    cases hblock
    exact h
  · obtain ⟨cid, hid, hblock⟩ := bind_eq_ok.mp hblock
    obtain ⟨n, hnm, hblock⟩ := bind_eq_ok.mp hblock
    by_cases hdup : ((s.2.lookup cid).isSome || s.2.any fun e =>
        e.2.name == n && e.2.arguments == b.get "input") = true
    · rw [if_pos hdup] at hblock
      cases hblock
    rw [if_neg hdup] at hblock
    obtain ⟨i, hi, hblock⟩ := bind_eq_ok.mp hblock
    rw [orFail_eq_ok] at hid hnm hi
    cases hblock
    obtain ⟨full, hfull, hnm⟩ := Option.bind_eq_some_iff.mp hnm
    have hnew : cid ∉ s.2.map Prod.fst := by
      intro hold
      obtain ⟨⟨id, c⟩, he, rfl⟩ := mem_map.mp hold
      rw [Lists.lookup_of_mem h.ids he] at hdup
      exact hdup rfl
    have hdec : Declares b cid ⟨n, b.get "input", some i, none, false⟩ := by
      refine ⟨isStr_iff.mp htool, asStr_eq_some hid, ?_, rfl⟩
      obtain ⟨pre, hsp, hpre⟩ := dropPrefix?_eq_some_iff.mp hnm
      rw [asStr_eq_some hfull, hsp, eq_of_beq hpre]
    refine ⟨?_, ?_, ?_⟩
    · rw [map_append, nodup_append]
      refine ⟨h.ids, nodup_singleton _, fun id hold o ho => ?_⟩
      rintro rfl
      rw [mem_singleton.mp ho] at hold
      exact hnew hold
    · refine forall_mem_append.mpr ⟨h.entered, forall_mem_singleton.mpr
        ⟨⟨b, hmem, hdec⟩, fun i' hi' => ?_, nofun⟩⟩
      cases hi'
      exact ⟨hi, rfl, rfl⟩
    · exact forall_mem_append.mpr ⟨h.waiting, forall_mem_singleton.mpr nofun⟩

theorem placeText_ok {s' : Sampling} {t : Text} (h : s.placeText d id t = .ok s')
    (hfin : ∀ i, s.finalMessage = some i → callIdOf i = none) :
    s'.session.adapter = s.session.adapter ∧ s'.calls = s.calls ∧
      emittedCalls s'.toExchange = emittedCalls s.toExchange ∧
      Silent s.session s'.session ∧ s'.messageStream = s.messageStream ∧
      s'.responseId = s.responseId ∧
      ∀ i, s'.finalMessage = some i → callIdOf i = none := by
  unfold Sampling.placeText at h
  split_ifs at h
  · cases h
    exact ⟨rfl, rfl, rfl, ⟨rfl, rfl, rfl⟩, rfl, rfl, hfin⟩
  · cases h
    refine ⟨rfl, rfl, rfl, ⟨rfl, rfl, rfl⟩, rfl, rfl, fun i hi => ?_⟩
    cases hi
    rfl
  · obtain ⟨x, hexc, h⟩ := bind_eq_ok.mp h
    cases h
    obtain ⟨v, -, rfl⟩ := emit_eq hexc
    refine ⟨rfl, rfl, ?_, ⟨rfl, rfl, rfl⟩, rfl, rfl, hfin⟩
    exact (emittedCalls_emit rfl).trans (append_nil _)

theorem emitFinal_ok (h : s.emitFinal d = .ok x)
    (hfin : ∀ i, s.finalMessage = some i → callIdOf i = none) :
    x.session.adapter = s.session.adapter ∧ x.calls = s.calls ∧
      emittedCalls x = emittedCalls s.toExchange ∧
      Silent s.session x.session := by
  unfold Sampling.emitFinal at h
  split at h
  · next i hi =>
    obtain ⟨v, -, rfl⟩ := emit_eq h
    refine ⟨rfl, rfl, ?_, rfl, rfl, rfl⟩
    rw [emittedCalls_emit rfl, hfin i hi]
    exact append_nil _
  · cases h
    exact ⟨rfl, rfl, rfl, rfl, rfl, rfl⟩

/-- What the end of the message leaves. -/
structure Settled (serde : Serde) (adapter : Adapter) (blocks reads : List Json)
    (state state' : Sampling) : Prop where
  books : Books serde adapter blocks reads state'.toExchange []
  pending : state'.session.pendingToolCalls = []
  written : state'.session.written = state.session.written
  heldReply : state'.session.heldReply = state.session.heldReply
  messageStream : state'.messageStream = state.messageStream
  responseId : state'.responseId ≠ none
  final : ∀ item, state'.finalMessage = some item → callIdOf item = none

/-- **At the end of the message every request that has been read is bound to its call.** -/
theorem Assembles.books {s' : Sampling} {m : Json} (h : Assembles d s m s')
    (hbooks : Books d a bs reads s.toExchange s.session.pendingToolCalls) (hcs : s.calls = [])
    (hfin : ∀ i, s.finalMessage = some i → callIdOf i = none) :
    Settled d a (bs ++ h.blocks) reads s s' := by
  have hlst : Listed d a (bs ++ h.blocks) h.calls := by
    refine foldlM_keeps (fun s => Listed d a (bs ++ h.blocks) s.2) h.blocks
      (fun s b hblock s' hlst honBlock => ?_) _ _ ?_ h.declares
    · rw [hbooks.adapter_eq] at honBlock
      exact hlst.onBlock (mem_append_right _ hblock) honBlock
    · rw [hcs]
      exact ⟨nodup_nil, forall_mem_nil _, forall_mem_nil _⟩
  have hemit : emittedCalls s.toExchange = [] := by
    have hperm := hbooks.emitted
    rw [hcs] at hperm
    exact map_eq_nil_iff.mp hperm.eq_nil
  -- Before any request is bound the calls of the message all wait.
  have hst : Books d a (bs ++ h.blocks) reads ⟨s.session, h.calls,
      s.events ++ [.created (some h.id), .serverModel h.executed]⟩
      s.session.pendingToolCalls := by
    have hqueued : emittedCalls ⟨s.session, h.calls,
        s.events ++ [.created (some h.id), .serverModel h.executed]⟩ = [] := by
      rw [← hemit]
      refine emittedCalls_congr ?_
      rw [queued, filterMap_append]
      exact append_nil _
    have hreqs : h.calls.filterMap (fun e => e.2.request) = [] := by
      rw [filterMap_eq_nil_iff]
      intro e he
      obtain ⟨i, hi⟩ := Option.ne_none_iff_exists'.mp (hlst.waiting e he)
      exact ((hlst.entered e he).waiting i hi).2.1
    have htak : h.calls.filterMap (fun e => if e.2.item = none then some e.1 else none) = [] := by
      rw [filterMap_eq_nil_iff]
      intro e he
      rw [if_neg (hlst.waiting e he)]
    refine ⟨hbooks.adapter_eq, hlst.ids, hlst.entered, hbooks.asked, ?_, ?_, ?_⟩
    · have hreq := hbooks.requests
      rw [hcs] at hreq
      rw [hreqs]
      exact hreq
    · rw [hqueued, htak]
      exact List.Perm.refl _
    · rw [hqueued]
      exact forall_mem_nil _
  obtain ⟨had, hsame, hqueued, hsil, hstr, hid, hfin'⟩ := placeText_ok h.places hfin
  have hpend : h.placed.session.pendingToolCalls = s.session.pendingToolCalls := hsil.pending
  have hplac : Books d a (bs ++ h.blocks) reads
      { h.placed.toExchange with session := { h.placed.session with pendingToolCalls := [] } }
      h.placed.session.pendingToolCalls := by
    rw [hpend]
    exact hst.congr had hsame hqueued
  obtain ⟨hend, hset⟩ := hplac.controls h.controls
  have hid' : h.placed.responseId ≠ none := by
    rw [hid]
    exact Option.some_ne_none _
  refine (congrArg (Settled d a (bs ++ h.blocks) reads s) h.next).mpr ?_
  exact ⟨hend, hset.pending, hset.written.trans hsil.written,
    hset.heldReply.trans hsil.heldReply, hstr, hid', hfin'⟩

end SushiGpt.ClaudeTransport
