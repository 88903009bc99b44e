/-
The mirror of native history over a whole request.

The transport mirrors a call when it emits it and an output when the output arrives; the
native turn records the call when it arrives and the output when the tool has finished.
These are two logs that mirror each other through queues.  They agree at the end exactly
when nobody appended against an entry that was on its way from the other side: no tool
finished while an emitted item was queued, and no call was emitted while a result was.
-/
import SushiGpt.Proofs.ClaudeTransport.Sampling
import SushiGpt.Lib.Lists
import SushiGpt.Lib.Mirror

namespace SushiGpt.ClaudeTransport

open Json CodexApi RunningTool List ResponseItem SushiGpt.Lists

variable {serde : Serde} {ptc : Bool} {it : ResponseItem} {prompt : Prompt}
  {sampling : Sampling} {adapter : Adapter} {c : ToolCall} {id : Text}

/-! ### Outputs -/

section

variable (t : RunningTool) (p : FunctionCallOutputPayload)

theorem output_isOutput : (t.output p).IsOutput := by
  unfold output
  split_ifs <;> exact trivial

theorem output_typed : (t.output p).Typed := by
  intro v h
  have hout := output_isOutput t p
  rw [h] at hout
  exact hout

theorem output_callId : (t.output p).toValue.get "call_id" = str t.callId := by
  have hid : (t.output p).id = none := by
    unfold output
    split_ifs <;> rfl
  have hmem : ("call_id", str t.callId) ∈ (t.output p).body := by
    unfold output
    split_ifs <;> exact mem_cons_of_mem _ mem_cons_self
  rw [toValue_eq (output_typed t p), hid]
  refine get_object ?_ (mem_append_left _ hmem)
  exact (append_nil (t.output p).body).symm ▸ (t.output p).nodup_body_keys

def outputCallId : ResponseItem → Option Text
  | .functionCallOutput _ callId _ => callId
  | .customToolCallOutput _ callId _ => some callId
  | _ => none

theorem outputCallId_output : outputCallId (t.output p) = some t.callId := by
  unfold output
  split_ifs <;> rfl

end

/-! ### Calls between the two sides -/

/-- The items on their way to the native side, and the calls that are beyond them. -/
structure Pipeline (calls : Calls) (l : List ResponseItem) (outstanding : List Text) :
    Prop where
  /-- Every call on its way is there once; it has been taken and is not finished. -/
  correlated : Correlated calls l outstanding
  /-- Only the first item of the queue may be a text. -/
  texts : ∀ it ∈ l.tail, (callIdOf it).isSome = true
  /-- A queued text is ahead of every call. -/
  textFirst : ∀ it, l.head? = some it → callIdOf it = none → outstanding = [] ∧ Unfinished calls
  emitted : ∀ it ∈ l, Emitted it

variable {l rest : List ResponseItem} {r : List ResponseEvent} {ts : List Json}

namespace Pipeline

variable {calls calls' : Calls} {outstanding outstanding' : List Text} {it : ResponseItem}
  {frame : Json}

theorem empty : Pipeline [] [] [] :=
  ⟨Declared.correlated (fun _ h => nomatch h), nofun, nofun, nofun⟩

theorem opens {b a : Exchange} (h : Opens serde b a l) : Pipeline a.calls l [] :=
  ⟨h.correlated, h.calls, fun _ _ _ => ⟨rfl, h.unfinished⟩, h.emitted⟩

/-- The native side takes the first item out of its channel. -/
theorem receives (h : Pipeline calls (it :: l) outstanding)
    (hperm : ((callIdOf it).toList ++ outstanding).Perm outstanding') :
    Pipeline calls l outstanding' := by
  refine ⟨h.correlated.moves ?_, ?_, ?_, ?_⟩
  · have hids : (it :: l).filterMap callIdOf = (callIdOf it).toList ++ l.filterMap callIdOf := by
      rw [filterMap_cons]
      cases callIdOf it with
      | none | some id => rfl
    have hswap : ((callIdOf it).toList ++ l.filterMap callIdOf ++ outstanding).Perm
        (l.filterMap callIdOf ++ ((callIdOf it).toList ++ outstanding)) := by
      rw [← append_assoc]
      exact perm_append_comm.append_right _
    rw [hids]
    exact hswap.trans (hperm.append_left _)
  · exact fun o ho => h.texts o (mem_of_mem_tail ho)
  · intro o ho hn
    have hc := h.texts o (mem_of_mem_head? ho)
    rw [hn] at hc
    cases hc
  · exact fun o ho => h.emitted o (mem_cons_of_mem _ ho)

theorem outstanding_eq_nil (h : Pipeline [] l outstanding) : outstanding = [] := by
  rw [eq_nil_iff_forall_not_mem]
  intro id hid
  obtain ⟨c, hc, -⟩ := h.correlated.running id (mem_append_right _ hid)
  cases hc

variable (h : Pipeline calls l outstanding)
include h

theorem takes (htak : Takes calls calls' frame it) : Pipeline calls' (l ++ [it]) outstanding := by
  have hc := htak.callId_isSome h.correlated
  refine ⟨h.correlated.takes htak, ?_, ?_, ?_⟩
  · cases l with
    | nil => exact fun o ho => absurd ho not_mem_nil
    | cons first r => exact forall_mem_append.mpr ⟨h.texts, forall_mem_singleton.mpr hc⟩
  · intro o ho hn
    cases l with
    | nil =>
      cases ho
      rw [hn] at hc
      cases hc
    | cons first r =>
      obtain ⟨hout, hunf⟩ := h.textFirst o ho hn
      exact ⟨hout, hunf.takes htak⟩
  · exact forall_mem_append.mpr ⟨h.emitted, forall_mem_singleton.mpr (.inl hc)⟩

theorem runs (hne : outstanding ≠ [])
    (hperm : outstanding.Perm outstanding') : Pipeline calls l outstanding' :=
  ⟨h.correlated.moves (hperm.append_left _), h.texts,
    fun o ho hn => absurd (h.textFirst o ho hn).1 hne, h.emitted⟩

theorem finishes (hperm : outstanding.Perm (id :: outstanding')) (hc : calls.lookup id = some c) :
    Pipeline (calls.set id { c with finished := true }) l outstanding' := by
  have hne : outstanding ≠ [] := by
    rintro rfl
    exact cons_ne_nil _ _ (nil_perm.mp hperm)
  exact ⟨(h.correlated.moves (hperm.append_left _)).finishes hc, h.texts,
    fun o ho hn => absurd (h.textFirst o ho hn).1 hne, h.emitted⟩

/-- **When every call is finished, nothing is on its way.** -/
theorem quiet (hcs : calls ≠ [])
    (hfin : ∀ e ∈ calls, e.2.finished = true) : l = [] ∧ outstanding = [] := by
  obtain ⟨hids, hout⟩ := h.correlated.quiet hfin
  refine ⟨?_, hout⟩
  cases l with
  | nil => rfl
  | cons it r =>
    -- The first item is no call, so it is a text, and no call would be finished.
    have hn : callIdOf it = none := filterMap_eq_nil_iff.mp hids it mem_cons_self
    obtain ⟨-, hunf⟩ := h.textFirst it rfl hn
    obtain ⟨e, r', rfl⟩ := exists_cons_of_ne_nil hcs
    have := hfin e mem_cons_self
    rw [hunf e mem_cons_self] at this
    cases this

end Pipeline

namespace Duplex

/-! ### The invariant of a run -/

def items (d : Duplex) : List ResponseItem := queued d.sampling.events

/-- The calls the native side has received and the transport has no result for. -/
def outstanding (d : Duplex) : List Text :=
  d.native.inFlight.map RunningTool.callId ++ d.results.filterMap outputCallId

/-- What holds in every state of a run. -/
structure Valid (d : Duplex) : Prop where
  pipeline : Pipeline d.sampling.calls d.items d.outstanding
  /-- Before the message there are no calls and no items. -/
  declared : d.sampling.responseId = none → d.sampling.calls = [] ∧ d.items = []
  outputs : ∀ it ∈ d.results, ∃ tool payload, it = RunningTool.output tool payload
  /-- A reply is held when every call is finished. -/
  held : d.sampling.session.heldReply ≠ none →
    d.sampling.calls ≠ [] ∧ ∀ entry ∈ d.sampling.calls, entry.2.finished = true
  notHeld : d.returned = false → d.sampling.session.heldReply = none

variable {d d' : Duplex} {sampling : Sampling}

theorem Valid.results_eq_nil (h : d.Valid) (hout : d.outstanding = []) : d.results = [] := by
  rw [eq_nil_iff_forall_not_mem]
  intro it hi
  obtain ⟨t, p, rfl⟩ := h.outputs it hi
  have hmem : t.callId ∈ d.results.filterMap outputCallId :=
    mem_filterMap.mpr ⟨_, hi, outputCallId_output t p⟩
  rw [(append_eq_nil_iff.mp hout).2] at hmem
  cases hmem

theorem Valid.quiet_of_held (h : d.Valid) (hheld : d.sampling.session.heldReply ≠ none) :
    d.items = [] ∧ d.results = [] := by
  obtain ⟨hcs, hfin⟩ := h.held hheld
  obtain ⟨hit, hout⟩ := h.pipeline.quiet hcs hfin
  exact ⟨hit, h.results_eq_nil hout⟩

theorem opened_valid {history : List ResponseItem}
    (hcs : sampling.calls = []) (hevs : sampling.events = [])
    (hheld : sampling.session.heldReply = none) : (opened sampling history).Valid := by
  have hit : (opened sampling history).items = [] := by
    show queued sampling.events = []
    rw [hevs]
    rfl
  refine ⟨?_, fun _ => ⟨hcs, hit⟩, nofun, fun h => absurd hheld h, fun _ => hheld⟩
  rw [hit]
  show Pipeline sampling.calls [] []
  rw [hcs]
  exact Pipeline.empty

/-! ### Steps -/

theorem withSampling_eq_some {results : List ResponseItem}
    {outcome : Except CodexErr (Sampling × Bool)} (h : d.withSampling results outcome = some d') :
    ∃ sampling returned, outcome = .ok (sampling, returned) ∧
      d' = { d with sampling, results, returned } := by
  cases outcome with
  | error error => cases h
  | ok value =>
    cases h
    exact ⟨value.1, value.2, rfl, rfl⟩

theorem Valid.emits (h : d.Valid) (hret : d.returned = false)
    (hem : Emits serde d.sampling.toExchange sampling.toExchange l)
    (hpip : Pipeline sampling.calls (d.items ++ l) d.outstanding)
    (hdec : sampling.responseId = none → sampling.calls = [] ∧ d.items ++ l = []) :
    Valid { d with sampling, returned := false } := by
  have hheld : sampling.session.heldReply = none := hem.heldReply.trans (h.notHeld hret)
  have hit : queued sampling.events = d.items ++ l := hem.queued
  rw [← hit] at hpip hdec
  exact ⟨hpip, hdec, h.outputs, fun hsome => absurd hheld hsome, fun _ => hheld⟩

theorem Valid.frame {frame : Json} (h : d.Valid) (hret : d.returned = false)
    (heff : FrameEffect serde d.sampling sampling frame) :
    Valid { d with sampling, returned := false } := by
  cases heff with
  | quiet hno hem hcs hid =>
    refine h.emits hret hem ?_ ?_
    · rw [append_nil, hcs]
      exact h.pipeline
    · rw [append_nil, hcs, hid]
      exact h.declared
  | takes hreqs it hem htak hid =>
    refine h.emits hret hem (h.pipeline.takes htak) fun hnoId => ?_
    obtain ⟨id, c, hc, -⟩ := htak.taken
    rw [(h.declared (hid.symm.trans hnoId)).1] at hc
    cases hc
  | opens hno hid hid' l hopens =>
    obtain ⟨hcs, hit⟩ := h.declared hid
    have hout : d.outstanding = [] := (hcs ▸ h.pipeline).outstanding_eq_nil
    refine h.emits hret hopens.emits ?_ fun hnoId => absurd hnoId hid'
    rw [hit, hout]
    exact Pipeline.opens hopens

theorem Valid.result {returned : Bool} (h : d.Valid)
    (hret : d.returned = false) (hres : d.results = it :: rest)
    (heff : ResultEffect serde d.sampling sampling it returned id c) :
    Valid { d with sampling, results := rest, returned } := by
  have hmem : it ∈ d.results := hres ▸ mem_cons_self
  obtain ⟨tool, payload, rfl⟩ := h.outputs it hmem
  have hid : tool.callId = id := Json.str.inj ((output_callId tool payload).symm.trans heff.callId)
  have hout : d.outstanding.Perm (id ::
      (d.native.inFlight.map callId ++ rest.filterMap outputCallId)) := by
    unfold outstanding
    rw [hres, filterMap_cons, outputCallId_output, hid]
    exact perm_middle
  have hit : queued sampling.events = d.items := congrArg queued heff.events
  refine ⟨?_, ?_, ?_, ?_, ?_⟩
  · show Pipeline sampling.calls (queued sampling.events) _
    rw [hit, heff.calls]
    exact h.pipeline.finishes hout heff.lookup
  · intro hnoId
    have hcs := (h.declared (heff.responseId.symm.trans hnoId)).1
    have hlk := heff.lookup
    rw [hcs] at hlk
    cases hlk
  · exact fun other ho => h.outputs other (hres ▸ mem_cons_of_mem _ ho)
  · intro hsome
    cases returned with
    | false => exact absurd ((heff.heldReply rfl).trans (h.notHeld hret)) hsome
    | true =>
      refine ⟨?_, heff.finished rfl⟩
      intro hnil
      have hset := heff.calls
      rw [hnil] at hset
      have hlk : (d.sampling.calls.set id { c with finished := true }).lookup id =
          some { c with finished := true } := Calls.lookup_set_self heff.lookup
      rw [← hset] at hlk
      cases hlk
  · intro hfal
    exact (heff.heldReply hfal).trans (h.notHeld hret)

/-- The native side takes an event out of its channel. -/
theorem Valid.event {e : ResponseEvent}
    (h : d.Valid) (hevs : d.sampling.events = e :: r) (f : Text) :
    Valid { d with
      sampling := { d.sampling with events := r }
      native := d.native.onEvent e f } := by
  cases e with
  | outputItemDone it =>
    have hit : d.items = it :: queued r := congrArg queued hevs
    have hpip := h.pipeline
    rw [hit] at hpip
    refine ⟨hpip.receives ?_, ?_, h.outputs, h.held, h.notHeld⟩
    · show ((callIdOf it).toList ++ (d.native.inFlight.map callId ++
        d.results.filterMap outputCallId)).Perm
          ((d.native.inFlight ++ (buildToolCall it).toList).map callId ++
            d.results.filterMap outputCallId)
      have hc : (buildToolCall it).toList.map callId = (callIdOf it).toList := by
        unfold callIdOf
        cases buildToolCall it with
        | none | some t => rfl
      rw [map_append, hc, ← append_assoc]
      exact perm_append_comm.append_right _
    · intro hnoId
      have hnil := (h.declared hnoId).2
      rw [hit] at hnil
      cases hnil
  | _ =>
    have hit : d.items = queued r := (congrArg queued hevs).trans rfl
    refine ⟨?_, ?_, h.outputs, h.held, h.notHeld⟩
    · show Pipeline d.sampling.calls (queued r) d.outstanding
      rw [← hit]
      exact h.pipeline
    · show d.sampling.responseId = none → d.sampling.calls = [] ∧ queued r = []
      rw [← hit]
      exact h.declared

theorem Valid.toolDone {t : RunningTool} {r : List RunningTool} (h : d.Valid)
    (htools : d.native.inFlight = t :: r) (p : FunctionCallOutputPayload) (f : Text) :
    Valid { d with
      native := { d.native.record (t.output p) f with inFlight := r }
      results := d.results ++ [t.output p] } := by
  have hout : d.outstanding = t.callId :: (r.map callId ++ d.results.filterMap outputCallId) := by
    unfold outstanding
    rw [htools]
    rfl
  refine ⟨h.pipeline.runs (by rw [hout]; nofun) ?_, h.declared, ?_, h.held, h.notHeld⟩
  · show d.outstanding.Perm (r.map callId ++ (d.results ++ [t.output p]).filterMap outputCallId)
    rw [hout, filterMap_append, ← append_assoc]
    rw [filterMap_cons, outputCallId_output]
    exact (perm_append_singleton _ _).symm
  · exact forall_mem_append.mpr ⟨h.outputs, forall_mem_singleton.mpr ⟨t, p, rfl⟩⟩

/-! ### The two logs -/

/-- The mirror and native history, in the flattened vocabulary, with what is on its way. -/
def logs (serde : Serde) (d : Duplex) : Logs (Option Json) where
  left := d.sampling.session.history.map some
  right := d.native.history.map (mirror serde d.sampling.session.adapter)
  toLeft := d.results.map (mirror serde d.sampling.session.adapter)
  toRight := d.items.map (mirror serde d.sampling.session.adapter)

/-- The action records something against an entry that is on its way from the other side:
the transport emits a call while a result is queued, or a tool finishes while an item is. -/
def Crosses (d : Duplex) (action : Action) : Prop :=
  match action with
  | .frame frame => Requests d.sampling.calls frame ∧ d.results ≠ []
  | .toolDone _ _ => d.items ≠ []
  | _ => False

theorem mirrored_ne {v : Json} (hi : Emitted it) (hmir : mirror serde adapter it = some v)
    (t : RunningTool) (p : FunctionCallOutputPayload) :
    mirror serde adapter it ≠ mirror serde adapter (t.output p) := by
  intro heq
  have hout := (type_mirror (output_typed t p) (heq ▸ hmir)).mpr (output_isOutput t p)
  exact hi.not_isOutput ((type_mirror hi.typed hmir).mp hout)

/-- The items a frame emits are mirrored on the left and sent to the right. -/
theorem Valid.move_emits (h : d.Valid)
    (hem : Emits serde d.sampling.toExchange sampling.toExchange l) (hit : ∀ it ∈ l, Emitted it) :
    (d.logs serde).Move (l ≠ [] ∧ d.results ≠ [])
      (logs serde { d with sampling, returned := false }) := by
  have had : sampling.session.adapter = d.sampling.session.adapter := hem.adapter
  have hqueued : queued sampling.events = d.items ++ l := hem.queued
  have hhis : sampling.session.history.map some = d.sampling.session.history.map some ++
      l.map (mirror serde d.sampling.session.adapter) := hem.history
  refine (Logs.Move.sendLeft (l.map (mirror serde d.sampling.session.adapter)) ?_).congr ?_ ?_
  · intro a ha b _ hb
    obtain ⟨it, hi, rfl⟩ := mem_map.mp ha
    obtain ⟨o, hout, rfl⟩ := mem_map.mp hb
    -- What has been mirrored is a value, since it is in the mirror.
    have hmem : mirror serde d.sampling.session.adapter it ∈ sampling.session.history.map some := by
      rw [hhis]
      exact mem_append_right _ ha
    obtain ⟨v, -, hv⟩ := mem_map.mp hmem
    obtain ⟨t, p, rfl⟩ := h.outputs o hout
    exact mirrored_ne (hit it hi) hv.symm t p
  · show _ ↔ _ ∧ d.results.map _ ≠ []
    rw [Ne, Ne, Ne, Ne, map_eq_nil_iff, map_eq_nil_iff]
  · show Logs.mk (sampling.session.history.map some) _ _ ((queued sampling.events).map _) = _
    rw [had, hqueued, hhis, map_append]
    rfl

theorem move_result {returned : Bool} (hres : d.results = it :: rest)
    (heff : ResultEffect serde d.sampling sampling it returned id c) :
    (d.logs serde).Move False (logs serde { d with sampling, results := rest, returned }) := by
  refine (Logs.Move.arriveLeft _ _ (congrArg (map _) hres)).congr Iff.rfl ?_
  show Logs.mk (sampling.session.history.map some) _ _ ((queued sampling.events).map _) = _
  rw [heff.adapter, heff.history, heff.events]
  rfl

/-- An item that the native side receives is recorded on the right. -/
theorem Valid.move_item (h : d.Valid)
    (hevs : d.sampling.events = .outputItemDone it :: r) (f : Text) :
    (d.logs serde).Move False (logs serde { d with
      sampling := { d.sampling with events := r }
      native := d.native.onEvent (.outputItemDone it) f }) := by
  have hit : d.items = it :: queued r := congrArg queued hevs
  have htyp : it.Typed := (h.pipeline.emitted it (hit ▸ mem_cons_self)).typed
  refine (Logs.Move.arriveRight _ _ (congrArg (map _) hit)).congr Iff.rfl ?_
  show Logs.mk _ ((d.native.history ++ [_]).map _) _ _ = _
  rw [map_append, map_singleton, mirror_assignMissing htyp]
  rfl

/-- The output of a tool is recorded on the right and sent to the left. -/
theorem Valid.move_toolDone (h : d.Valid) (t : RunningTool)
    (r : List RunningTool) (p : FunctionCallOutputPayload) (f : Text) :
    (d.logs serde).Move (d.items ≠ []) (logs serde { d with
      native := { d.native.record (t.output p) f with inFlight := r }
      results := d.results ++ [t.output p] }) := by
  refine (Logs.Move.sendRight [mirror serde d.sampling.session.adapter (t.output p)] ?_).congr ?_ ?_
  · intro a ha hto b hb
    obtain ⟨v, -, rfl⟩ := mem_map.mp ha
    obtain ⟨it, hi, hv⟩ := mem_map.mp hto
    rw [mem_singleton.mp hb, ← hv]
    exact mirrored_ne (h.pipeline.emitted it hi) hv t p
  · show _ ↔ _ ∧ d.items.map _ ≠ []
    simp
  · show Logs.mk _ ((d.native.history ++ [_]).map _) ((d.results ++ [_]).map _) _ = _
    rw [map_append, map_append, map_singleton, map_singleton,
      mirror_assignMissing (output_typed t p)]
    rfl

/-- **One step keeps the invariant and is one move of the logs**, unless the request ends
without a held reply. -/
theorem Valid.step {action : Action} (h : d.Valid) (hs : d.step serde ptc action = some d') :
    (d'.returned = true ∧ d'.sampling.session.heldReply = none) ∨
      (d'.Valid ∧ d'.sampling.session.adapter = d.sampling.session.adapter ∧
        ∃ crosses, (d.logs serde).Move crosses (d'.logs serde) ∧ (crosses ↔ d.Crosses action)) := by
  unfold Duplex.step at hs
  by_cases hret : d.returned = true
  · rw [if_pos hret] at hs
    cases hs
  rw [if_neg hret] at hs
  rw [Bool.not_eq_true] at hret
  cases action with
  | frame frame =>
    obtain ⟨sampling, returned, hframe, rfl⟩ := withSampling_eq_some hs
    rcases onFrame_ok (fun hid => (h.declared hid).1) hframe with ⟨rfl, hheld⟩ | ⟨rfl, heff⟩
    · exact Or.inl ⟨rfl, hheld.trans (h.notHeld hret)⟩
    · refine Or.inr ⟨h.frame hret heff, ?_⟩
      cases heff with
      | quiet hno hem hcs hid =>
        refine ⟨hem.adapter, _, h.move_emits hem nofun, ?_⟩
        exact ⟨fun hcross => absurd rfl hcross.1, fun hcross => absurd hcross.1 hno⟩
      | takes hreqs it hem htak hid =>
        have hc := htak.callId_isSome h.pipeline.correlated
        refine ⟨hem.adapter, _, h.move_emits hem ?_, ?_⟩
        · intro other ho
          rw [mem_singleton.mp ho]
          exact Or.inl hc
        · exact ⟨fun hcross => ⟨hreqs, hcross.2⟩, fun hcross => ⟨nofun, hcross.2⟩⟩
      | opens hno hid hid' l hopens =>
        have hcs := (h.declared hid).1
        have hres := h.results_eq_nil (hcs ▸ h.pipeline).outstanding_eq_nil
        refine ⟨hopens.emits.adapter, _, h.move_emits hopens.emits hopens.emitted, ?_⟩
        exact ⟨fun hcross => absurd hres hcross.2, fun hcross => absurd hcross.1 hno⟩
  | result =>
    dsimp only at hs
    split at hs
    · cases hs
    · next it rest hres =>
      split_ifs at hs
      obtain ⟨sampling, returned, hresult, rfl⟩ := withSampling_eq_some hs
      obtain ⟨id, c, heff⟩ := onResult_ok hresult
      exact Or.inr ⟨h.result hret hres heff, heff.adapter, False, move_result hres heff, Iff.rfl⟩
  | event fresh =>
    dsimp only at hs
    split at hs
    · cases hs
    · next event rest hevs =>
      cases hs
      refine Or.inr ⟨h.event hevs fresh, rfl, False, ?_, Iff.rfl⟩
      cases event with
      | outputItemDone it => exact h.move_item hevs fresh
      | _ =>
        have hit : d.items = queued rest := (congrArg queued hevs).trans rfl
        show (d.logs serde).Move False (Logs.mk _ _ _ ((queued rest).map _))
        rw [← hit]
        exact Logs.Move.refl _
  | toolDone payload fresh =>
    dsimp only at hs
    split at hs
    · cases hs
    · next tool rest htools =>
      cases hs
      exact Or.inr ⟨h.toolDone htools payload fresh, rfl, _,
        h.move_toolDone tool rest payload fresh, Iff.rfl⟩

/-! ### Runs -/

/-- No action of the run crosses an entry that is on its way. -/
def InOrder (serde : Serde) (ptc : Bool) : Duplex → List Action → Prop
  | _, [] => True
  | d, action :: rest =>
    ¬ d.Crosses action ∧ ∀ d', d.step serde ptc action = some d' → InOrder serde ptc d' rest

theorem run_cons {a : Action} {r : List Action} (h : d.run serde ptc (a :: r) = some d') :
    ∃ next, d.step serde ptc a = some next ∧ next.run serde ptc r = some d' := by
  unfold run at h
  exact Option.bind_eq_some_iff.mp h

theorem run_of_returned {acts : List Action} (hret : d.returned = true)
    (h : d.run serde ptc acts = some d') : d' = d := by
  cases acts with
  | nil =>
    cases h
    rfl
  | cons a r =>
    obtain ⟨next, hs, -⟩ := run_cons h
    unfold step at hs
    rw [if_pos hret] at hs
    cases hs

/-- What a run that ends with a held reply has done. -/
structure Ends (serde : Serde) (d d' : Duplex) (inOrder : Prop) : Prop where
  valid : d'.Valid
  adapter : d'.sampling.session.adapter = d.sampling.session.adapter
  inStep : (d.logs serde).InStep → inOrder → (d'.logs serde).InStep
  diverges : (d.logs serde).InStep → ¬ inOrder → (d'.logs serde).Diverged
  diverged : (d.logs serde).Diverged → (d'.logs serde).Diverged

/-- **Over a run the logs stay in step exactly as long as nothing crosses.** -/
theorem Valid.run {d' : Duplex} (hheld : d'.sampling.session.heldReply ≠ none) :
    ∀ (acts : List Action) (d : Duplex), d.Valid →
      d.run serde ptc acts = some d' →
      Ends serde d d' (InOrder serde ptc d acts) := by
  intro acts
  induction acts with
  | nil =>
    intro d h hrun
    cases hrun
    exact ⟨h, rfl, fun hin _ => hin, fun _ hno => absurd trivial hno, id⟩
  | cons a r ih =>
    intro d h hrun
    obtain ⟨next, hs, hrest⟩ := run_cons hrun
    rcases h.step hs with ⟨hret, hn⟩ | ⟨hvd, had, cs, hmove, hcros⟩
    · rw [run_of_returned hret hrest] at hheld
      exact absurd hn hheld
    · have hends := ih next hvd hrest
      refine ⟨hends.valid, hends.adapter.trans had, ?_, ?_, ?_⟩
      · rintro hin ⟨hno, hord⟩
        exact hends.inStep (hin.move hmove fun hcross => hno (hcros.mp hcross)) (hord next hs)
      · intro hin hnot
        by_cases hcross : cs
        · exact hends.diverged (hin.cross hmove hcross)
        · refine hends.diverges (hin.move hmove hcross) fun hord => hnot ⟨?_, ?_⟩
          · exact fun hc => hcross (hcros.mpr hc)
          · intro o ho
            rw [hs] at ho
            cases ho
            exact hord
      · exact fun hdiv => hends.diverged (hdiv.move hmove)

end Duplex

/-! ### Adapted history -/

theorem containsEncryption_body (i : List Json) (ts : Json) :
    containsEncryption (object [("input", arr i), ("tools", ts)]) =
      (anyEncryptedItem i || containsEncryption ts) := by
  have hfs : object [("input", arr i), ("tools", ts)] =
      obj [("input".toList, arr i), ("tools".toList, ts)] := by
    refine congrArg obj ?_
    simp [objectFields, insertField, keyBefore]
  rw [hfs]
  simp [containsEncryption, anyEncryptedField, encryptsField, encryptedField]

theorem adapterPrepare_eq_some_iff {l p : List Json} {d : Json} :
    Adapter.prepare serde l d = some (adapter, ts, p) ↔
      (anyEncryptedItem l || containsEncryption d) = false ∧
        Adapter.ofTools d = some (adapter, ts) ∧
        l.map (adapter.prepareItem serde) = p.map some := by
  unfold Adapter.prepare
  rw [containsEncryption_body, ← mapM_eq_some_iff]
  split_ifs with henc
  · simp [henc]
  · rw [Bool.not_eq_true] at henc
    simp [henc, Option.bind_eq_some_iff]

/-- Preparing a request is mirroring its input with the adapter of its tools. -/
theorem prepare_eq_ok_iff {i : List Json} :
    prepare serde prompt = .ok (adapter, ts, i) ↔
      containsEncryption prompt.tools = false ∧
        Adapter.ofTools prompt.tools = some (adapter, ts) ∧
        prompt.input.map (mirror serde adapter) = i.map some := by
  have hmir : prompt.input.map (mirror serde adapter) = (prompt.input.map toValue).map
      fun it => (adapter.prepareItem serde it).map fun v => v.erase "id" := by
    rw [map_map]
    rfl
  rw [hmir, map_map_eq_some_iff]
  constructor
  · intro h
    obtain ⟨⟨adapter', ts', p⟩, hprep, h⟩ := bind_eq_ok.mp h
    cases h
    obtain ⟨henc, had, hprepar⟩ := adapterPrepare_eq_some_iff.mp (orFail_eq_ok.mp hprep)
    exact ⟨(Bool.or_eq_false_iff.mp henc).2, had, p, hprepar, rfl⟩
  · rintro ⟨htools, had, p, hprepar, rfl⟩
    -- Every item has been prepared, so none is encrypted.
    have henc : anyEncryptedItem (prompt.input.map toValue) = false := by
      rw [anyEncryptedItem_eq, any_eq_false]
      intro it hi
      have hmem := mem_map_of_mem (f := adapter.prepareItem serde) hi
      rw [hprepar] at hmem
      obtain ⟨v, -, hv⟩ := mem_map.mp hmem
      unfold Adapter.prepareItem at hv
      split_ifs at hv with henc
      exact henc
    refine bind_eq_ok.mpr ⟨(adapter, ts, p), orFail_eq_ok.mpr ?_, rfl⟩
    exact adapterPrepare_eq_some_iff.mpr ⟨Bool.or_eq_false_iff.mpr ⟨henc, htools⟩, had, hprepar⟩

/-- The history of the mirror is what the next request takes native history for exactly
when the two logs are equal. -/
theorem adaptedHistory_eq_ok_iff {d : Duplex} (htools : containsEncryption prompt.tools = false)
    (had : Adapter.ofTools prompt.tools = some (d.sampling.session.adapter, ts)) :
    d.adaptedHistory serde prompt = .ok d.sampling.session.history ↔
      (d.logs serde).left = (d.logs serde).right := by
  constructor
  · intro h
    obtain ⟨⟨adapter, ts', i⟩, hprep, h⟩ := bind_eq_ok.mp h
    obtain ⟨-, had', hinp⟩ := prepare_eq_ok_iff.mp hprep
    rw [had] at had'
    cases had'
    cases h
    exact hinp.symm
  · intro h
    have hprep : prepare serde { prompt with input := d.native.history } =
        .ok (d.sampling.session.adapter, ts, d.sampling.session.history) :=
      prepare_eq_ok_iff.mpr ⟨htools, had, h.symm⟩
    exact bind_eq_ok.mpr ⟨_, hprep, rfl⟩

/-- What opening a request has checked and set up. -/
structure Opened (serde : Serde) (session : Session) (prompt : Prompt) (sampling : Sampling) :
    Prop where
  plain : containsEncryption prompt.tools = false
  adapter : ∃ tools, Adapter.ofTools prompt.tools = some (sampling.session.adapter, tools)
  history : prompt.input.map (mirror serde sampling.session.adapter) =
    sampling.session.history.map some
  calls : sampling.calls = []
  events : sampling.events = []
  responseId : sampling.responseId = none
  heldReply : sampling.session.heldReply = none
  pendingToolCalls : sampling.session.pendingToolCalls = []

theorem beginSample_ok {s : Session} {m u : Text}
    (h : s.beginSample serde prompt m u = .ok sampling) : Opened serde s prompt sampling := by
  obtain ⟨⟨adapter, ts, i⟩, hprep, h⟩ := bind_eq_ok.mp h
  dsimp only at h
  split_ifs at h with hsame hstar
  obtain ⟨t, -, h⟩ := bind_eq_ok.mp h
  obtain ⟨frame, -, h⟩ := bind_eq_ok.mp h
  cases h
  obtain ⟨hplain, had, hinp⟩ := prepare_eq_ok_iff.mp hprep
  have hraw : prompt.tools = s.rawTools := by
    by_contra hne
    exact hsame (Or.inr (Or.inr hne))
  have hsess : adapter = s.adapter := by
    have := s.adapted
    rw [← hraw, had] at this
    exact Option.some.inj this
  subst hsess
  exact ⟨hplain, ⟨ts, had⟩, hinp, rfl, rfl, rfl, rfl, rfl⟩

/-- **The mirror agrees with native history at the end of a request exactly when nothing
was recorded against an entry on its way.** -/
theorem mirror_agrees_iff {session : Session} {prompt : Prompt} {model uuid : Text}
    {sampling : Sampling} {actions : List Action} {final : Duplex}
    (hbegin : session.beginSample serde prompt model uuid = .ok sampling)
    (hrun : (Duplex.opened sampling prompt.input).run serde prompt.parallelToolCalls actions =
      some final)
    (hheld : final.sampling.session.heldReply ≠ none) :
    final.adaptedHistory serde prompt = .ok final.sampling.session.history ↔
      Duplex.InOrder serde prompt.parallelToolCalls (Duplex.opened sampling prompt.input)
        actions := by
  have hop := beginSample_ok hbegin
  obtain ⟨ts, had⟩ := hop.adapter
  have hends := Duplex.Valid.run hheld actions _
    (Duplex.opened_valid hop.calls hop.events hop.heldReply) hrun
  have hfin : Adapter.ofTools prompt.tools = some (final.sampling.session.adapter, ts) := by
    rw [hends.adapter]
    exact had
  have hst : ((Duplex.opened sampling prompt.input).logs serde).InStep := by
    refine Or.inl ⟨?_, rfl⟩
    show sampling.session.history.map some = prompt.input.map _ ++ (queued sampling.events).map _
    rw [hop.events, ← hop.history]
    exact (append_nil _).symm
  rw [adaptedHistory_eq_ok_iff hop.plain hfin]
  by_cases hord : Duplex.InOrder serde prompt.parallelToolCalls
      (Duplex.opened sampling prompt.input) actions
  · obtain ⟨hit, hres⟩ := hends.valid.quiet_of_held hheld
    refine iff_of_true ((hends.inStep hst hord).eq ?_ ?_) hord
    · show final.results.map _ = []
      rw [hres]
      rfl
    · show final.items.map _ = []
      rw [hit]
      rfl
  · exact iff_of_false (hends.diverges hst hord).ne hord

/-! ### Requests of a fresh session -/

def oneTool : Json :=
  arr [object [("type", str "function".toList), ("name", str "f".toList)]]

def freshSession : Session where
  adapter := ⟨[("codex_tool_0".toList, ⟨"f".toList, none, false⟩)],
    [((none, "f".toList), "codex_tool_0".toList)]⟩
  rawTools := oneTool
  tools := []
  model := []
  instructions := []
  history := []
  heldReply := none
  inTurn := false
  pendingToolCalls := []
  written := []
  adapted := by decide +kernel

def askOnce : Prompt where
  input := [.message none "user".toList
    [object [("type", str "input_text".toList), ("text", str "q".toList)]]]
  tools := oneTool
  baseInstructions := []
  parallelToolCalls := true

def streamed (event : List (String × Json)) : Action :=
  .frame (object [("type", str "stream_event".toList), ("event", object event)])

def startMessage : Action :=
  streamed [("type", str "message_start".toList),
    ("message", object [("id", str "m".toList), ("model", str "c".toList)])]

def startCall (index : Nat) (id : String) : Action :=
  streamed [("type", str "content_block_start".toList), ("index", int index),
    ("content_block", object [("type", str "tool_use".toList), ("id", str id.toList),
      ("name", str "mcp__native__codex_tool_0".toList), ("input", int index)])]

def stopMessage : Action := streamed [("type", str "message_stop".toList)]

def requestCall (index : Nat) : Action :=
  .frame (object [("type", str "control_request".toList), ("request_id", int index),
    ("request", object [("subtype", str "mcp_message".toList), ("server_name", str "native".toList),
      ("message", object [("method", str "tools/call".toList), ("id", int index),
        ("params", object [("name", str "codex_tool_0".toList), ("arguments", int index)])])])])

def finishTool : Action := .toolDone ⟨.text [], some true⟩ []

def deliver : Action := .event []

/-- How a request of the fresh session ends: whether a reply is held, and whether the
mirror agrees with native history. -/
def outcome (actions : List Action) : Option (Bool × Bool) :=
  match freshSession.beginSample wireSerde askOnce [] [] with
  | .error _ => none
  | .ok sampling =>
    match (Duplex.opened sampling askOnce.input).run wireSerde true actions with
    | none => none
    | some final =>
      some (final.sampling.session.heldReply.isSome,
        match final.adaptedHistory wireSerde askOnce with
        | .ok input => decide (input = final.sampling.session.history)
        | .error _ => false)

theorem exists_of_outcome {a : List Action} {agrees : Bool} (h : outcome a = some (true, agrees)) :
    ∃ sampling final, freshSession.beginSample wireSerde askOnce [] [] = .ok sampling ∧
      (Duplex.opened sampling askOnce.input).run wireSerde true a = some final ∧
      final.sampling.session.heldReply ≠ none ∧
      (final.adaptedHistory wireSerde askOnce = .ok final.sampling.session.history ↔
        agrees = true) := by
  unfold outcome at h
  split at h
  · cases h
  · next sampling hbeg =>
    split at h
    · cases h
    · next final hrun =>
      obtain ⟨hheld, hagr⟩ := Prod.mk.inj (Option.some.inj h)
      refine ⟨sampling, final, hbeg, hrun, Option.isSome_iff_ne_none.mp hheld, ?_⟩
      rw [← hagr]
      split
      · next i hinp =>
        rw [hinp, decide_eq_true_iff]
        exact ⟨fun h => Except.ok.inj h, fun h => congrArg _ h⟩
      · next er her =>
        rw [her]
        exact ⟨nofun, nofun⟩

/-- One call, whose item is received before its tool finishes. -/
def oneCall : List Action :=
  [startMessage, startCall 0 "a", stopMessage, requestCall 0, deliver, deliver, deliver,
    finishTool, .result]

theorem one_call_mirrored :
    ∃ sampling final, freshSession.beginSample wireSerde askOnce [] [] = .ok sampling ∧
      (Duplex.opened sampling askOnce.input).run wireSerde true oneCall = some final ∧
      final.sampling.session.heldReply ≠ none ∧
      Duplex.InOrder wireSerde true (Duplex.opened sampling askOnce.input) oneCall := by
  have hout : outcome oneCall = some (true, true) := by decide +kernel
  obtain ⟨sampling, final, hbeg, hrun, hheld, hagr⟩ := exists_of_outcome hout
  exact ⟨sampling, final, hbeg, hrun, hheld, (mirror_agrees_iff hbeg hrun hheld).mp (hagr.mpr rfl)⟩

/-- Two calls; the first tool finishes while the item of the second call is queued. -/
def twoCalls : List Action :=
  [startMessage, startCall 0 "a", startCall 1 "b", stopMessage, requestCall 0, requestCall 1,
    deliver, deliver, deliver, finishTool, deliver, finishTool, .result, .result]

theorem crossing_calls_not_mirrored :
    ∃ sampling final, freshSession.beginSample wireSerde askOnce [] [] = .ok sampling ∧
      (Duplex.opened sampling askOnce.input).run wireSerde true twoCalls = some final ∧
      final.sampling.session.heldReply ≠ none ∧
      final.adaptedHistory wireSerde askOnce ≠ .ok final.sampling.session.history := by
  have hout : outcome twoCalls = some (true, false) := by decide +kernel
  obtain ⟨sampling, final, hbeg, hrun, hheld, hagr⟩ := exists_of_outcome hout
  exact ⟨sampling, final, hbeg, hrun, hheld, fun h => Bool.false_ne_true (hagr.mp h)⟩

end SushiGpt.ClaudeTransport
