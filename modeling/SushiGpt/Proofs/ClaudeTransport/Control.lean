/-
What a control request does.

A control request either leaves the calls and the mirror alone, or takes the item of one
call: the item is mirrored and queued for the native side, and the call keeps the request.
`Correlated` is the bookkeeping behind it.  Every call that is queued, running or answered
is there once, and is a call of the message whose item has been taken and which is not
finished.
-/
import SushiGpt.ClaudeTransport.Duplex
import SushiGpt.Proofs.CodexApi.OpenResponses
import SushiGpt.Lib.Fallible

namespace SushiGpt.ClaudeTransport

open CodexApi List Calls

variable {d : Serde} {x x' : Exchange} {i : ResponseItem}

theorem orFail_eq_ok {α : Type} {v : Option α} {msg : String} {a : α} :
    orFail v msg = .ok a ↔ v = some a := by
  cases v with
  | none => exact ⟨nofun, nofun⟩
  | some b => exact ⟨fun h => by cases h; rfl, fun h => by cases h; rfl⟩

/-! ### Calls by identifier -/

namespace Calls

variable {calls : Calls} {id o : Text} {c : ToolCall}

theorem map_fst_set : (calls.set id c).map Prod.fst = calls.map Prod.fst := by
  rw [set, map_map]
  refine map_congr_left fun e _ => ?_
  show (if e.1 = id then (id, c) else e).1 = e.1
  split_ifs with h
  · exact h.symm
  · rfl

theorem lookup_set : (calls.set id c).lookup o =
    if o = id then (calls.lookup id).map fun _ => c else calls.lookup o := by
  induction calls with
  | nil => simp [set]
  | cons e r ih =>
    show List.lookup o ((if e.1 = id then (id, c) else e) :: set r id c) = _
    by_cases hkey : e.1 = id <;> by_cases ho : o = id <;> grind

theorem lookup_set_self {old : ToolCall} (h : calls.lookup id = some old) :
    (calls.set id c).lookup id = some c := by
  rw [lookup_set, if_pos rfl, h, Option.map_some]

theorem lookup_set_of_ne (hne : o ≠ id) : (calls.set id c).lookup o = calls.lookup o := by
  rw [lookup_set, if_neg hne]

/-- A call that still has its item is not the one that was replaced by a taken one. -/
theorem lookup_of_lookup_set {old new : ToolCall} (hold : calls.lookup id = some old)
    (h : (calls.set id new).lookup o = some c) (hnew : new.item = none)
    (hi : c.item = some i) : calls.lookup o = some c := by
  by_cases ho : o = id
  · rw [ho, lookup_set_self hold] at h
    cases h
    rw [hnew] at hi
    cases hi
  · rwa [lookup_set_of_ne ho] at h

theorem mem_of_lookup (h : calls.lookup id = some c) : (id, c) ∈ calls := by
  obtain ⟨b, a, rfl, -⟩ := lookup_eq_some_iff.mp h
  exact mem_append_right _ mem_cons_self

end Calls

/-! ### Emitting -/

def callIdOf (item : ResponseItem) : Option Text := (buildToolCall item).map RunningTool.callId

/-- The items that are queued for the native side. -/
def queued (events : List ResponseEvent) : List ResponseItem :=
  events.filterMap ResponseEvent.item?

/-- From one state to the next the items have been mirrored and queued. -/
structure Emits (serde : Serde) (before after : Exchange) (items : List ResponseItem) : Prop where
  adapter : after.session.adapter = before.session.adapter
  heldReply : after.session.heldReply = before.session.heldReply
  history : after.session.history.map some =
    before.session.history.map some ++ items.map (mirror serde before.session.adapter)
  queued : queued after.events = queued before.events ++ items

namespace Emits

variable {first s t : Exchange} {l m : List ResponseItem}

theorem of_same (had : s.session.adapter = first.session.adapter)
    (hheld : s.session.heldReply = first.session.heldReply)
    (hhis : s.session.history = first.session.history)
    (hqueued : ClaudeTransport.queued s.events = ClaudeTransport.queued first.events) :
    Emits d first s [] :=
  ⟨had, hheld, by rw [hhis]; simp, by rw [hqueued]; simp⟩

theorem trans (h : Emits d first s l) (h' : Emits d s t m) : Emits d first t (l ++ m) where
  adapter := h'.adapter.trans h.adapter
  heldReply := h'.heldReply.trans h.heldReply
  history := by
    rw [h'.history, h.history, h.adapter, map_append, append_assoc]
  queued := by
    rw [h'.queued, h.queued, append_assoc]

end Emits

theorem rememberValue_ok {ses ses' : Session} (h : ses.rememberValue d i.toValue = .ok ses') :
    ∃ v, mirror d ses.adapter i = some v ∧ ses' = { ses with history := ses.history ++ [v] } := by
  obtain ⟨v, hv, h⟩ := bind_eq_ok.mp h
  rw [orFail_eq_ok] at hv
  cases h
  exact ⟨v.erase "id", by rw [mirror, hv]; rfl, rfl⟩

theorem emit_eq (h : x.emit d i = .ok x') :
    ∃ v, mirror d x.session.adapter i = some v ∧
      x' = { x with
        session := { x.session with history := x.session.history ++ [v] }
        events := x.events ++ [.outputItemDone i] } := by
  obtain ⟨ses, hsess, h⟩ := bind_eq_ok.mp h
  obtain ⟨v, hv, rfl⟩ := rememberValue_ok hsess
  cases h
  exact ⟨v, hv, rfl⟩

theorem emit_ok (h : x.emit d i = .ok x') : Emits d x x' [i] ∧ x'.calls = x.calls := by
  obtain ⟨v, hv, rfl⟩ := emit_eq h
  refine ⟨⟨rfl, rfl, ?_, ?_⟩, rfl⟩
  · rw [map_append, map_singleton, map_singleton, hv]
  · exact filterMap_append

/-! ### Control requests -/

inductive ControlStep (serde : Serde) (exchange : Exchange) (frame : Json) (defer : Bool) :
    Exchange → Prop where
  /-- A request other than a call is answered at once. -/
  | replies (hno : Exchange.isToolsCall frame = false) (response : Json)
      (hreply : exchange.reply (frame.get "request") = .ok response) :
      ControlStep serde exchange frame defer { exchange with
        session := exchange.session.write (Exchange.controlResponse frame response) }
  /-- A call that no open call of the message is for is kept for later. -/
  | defers (hcall : Exchange.isToolsCall frame = true)
      (hnone : Exchange.correlate exchange.calls (Exchange.callParams frame) = .ok [])
      (hdefer : defer = true) :
      ControlStep serde exchange frame defer { exchange with session := { exchange.session with
        pendingToolCalls := exchange.session.pendingToolCalls ++ [frame] } }
  /-- The call it is for is mirrored and emitted, and keeps the request. -/
  | takes (hcall : Exchange.isToolsCall frame = true) (id : Text) (call : ToolCall)
      (item : ResponseItem) (value : Json)
      (hfound : Exchange.correlate exchange.calls (Exchange.callParams frame) = .ok [id])
      (hlookup : exchange.calls.lookup id = some call) (hitem : call.item = some item)
      (hmirror : mirror serde exchange.session.adapter item = some value) :
      ControlStep serde exchange frame defer {
        session := { exchange.session with history := exchange.session.history ++ [value] }
        calls := exchange.calls.set id { call with item := none, request := some frame }
        events := exchange.events ++ [.outputItemDone item] }

theorem control_step {f : Json} {sender defer : Bool} (h : x.control d f sender defer = .ok x') :
    ControlStep d x f defer x' := by
  unfold Exchange.control at h
  split_ifs at h with hk hc
  · obtain ⟨found, hfd, h⟩ := bind_eq_ok.mp h
    match found, h with
    | [], h =>
      dsimp only at h
      split_ifs at h with hdef
      cases h
      exact .defers hc hfd hdef
    | [id], h =>
      obtain ⟨c, hlk, h⟩ := bind_eq_ok.mp h
      obtain ⟨i, hi, h⟩ := bind_eq_ok.mp h
      rw [orFail_eq_ok] at hlk hi
      dsimp only at h
      split_ifs at h
      obtain ⟨v, hmir, rfl⟩ := emit_eq h
      exact .takes hc id c i v hfd hlk hi hmir
    | _ :: _ :: _, h => cases h
  · obtain ⟨r, hrep, h⟩ := bind_eq_ok.mp h
    cases h
    exact .replies (Bool.not_eq_true _ ▸ hc) r hrep

structure Takes (calls calls' : Calls) (frame : Json) (item : ResponseItem) : Prop where
  taken : ∃ id call, calls.lookup id = some call ∧ call.item = some item ∧
    calls' = calls.set id { call with item := none, request := some frame }

/-- **A control request takes the item of the call it is for, or nothing is emitted.** -/
theorem control_ok {f : Json} {defer : Bool} (h : ControlStep d x f defer x') :
    ((Exchange.isToolsCall f = true → Exchange.correlate x.calls (Exchange.callParams f) = .ok []) ∧
        Emits d x x' [] ∧ x'.calls = x.calls) ∨
      (Exchange.isToolsCall f = true ∧
        Exchange.correlate x.calls (Exchange.callParams f) ≠ .ok [] ∧
        ∃ i, Emits d x x' [i] ∧ Takes x.calls x'.calls f i) := by
  cases h with
  | replies hno r hrep =>
    refine Or.inl ⟨fun hc => ?_, .of_same rfl rfl rfl rfl, rfl⟩
    rw [hno] at hc
    cases hc
  | defers hc hn hdef =>
    exact Or.inl ⟨fun _ => hn, .of_same rfl rfl rfl rfl, rfl⟩
  | takes hc id c i v hfd hlk hi hmir =>
    refine Or.inr ⟨hc, by rw [hfd]; nofun, i, ⟨rfl, rfl, ?_, ?_⟩, ⟨id, c, hlk, hi, rfl⟩⟩
    · rw [map_append, map_singleton, map_singleton, hmir]
    · exact filterMap_append

/-! ### Calls on their way -/

/-- The items that may be queued for the native side, and the calls beyond them. -/
structure Correlated (calls : Calls) (items : List ResponseItem) (outstanding : List Text) :
    Prop where
  /-- The item of a call makes that call. -/
  named : ∀ id call item, calls.lookup id = some call → call.item = some item →
    callIdOf item = some id
  /-- A call is not finished before its item is taken. -/
  waiting : ∀ id call item, calls.lookup id = some call → call.item = some item →
    call.finished = false
  /-- Every call is on its way once. -/
  nodup : (items.filterMap callIdOf ++ outstanding).Nodup
  /-- A call on its way has been taken and is not finished. -/
  running : ∀ id ∈ items.filterMap callIdOf ++ outstanding,
    ∃ call, calls.lookup id = some call ∧ call.item = none ∧ call.finished = false

namespace Correlated

variable {calls calls' : Calls} {l l' : List ResponseItem}
  {out out' : List Text} {f : Json} {i : ResponseItem}

/-- The calls on their way may move from one place to another. -/
theorem moves (h : Correlated calls l out)
    (hperm : (l.filterMap callIdOf ++ out).Perm (l'.filterMap callIdOf ++ out')) :
    Correlated calls l' out' where
  named := h.named
  waiting := h.waiting
  nodup := hperm.nodup_iff.mp h.nodup
  running id hid := h.running id (hperm.mem_iff.mpr hid)

theorem takes (h : Correlated calls l out) (htak : Takes calls calls' f i) :
    Correlated calls' (l ++ [i]) out := by
  obtain ⟨id, c, hc, hi, rfl⟩ := htak.taken
  have hid : callIdOf i = some id := h.named id c i hc hi
  -- The item of this call had not been taken, so the call was not on its way.
  have hnew : id ∉ l.filterMap callIdOf ++ out := by
    intro hmem
    obtain ⟨o, ho, hn, -⟩ := h.running id hmem
    rw [hc] at ho
    cases ho
    rw [hi] at hn
    cases hn
  have hperm : ((l ++ [i]).filterMap callIdOf ++ out).Perm
      (id :: (l.filterMap callIdOf ++ out)) := by
    rw [filterMap_append, append_assoc]
    simp only [filterMap_cons, hid, filterMap_nil]
    exact perm_middle
  refine ⟨?_, ?_, ?_, ?_⟩
  · intro o c' i' hc' hi'
    exact h.named o c' i' (lookup_of_lookup_set hc hc' rfl hi') hi'
  · intro o c' i' hc' hi'
    exact h.waiting o c' i' (lookup_of_lookup_set hc hc' rfl hi') hi'
  · exact hperm.nodup_iff.mpr (nodup_cons.mpr ⟨hnew, h.nodup⟩)
  · intro o ho
    rcases mem_cons.mp (hperm.mem_iff.mp ho) with rfl | ho
    · exact ⟨_, lookup_set_self hc, rfl, h.waiting _ c i hc hi⟩
    · have hne : o ≠ id := fun heq => hnew (heq ▸ ho)
      rw [lookup_set_of_ne hne]
      exact h.running o ho

theorem finishes {id : Text} {c : ToolCall} (h : Correlated calls l (id :: out))
    (hc : calls.lookup id = some c) :
    Correlated (calls.set id { c with finished := true }) l out := by
  obtain ⟨hnew, hnd⟩ := nodup_cons.mp (perm_middle.nodup_iff.mp h.nodup)
  obtain ⟨o, ho, hn, -⟩ := h.running id (mem_append_right _ mem_cons_self)
  rw [hc] at ho
  cases ho
  refine ⟨?_, ?_, hnd, ?_⟩
  · intro o c' i' hc' hi'
    exact h.named o c' i' (lookup_of_lookup_set hc hc' hn hi') hi'
  · intro o c' i' hc' hi'
    exact h.waiting o c' i' (lookup_of_lookup_set hc hc' hn hi') hi'
  · intro o ho
    have hne : o ≠ id := fun heq => hnew (heq ▸ ho)
    rw [lookup_set_of_ne hne]
    refine h.running o ?_
    rcases mem_append.mp ho with ho | ho
    · exact mem_append_left _ ho
    · exact mem_append_right _ (mem_cons_of_mem _ ho)

theorem quiet (h : Correlated calls l out) (hfin : ∀ e ∈ calls, e.2.finished = true) :
    l.filterMap callIdOf = [] ∧ out = [] := by
  rw [← append_eq_nil_iff, eq_nil_iff_forall_not_mem]
  intro id hid
  obtain ⟨c, hc, -, hnot⟩ := h.running id hid
  have := hfin _ (mem_of_lookup hc)
  rw [hnot] at this
  cases this

end Correlated

end SushiGpt.ClaudeTransport
