/-
What becomes of the telemetry of blocked requests.

The state should tell how many requests have been recorded and hold the most recent of those
recorded since the last drain.  Recording, draining, reloading and replacing keep this.  Two
sections publish telemetry that is not the current one: a forced reload takes the total of the
state it loads, and an update of a domain list takes both from a snapshot that is only checked
for changes of the policy.
-/
import Mathlib.Data.List.DropRight
import SushiGpt.Lib.Lists
import SushiGpt.Lib.Machine
import SushiGpt.NetworkProxy.Runtime

namespace SushiGpt.NetworkProxy

open List Proxy Machine

variable {Config Constraints Platform : Type}

/-! ### The buffer -/

theorem popFront_eq (es : List BlockedRequest) :
    ConfigState.popFront es = es.rtake maxBlockedEvents := by
  induction es with
  | nil => rfl
  | cons e r ih =>
    unfold ConfigState.popFront
    split_ifs with hlong
    · rw [ih, rtake_eq_reverse_take_reverse, rtake_eq_reverse_take_reverse,
        reverse_cons, take_append_of_le_length]
      rw [length_reverse]
      exact Nat.lt_succ_iff.mp hlong
    · rw [List.rtake, Nat.sub_eq_zero_of_le (Nat.not_lt.mp hlong), drop_zero]

/-- The last entries of a longer list are the last entries of its last entries. -/
theorem rtake_concat_rtake {α : Type*} (l : List α) (a : α) (n : Nat) :
    (l.rtake n ++ [a]).rtake n = (l ++ [a]).rtake n := by
  cases n with
  | zero => simp
  | succ n =>
    simp only [rtake_eq_reverse_take_reverse, reverse_append, reverse_reverse,
      reverse_singleton, singleton_append, take_succ_cons, take_take]
    rw [Nat.min_eq_left (Nat.le_succ n)]

/-! ### What should be recorded -/

def sinceDrain : List Event → List BlockedRequest :=
  List.foldl (fun entries event =>
    match event with
    | .recorded entry => entries ++ [entry]
    | .drained => []) []

def recorded (log : List Event) : Nat :=
  log.countP fun event =>
    match event with
    | .recorded _ => true
    | .drained => false

/-- The telemetry of the state is what the log tells: the total is the number of entries
recorded, and the buffer holds the most recent of those recorded since the last drain. -/
@[mk_iff] structure Faithful (state : ConfigState Config Constraints Platform) (log : List Event) :
    Prop where
  total : state.blockedTotal = recorded log
  buffer : state.blocked = (sinceDrain log).rtake maxBlockedEvents

/-- A section that leaves the telemetry and the log alone. -/
theorem Faithful.same {s s' : ConfigState Config Constraints Platform} {log : List Event}
    (h : Faithful s log) (htot : s'.blockedTotal = s.blockedTotal)
    (hbloc : s'.blocked = s.blocked) : Faithful s' (log ++ []) := by
  rw [append_nil]
  exact ⟨htot.trans h.total, hbloc.trans h.buffer⟩

theorem Faithful.recordBlocked_iff {state : ConfigState Config Constraints Platform}
    {log : List Event} {executionId : Option Text} {entry : BlockedRequest}
    (h : Faithful state log) :
    Faithful (state.recordBlocked executionId entry)
        (log ++ [.recorded { entry with executionId }]) ↔ state.blockedTotal < u64Max := by
  rw [faithful_iff, and_iff_left]
  · show min (state.blockedTotal + 1) u64Max = _ ↔ _
    simp only [h.total, recorded, countP_append, countP_singleton, if_true]
    omega
  · show ConfigState.popFront (state.blocked ++ [{ entry with executionId }]) = _
    rw [popFront_eq, h.buffer, rtake_concat_rtake]
    simp [sinceDrain]

/-- A proxy as it is made: no task runs, and nothing has been recorded. -/
def Proxy.start (state : ConfigState Config Constraints Platform) (executionId : Option Text) :
    Proxy Config Constraints Platform :=
  ⟨{ state with blocked := [], blockedTotal := 0 }, executionId, [], []⟩

section

variable [DecidableEq Config] [DecidableEq Constraints] [DecidableEq Platform]
  {policies : Policies Config Constraints Platform}

/-- The section publishes the current telemetry. -/
def publishesCurrent (state : ConfigState Config Constraints Platform) :
    Task Config Constraints Platform → Prop
  | .recordBlocked _ => state.blockedTotal < u64Max
  | .forceReload newState => newState.blockedTotal = state.blockedTotal
  | .updateDomainList _ _ (some snapshot) => state.isCurrent snapshot = true →
      snapshot.newState.blocked = state.blocked ∧
        snapshot.newState.blockedTotal = state.blockedTotal
  | _ => True

/-- What the next section of an action publishes is current. -/
def Harmless (proxy : Proxy Config Constraints Platform) : Action Config Constraints Platform → Prop
  | .call _ => True
  | .resume index => ∀ task ∈ proxy.tasks[index]?, publishesCurrent proxy.state task

/-- **What a section publishes is faithful exactly when it is current.** -/
theorem runSection_faithful {executionId : Option Text} {log events : List Event}
    {state state' : ConfigState Config Constraints Platform}
    {task next : Task Config Constraints Platform} (h : Faithful state log)
    (hrun : runSection policies executionId state task = some (state', next, events)) :
    Faithful state' (log ++ events) ↔ publishesCurrent state task := by
  have hsame : ∀ {p : Prop}, p → state'.blockedTotal = state.blockedTotal →
      state'.blocked = state.blocked → events = [] → (Faithful state' (log ++ events) ↔ p) := by
    rintro p hp htot hbloc rfl
    exact ⟨fun _ => hp, fun _ => h.same htot hbloc⟩
  cases task with
  | recordBlocked entry =>
    cases hrun
    exact h.recordBlocked_iff
  | drainBlocked =>
    cases hrun
    refine iff_true_intro ⟨?_, ?_⟩
    · simpa [recorded] using! h.total
    · simp [sinceDrain, ConfigState.drainBlocked]
  | updateDomainList host target snapshot =>
    cases snapshot with
    | none =>
      dsimp only [runSection] at hrun
      split at hrun
      · cases hrun
        exact hsame trivial rfl rfl rfl
      · split at hrun <;> cases hrun <;> exact hsame trivial rfl rfl rfl
    | some snapshot =>
      dsimp only [runSection] at hrun
      split_ifs at hrun with hcur
      · cases hrun
        rw [append_nil, faithful_iff, ← h.total, ← h.buffer, and_comm]
        exact (imp_iff_right hcur).symm
      · cases hrun
        exact hsame (fun hyes => absurd hyes hcur) rfl rfl rfl
  | setNetworkMode mode constraints =>
    cases constraints with
    | none | some constraints =>
      dsimp only [runSection] at hrun
      split_ifs at hrun <;> cases hrun <;> exact hsame trivial rfl rfl rfl
  | replaceConfigState newState | reload newState =>
    cases hrun
    exact hsame trivial rfl rfl rfl
  | forceReload newState =>
    cases hrun
    rw [append_nil, faithful_iff, ← h.total]
    exact and_iff_left h.buffer
  | done => cases hrun

theorem step_faithful {p p' : Proxy Config Constraints Platform}
    {a : Action Config Constraints Platform} (h : Faithful p.state p.log)
    (hs : p.step policies a = some p') : Faithful p'.state p'.log ↔ Harmless p a := by
  cases a with
  | call t =>
    dsimp only [step] at hs
    split_ifs at hs
    cases hs
    exact iff_true_intro h
  | resume i =>
    simp only [step, Option.bind_eq_bind, Option.bind_eq_some_iff] at hs
    obtain ⟨t, ht, ⟨s, next, es⟩, hrun, hs⟩ := hs
    cases hs
    refine (runSection_faithful h hrun).trans ?_
    dsimp only [Harmless]
    rw [ht]
    simp

/-- **Blocked-request telemetry survives a run exactly when every section of it publishes
the current telemetry.** -/
theorem telemetry_faithful_iff {state : ConfigState Config Constraints Platform}
    {executionId : Option Text} {actions : List (Action Config Constraints Platform)}
    {final : Proxy Config Constraints Platform}
    (hrun : run (step policies) (.start state executionId) actions = some final) :
    Machine.Throughout (step policies)
        (fun proxy => Faithful proxy.state proxy.log) (.start state executionId) actions ↔
      Machine.Along (step policies) Harmless (.start state executionId) actions :=
  throughout_iff_along (fun _ _ _ (_ : True) _ _ _ => trivial)
    (fun _ _ _ _ hfait hs => step_faithful hfait hs) actions trivial
    ⟨rfl, (rtake_nil _).symm⟩ hrun

end

/-! Domain lists alone as the configuration, and one request that is blocked. -/

structure DomainLists where
  allowed : List Text
  denied : List Text
  mode : NetworkMode
  deriving DecidableEq

def domainPolicies : Policies DomainLists Unit Unit where
  parseHost := some
  normalizeHost host := host
  entries kind lists :=
    match kind with
    | .allow => lists.allowed
    | .deny => lists.denied
  upsertDomainPermission lists host kind :=
    let allowed := lists.allowed.filter (· ≠ host)
    let denied := lists.denied.filter (· ≠ host)
    match kind with
    | .allow => { lists with allowed := allowed ++ [host], denied }
    | .deny => { lists with allowed, denied := denied ++ [host] }
  withMode lists mode := { lists with mode }
  resolvedConfig lists := lists
  validatePolicyAgainstConstraints _ _ := true
  buildConfigState lists _ _ := some lists

def openState : ConfigState DomainLists Unit Unit := ⟨(), ⟨[], [], .full⟩, (), [], 0⟩

def blockedOnce : BlockedRequest :=
  ⟨[], [], none, none, none, [], none, none, none, none, 0⟩

/-- A request is recorded and drained, with a reload in between. -/
def recordReloadDrain : List (Action DomainLists Unit Unit) :=
  [.call (.recordBlocked blockedOnce), .resume 0, .call (.reload openState), .resume 1,
    .call .drainBlocked, .resume 2]

theorem record_reload_drain_faithful :
    ∃ final, run (step domainPolicies) (.start openState none) recordReloadDrain = some final ∧
      Machine.Throughout (step domainPolicies)
        (fun proxy => Faithful proxy.state proxy.log) (.start openState none)
        recordReloadDrain := by
  refine ⟨_, rfl, (telemetry_faithful_iff rfl).mpr ?_⟩
  refine ⟨trivial, fun _ h => ?_⟩
  cases h
  refine ⟨fun t ht => ?_, fun _ h => ?_⟩
  · cases ht
    show 0 < u64Max
    decide
  cases h
  refine ⟨trivial, fun _ h => ?_⟩
  cases h
  refine ⟨fun t ht => ?_, fun _ h => ?_⟩
  · cases ht
    trivial
  cases h
  refine ⟨trivial, fun _ h => ?_⟩
  cases h
  refine ⟨fun t ht => ?_, fun _ _ => trivial⟩
  cases ht
  trivial

/-- A forced reload after a request has been recorded. -/
def recordForceReload : List (Action DomainLists Unit Unit) :=
  [.call (.recordBlocked blockedOnce), .resume 0, .call (.forceReload openState), .resume 1]

/-- A request is recorded while a domain is being allowed. -/
def recordDuringUpdate : List (Action DomainLists Unit Unit) :=
  [.call (.updateDomainList [] .allow none), .resume 0, .call (.recordBlocked blockedOnce),
    .resume 1, .resume 0]

/-- The buffer is drained while a domain is being allowed. -/
def drainDuringUpdate : List (Action DomainLists Unit Unit) :=
  [.call (.recordBlocked blockedOnce), .resume 0, .call (.updateDomainList [] .allow none),
    .resume 1, .call .drainBlocked, .resume 2, .resume 1]

/-- The total and the buffer after a run, and what they should be. -/
def telemetryAfter (actions : List (Action DomainLists Unit Unit)) :
    Option ((Nat × Nat) × List BlockedRequest × List BlockedRequest) :=
  (run (step domainPolicies) (.start openState none) actions).map fun proxy =>
    ((proxy.state.blockedTotal, recorded proxy.log), proxy.state.blocked,
      (sinceDrain proxy.log).rtake maxBlockedEvents)

def LosesTelemetry (actions : List (Action DomainLists Unit Unit)) : Prop :=
  ∃ final, run (step domainPolicies) (.start openState none) actions = some final ∧
    ¬ Faithful final.state final.log

theorem losesTelemetry {a : List (Action DomainLists Unit Unit)} {t e : Nat}
    {b es : List BlockedRequest} (h : telemetryAfter a = some ((t, e), b, es))
    (hne : t ≠ e ∨ b ≠ es) : LosesTelemetry a := by
  obtain ⟨final, hrun, haft⟩ := Option.map_eq_some_iff.mp h
  simp only [Prod.mk.injEq] at haft
  obtain ⟨⟨htot, hexp⟩, hbloc, hents⟩ := haft
  refine ⟨final, hrun, fun hfait => hne.elim (fun hne => hne ?_) fun hne => hne ?_⟩
  · rw [← htot, ← hexp]
    exact hfait.total
  · rw [← hbloc, ← hents]
    exact hfait.buffer

theorem telemetry_not_faithful : LosesTelemetry recordForceReload ∧
    LosesTelemetry recordDuringUpdate ∧ LosesTelemetry drainDuringUpdate := by
  have hfor : telemetryAfter recordForceReload =
      some ((0, 1), [blockedOnce], [blockedOnce]) := by decide +kernel
  have hrec : telemetryAfter recordDuringUpdate = some ((0, 1), [], [blockedOnce]) := by
    decide +kernel
  have hdrain : telemetryAfter drainDuringUpdate = some ((1, 1), [blockedOnce], []) := by
    decide +kernel
  exact ⟨losesTelemetry hfor (Or.inl (by decide)), losesTelemetry hrec (Or.inl (by decide)),
    losesTelemetry hdrain (Or.inr nofun)⟩

end SushiGpt.NetworkProxy
