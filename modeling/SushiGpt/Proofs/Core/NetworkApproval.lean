/-
Approvals are handed out consistently.

A pending approval is an entry of a hand-off board: who creates it owns it, who finds it waits, and
every step of the service is a move of the board or leaves it alone.

The caches are followed by a log of what others can know: who has been started, which amendments
are over, who was allowed.  While a deny stands in the log the host is in the denied cache, unless
the request that has the commit lock is just allowing it; and that request ends the deny when it
is over, also when it is dropped between the two caches.
-/
import SushiGpt.Core.NetworkApproval
import SushiGpt.Lib.Handoff
import SushiGpt.Lib.Machine

namespace SushiGpt.Core.NetworkApproval

open Handoff NetworkApprovalService Function Machine Phase List Option PendingHostApproval

/-! ### Pending approvals -/

def Stage.progress : Stage → Progress PendingApprovalDecision
  | publishing _ => .unlisted
  | notifying ending => .published ending.decision
  | leaving ending => .told ending.decision
  | _ => .listed

def Phase.role : Phase → Role PendingHostApprovalKey PendingApprovalDecision
  | waiting _ generation => .waiting generation
  | listening _ generation seen => .listening generation seen
  | parked _ generation seen => .parked generation seen
  | owning owner stage => .owner owner.key owner.generation stage.progress
  | finished (some (generation, decision)) _ => .handed generation decision
  | _ => .outside

variable {s s' : NetworkApprovalService} {i g : Nat} {next : Phase} {o : PendingHostApprovalOwner}
  {stage : Stage} {ev : Event} {decision : NetworkDecision}
  {handed : Option (Nat × PendingApprovalDecision)}

namespace NetworkApprovalService

variable {ph : Phase}

def board (s : NetworkApprovalService) : Board PendingHostApprovalKey PendingApprovalDecision where
  listed := s.pendingHostApprovals
  decision := fun generation => (s.generations generation).decision
  notified := fun generation => (s.generations generation).notified
  made := s.created
  roles := fun i => (s.phases i).role

theorem board_setPhase : (s.setPhase i next).board = s.board.setRole i next.role := by
  unfold board setPhase Board.setRole
  congr 1
  exact comp_update role s.phases i next

theorem board_setGeneration {p : PendingHostApproval} :
    (s.setGeneration g p).board =
      { s.board with
        decision := update s.board.decision g p.decision
        notified := update s.board.notified g p.notified } := by
  unfold board setGeneration
  congr 1
  · exact comp_update decision s.generations g p
  · exact comp_update notified s.generations g p

theorem settled_setPhase (h : s.board.Settled) (hphase : s.phases i = ph)
    (hrole : next.role = ph.role) : (s.setPhase i next).board.Settled := by
  rwa [board_setPhase, hrole, ← hphase, Board.setRole,
    show update _ i (s.phases i).role = s.board.roles from update_eq_self i s.board.roles]

theorem move_join {pk : PendingHostApprovalKey} (hrole : s.board.roles i = .outside) :
    Board.Move s.board (s.join i pk).board := by
  unfold join
  split
  · rename_i g hlst
    rw [board_setPhase]
    exact .attach hrole hlst
  · rename_i hfree
    have hmade : board
        { (s.setPending pk (some s.created)).setGeneration s.created ⟨none, 0⟩
        with created := s.created + 1 } = { s.board with
          listed := update s.board.listed pk (some s.board.made)
          decision := update s.board.decision s.board.made none
          notified := update s.board.notified s.board.made 0
          made := s.board.made + 1 } :=
      congrArg (fun b : Board _ _ => { b with made := s.created + 1 })
        (board_setGeneration (s := s.setPending pk (some s.created)))
    rw [board_setPhase, hmade]
    exact .make hrole hfree

theorem settled_new : (new.board).Settled where
  listed_iff := fun _ _ => ⟨nofun, fun ⟨_, h⟩ => absurd h nofun⟩
  unique := fun _ _ _ _ _ _ _ h => absurd h nofun
  below := fun _ _ h => absurd h nofun
  owned := fun _ _ _ _ h => absurd h nofun
  decided := fun _ h => absurd h (Nat.not_lt_zero _)
  listening := fun _ _ _ h => absurd h nofun
  parked := fun _ _ _ h => absurd h nofun
  handed := fun _ _ _ h => absurd h nofun

end NetworkApprovalService

/-! ### The caches -/

section Log

variable (key : HostApprovalKey)

/-- A request that amended the policy to deny the host has returned. -/
def Event.bars : Event → Bool
  | amended _ host .deny true => host = key
  | _ => false

/-- A request that amended the policy to allow the host is over. -/
def Event.lifts : Event → Bool
  | amended _ host .allow _ => host = key
  | _ => false

/-- The host was denied, and has not been allowed since.  The newest event is the first. -/
def stands : List Event → Bool
  | [] => false
  | ev :: earlier => !ev.lifts key && (ev.bars key || stands earlier)

/-- The host was denied before the request was started, and has not been allowed since. -/
def standsSinceStart (i : Nat) : List Event → Bool
  | [] => false
  | ev :: earlier => !ev.lifts key &&
      if ev = .started i then stands key earlier else standsSinceStart i earlier

variable {key} {log : List Event}

theorem stands_of_standsSinceStart (h : standsSinceStart key i log = true) :
    stands key log = true := by
  induction log with
  | nil => exact h
  | cons ev e ih =>
    unfold standsSinceStart at h
    unfold stands
    rw [Bool.and_eq_true] at h ⊢
    refine ⟨h.1, ?_⟩
    have hrest := h.2
    rw [Bool.or_eq_true]
    split_ifs at hrest
    · exact .inr hrest
    · exact .inr (ih hrest)

theorem standsSinceStart_cons (hev : ev ≠ .started i)
    (h : standsSinceStart key i log = false) : standsSinceStart key i (ev :: log) = false := by
  unfold standsSinceStart
  rw [if_neg hev, h, Bool.and_false]

end Log

@[grind] def Stage.ending? : Stage → Option Ending
  | removing ending | publishing ending | notifying ending | leaving ending => some ending
  | _ => none

@[grind] def Stage.locked : Stage → Bool
  | deciding decision => decision.commits
  | approving | persisting _ | recording _ | updating _ | updated _ => true
  | stage => stage.ending?.any (·.amended?.isSome)

/-- The owner has taken the host off the denied ones. -/
@[grind] def Stage.lifts : Stage → Bool
  | updated .allow => true
  | stage => stage.ending?.any (·.amended? = some .allow)

/-- The owner has put the host among the denied ones. -/
@[grind] def Stage.bars (stage : Stage) : Bool := stage.ending?.any (·.amended? = some .deny)

namespace Phase

@[grind] def locked : Phase → Bool
  | checkingDenied _ _ | checkingApproved _ _ => true
  | owning _ stage => stage.locked
  | _ => false

/-- The request has found that its host is not denied. -/
@[grind] def passed? : Phase → Option HostApprovalKey
  | checkingApproved key _ | joining key _ | waiting key _ | listening key _ _ | parked key _ _ =>
    some key
  | owning owner _ => some owner.key.host
  | _ => none

@[grind] def lifts? : Phase → Option HostApprovalKey
  | owning owner stage => if stage.lifts then some owner.key.host else none
  | _ => none

@[grind] def bars? : Phase → Option HostApprovalKey
  | owning owner stage => if stage.bars then some owner.key.host else none
  | _ => none

/-! An owner has the commit lock from the first change of a cache until it is over. -/

theorem locked_of_amends {ph : Phase} {key : HostApprovalKey}
    (h : ph.lifts? = some key ∨ ph.bars? = some key) : ph.locked = true := by
  cases ph with
  | owning o stage => cases stage <;> grind
  | _ => exact h.elim nofun nofun

end Phase

namespace NetworkApprovalService

variable {old : Phase} {key : HostApprovalKey}

/-- The caches agree with what has happened. -/
structure Cached (s : NetworkApprovalService) : Prop where
  lock : ∀ i, (s.phases i).locked → s.commitLock = some i
  stood : ∀ key, stands key s.log → s.deniedHosts key ∨ ∃ i, (s.phases i).lifts? = some key
  bars : ∀ i key, (s.phases i).bars? = some key → s.deniedHosts key
  passed : ∀ i key, (s.phases i).passed? = some key → standsSinceStart key i s.log = false
  applied : ∀ i owner, s.phases i = .owning owner (.updated .allow) →
    owner.decisionOnDrop = .allowForSession
  allowed : ∀ earlier i key, .finished i key true :: earlier <:+ s.log →
    standsSinceStart key i earlier = false

/-- A request may go on from one phase to the other while the caches stay as they are. -/
structure Follows (s : NetworkApprovalService) (i : Nat) (old next : Phase) : Prop where
  lock : next.locked → s.commitLock = some i
  lifts : ∀ key, old.lifts? = some key → next.lifts? = some key
  bars : ∀ key, next.bars? = some key → s.deniedHosts key
  passed : ∀ key, next.passed? = some key → standsSinceStart key i s.log = false
  applied : ∀ o, next = .owning o (.updated .allow) → o.decisionOnDrop = .allowForSession

namespace Cached

section

variable (h : Cached s)
include h

theorem setPhase (hold : s.phases i = old) (hnext : Follows s i old next) :
    Cached (s.setPhase i next) := by
  cases h
  cases hnext
  constructor <;> simp only [NetworkApprovalService.setPhase, update_apply]
  case allowed => assumption
  all_goals grind

/-- An owner goes on to another stage. -/
theorem setStage {next : Stage} (hold : s.phases i = .owning o stage)
    (hlock : next.locked = true → s.commitLock = some i)
    (hlifts : stage.lifts = true → next.lifts = true) (hbars : next.bars = true → stage.bars = true)
    (happ : next ≠ .updated .allow) : Cached (s.setPhase i (.owning o next)) := by
  refine h.setPhase hold ⟨hlock, by grind, fun key hkey => h.bars i key ?_,
    fun key hkey => h.passed i key ?_, fun _ hnext => absurd (owning.inj hnext).2 happ⟩
  · rw [hold]
    grind
  · rw [hold]
    exact hkey

theorem leave (hold : s.phases i = old) (hlock : next.locked = false)
    (hlif : ∀ key, old.lifts? = some key → stands key s.log = false) (hbars : next.bars? = none)
    (hpassed : ∀ key, next.passed? = some key → standsSinceStart key i s.log = false)
    (happ : ∀ o, next ≠ .owning o (.updated .allow)) : Cached ((s.unlock i).setPhase i next) := by
  cases h
  constructor <;> simp only [NetworkApprovalService.setPhase, unlock, update_apply]
  case allowed => assumption
  all_goals grind

theorem record (hstar : ∀ i, ev = .started i → (s.phases i).passed? = none)
    (hbars : ∀ key, ev.bars key → s.deniedHosts key)
    (hfin : ∀ i key, ev = .finished i key true → standsSinceStart key i s.log = false) :
    Cached (s.record ev) := by
  obtain ⟨hlock, hstood, hbars', hpassed, happ, hall⟩ := h
  refine ⟨hlock, ?_, hbars', ?_, happ, ?_⟩ <;> simp only [NetworkApprovalService.record]
  · intro key hstan
    unfold stands at hstan
    rw [Bool.and_eq_true, Bool.or_eq_true] at hstan
    rcases hstan.2 with hev | hear
    · exact .inl (hbars key hev)
    · exact hstood key hear
  · intro j key hj
    refine standsSinceStart_cons (fun hev => ?_) (hpassed j key hj)
    exact absurd ((hstar j hev).symm.trans hj) nofun
  · intro e j key hsuf
    rcases suffix_cons_iff.mp hsuf with heq | hsuf
    · cases heq
      exact hfin j key rfl
    · exact hall e j key hsuf

theorem setGeneration (g : Nat) (p : PendingHostApproval) : Cached (s.setGeneration g p) :=
  { h with }

theorem eq_of_locked {j : Nat} (hi : (s.phases i).locked = true) (hj : (s.phases j).locked = true) :
    j = i :=
  some.inj ((h.lock j hj).symm.trans (h.lock i hi))

theorem lift (hold : s.phases i = .owning o (.updating .allow))
    (happ : o.decisionOnDrop = .allowForSession) :
    Cached ((s.setDenied o.key.host false).setPhase i (.owning o (.updated .allow))) := by
  have hmine : (s.phases i).locked = true := by rw [hold]; rfl
  have hoth : ∀ j key, (s.phases j).bars? = some key → j = i := fun j key hj =>
    h.eq_of_locked hmine (locked_of_amends (.inr hj))
  obtain ⟨hlock, hstood, hbars, hpassed, happ', hall⟩ := h
  constructor <;> simp only [NetworkApprovalService.setPhase, setDenied, update_apply]
  case allowed => exact hall
  case stood =>
    intro key hstan
    by_cases hkey : key = o.key.host
    · exact .inr ⟨i, by rw [if_pos rfl, hkey]; rfl⟩
    · grind
  all_goals grind

theorem bar (hold : s.phases i = .owning o (.updated .deny)) :
    Cached ((s.setDenied o.key.host true).setPhase i
      (.owning o (.removing (.returning .deny (some .deny))))) := by
  cases h
  constructor <;> simp only [NetworkApprovalService.setPhase, setDenied, update_apply]
  case allowed => assumption
  all_goals grind

/-- No deny stands for a host that a request with the commit lock finds not denied. -/
theorem not_stands (hold : s.phases i = old) (hloc : old.locked = true) (hlif : old.lifts? = none)
    (hden : s.deniedHosts key = false) : stands key s.log = false := by
  by_contra hstan
  rw [Bool.not_eq_false] at hstan
  rcases h.stood key hstan with hden' | ⟨j, hj⟩
  · exact absurd (hden.symm.trans hden') Bool.false_ne_true
  · have hji : j = i := h.eq_of_locked (hold ▸ hloc) (locked_of_amends (.inl hj))
    rw [hji, hold, hlif] at hj
    exact absurd hj nofun

theorem recordFinished (hall : decision = .allow → standsSinceStart key i s.log = false) :
    Cached (s.record (.finished i key (decision = .allow))) := by
  refine h.record nofun nofun fun j key' hev => ?_
  obtain ⟨rfl, rfl, hdec⟩ := Event.finished.inj hev
  exact hall (of_decide_eq_true hdec)

theorem finish (hold : s.phases i = old) (hlif : old.lifts? = none)
    (hall : decision = .allow → standsSinceStart key i s.log = false) :
    Cached (s.finish i key handed decision) :=
  (h.recordFinished hall).setPhase hold
    ⟨nofun, fun _ hkey => absurd (hlif.symm.trans hkey) nofun, nofun, nofun, nofun⟩

/-- A request returns and gives the commit lock back. -/
theorem leaveFinished
    (hold : s.phases i = old) (hlif : ∀ key, old.lifts? = some key → stands key s.log = false)
    (hall : decision = .allow → standsSinceStart key i s.log = false) :
    Cached ((s.unlock i).finish i key handed decision) := by
  refine (h.recordFinished hall).leave hold rfl (fun key' hkey => ?_) rfl nofun nofun
  exact hlif key' hkey

end

theorem new : Cached new where
  lock := fun _ h => absurd h nofun
  stood := fun _ h => absurd h nofun
  bars := fun _ _ h => absurd h nofun
  passed := fun _ _ h => absurd h nofun
  applied := fun _ _ h => absurd h nofun
  allowed := fun _ _ _ h => absurd (suffix_nil.mp h) nofun

end Cached

/-- What every step keeps. -/
structure Sound (s : NetworkApprovalService) : Prop where
  settled : s.board.Settled
  cached : Cached s

namespace Sound

variable (h : Sound s)
include h

theorem setPhase (hold : s.phases i = old) (hrole : next.role = old.role)
    (hnext : Follows s i old next) : Sound (s.setPhase i next) :=
  ⟨settled_setPhase h.settled hold hrole, h.cached.setPhase hold hnext⟩

theorem move (hmove : s.board.Move (s'.board.setRole i next.role))
    (hcached : Cached (s'.setPhase i next)) : Sound (s'.setPhase i next) :=
  ⟨h.settled.move (board_setPhase ▸ hmove), hcached⟩

theorem acquire (hfree : ¬ s.commitLock.isSome) : Sound { s with commitLock := some i } := by
  have hn := not_isSome_iff_eq_none.mp hfree
  exact ⟨h.settled, { h.cached with
    lock := fun j hj => absurd (hn.symm.trans (h.cached.lock j hj)) nofun }⟩

theorem setApproved (a : Bool) : Sound (s.setApproved key a) :=
  ⟨h.settled, { h.cached with }⟩

section Owner

variable (hold : s.phases i = .owning o stage)
include hold

theorem lock_of_owning (hlocked : stage.locked = true) : s.commitLock = some i :=
  h.cached.lock i (by rw [hold]; exact hlocked)

theorem setStage {next : Stage} (hprogress : next.progress = stage.progress)
    (hlock : next.locked = true → s.commitLock = some i)
    (hlifts : stage.lifts = true → next.lifts = true) (hbars : next.bars = true → stage.bars = true)
    (happ : next ≠ .updated .allow) : Sound (s.setPhase i (.owning o next)) :=
  ⟨settled_setPhase h.settled hold (congrArg (Role.owner o.key o.generation) hprogress),
    h.cached.setStage hold hlock hlifts hbars happ⟩

end Owner

/-! One lemma for each stage in which the owner does more than to go on. -/

theorem decide {decision : ReviewDecision}
    (hold : s.phases i = .owning o (.deciding decision)) : Sound (s.decide i o decision) := by
  have hlock := h.lock_of_owning hold
  unfold NetworkApprovalService.decide
  cases decision with
  | networkPolicyAmendment action =>
    exact h.setStage hold rfl (fun _ => hlock rfl) nofun nofun nofun
  | approved | approvedExecpolicyAmendment | approvedForSession =>
    split_ifs <;> exact h.setStage hold rfl (fun _ => hlock rfl) nofun nofun nofun
  | approvedMcpPolicyAmendment | denied | timedOut | abort =>
    exact h.setStage hold rfl nofun nofun nofun nofun

theorem update {action : NetworkPolicyRuleAction}
    (hold : s.phases i = .owning o (.updating action))
    (hs : s.advanceOwner i o (.updating action) = some s') : Sound s' := by
  cases action with
  | allow =>
    simp only [NetworkApprovalService.advanceOwner] at hs
    split_ifs at hs with happ <;> cases hs
    · exact ⟨settled_setPhase h.settled hold rfl, h.cached.lift hold happ⟩
    · exact h.setStage hold rfl nofun nofun nofun nofun
  | deny =>
    cases hs
    have hlock := h.lock_of_owning hold rfl
    exact (h.setApproved false).setStage hold rfl (fun _ => hlock) nofun nofun nofun

theorem finishUpdate {action : NetworkPolicyRuleAction}
    (hold : s.phases i = .owning o (.updated action))
    (hs : s.advanceOwner i o (.updated action) = some s') : Sound s' := by
  cases action with
  | allow =>
    cases hs
    have hlock := h.lock_of_owning hold rfl
    exact (h.setApproved true).setStage hold rfl (fun _ => hlock) id nofun nofun
  | deny =>
    cases hs
    exact ⟨settled_setPhase h.settled hold rfl, h.cached.bar hold⟩

variable {ending : Ending}

theorem remove (hold : s.phases i = .owning o (.removing ending))
    (hs : s.advanceOwner i o (.removing ending) = some s') : Sound s' := by
  have hrole : s.board.roles i = .owner o.key o.generation .listed := congrArg role hold
  have hlock := h.lock_of_owning hold
  -- The entry that the owner made is still listed.
  have hlisted : s.pendingHostApprovals o.key = some o.generation :=
    (h.settled.listed_iff _ _).mpr ⟨i, hrole⟩
  simp only [NetworkApprovalService.advanceOwner, if_pos hlisted] at hs
  cases hs
  have hset : Cached (s.setPending o.key none) := { h.cached with }
  exact h.move (.unlist hrole) (hset.setStage hold hlock id id nofun)

theorem publish (hold : s.phases i = .owning o (.publishing ending))
    (hs : s.advanceOwner i o (.publishing ending) = some s') : Sound s' := by
  have hrole : s.board.roles i = .owner o.key o.generation .unlisted := congrArg role hold
  have hlock := h.lock_of_owning hold
  have hnone : (s.generations o.generation).decision = none := h.settled.owned i _ _ _ hrole
  simp only [NetworkApprovalService.advanceOwner, hnone, isNone_none, if_pos] at hs
  cases hs
  refine h.move ?_ ((h.cached.setGeneration _ _).setStage hold hlock id id nofun)
  rw [board_setGeneration, show Function.update s.board.notified o.generation
    (s.generations o.generation).notified = _ from update_eq_self _ s.board.notified]
  exact .publish hrole

theorem notify (hold : s.phases i = .owning o (.notifying ending))
    (hs : s.advanceOwner i o (.notifying ending) = some s') : Sound s' := by
  have hlock := h.lock_of_owning hold
  cases hs
  refine h.move ?_ ((h.cached.setGeneration _ _).setStage hold hlock id id nofun)
  rw [board_setGeneration, show Function.update s.board.decision o.generation
    (s.generations o.generation).decision = _ from update_eq_self _ s.board.decision]
  exact .tell (congrArg role hold)

/-- The amendment of an owner is over when it returns. -/
theorem recordAmended {decision : PendingApprovalDecision} {action : NetworkPolicyRuleAction}
    (hold : s.phases i = .owning o (.leaving (.returning decision (some action)))) :
    Cached (s.record (.amended i o.key.host action true)) := by
  refine h.cached.record nofun (fun key hkey => ?_) nofun
  cases action with
  | allow => exact absurd hkey nofun
  | deny =>
    -- The owner denied the host, and nobody else could change that since.
    have hhost : o.key.host = key := of_decide_eq_true hkey
    exact h.cached.bars i key (by rw [hold, ← hhost]; rfl)

theorem leave (hold : s.phases i = .owning o (.leaving ending))
    (hs : s.advanceOwner i o (.leaving ending) = some s') : Sound s' := by
  have hrole : s.board.roles i = .owner o.key o.generation (.told ending.decision) :=
    congrArg role hold
  have hpassed : standsSinceStart o.key.host i s.log = false :=
    h.cached.passed i _ (by rw [hold]; rfl)
  cases ending with
  | dropping decision =>
    cases hs
    exact h.move (.vanish hrole) (h.cached.setPhase hold ⟨nofun, nofun, nofun, nofun, nofun⟩)
  | returning decision amended =>
    cases hs
    refine ⟨h.settled.move ?_, ?_⟩
    · unfold NetworkApprovalService.finish
      rw [board_setPhase]
      cases amended <;> exact .leave hrole
    cases amended with
    | none => exact h.cached.leaveFinished hold nofun fun _ => hpassed
    | some action =>
      refine (h.recordAmended hold).leaveFinished hold (fun key hkey => ?_) fun _ =>
        standsSinceStart_cons nofun hpassed
      cases action with
      | allow =>
        have hhost : o.key.host = key := some.inj hkey
        simp [NetworkApprovalService.record, stands, Event.lifts, hhost]
      | deny => exact absurd hkey nofun

theorem advanceOwner (hold : s.phases i = .owning o stage)
    (hs : s.advanceOwner i o stage = some s') : Sound s' := by
  cases stage with
  | locking decision =>
    simp only [NetworkApprovalService.advanceOwner] at hs
    split_ifs at hs with hcommits hfree <;> cases hs
    · exact (h.acquire hfree).setStage hold rfl (fun _ => rfl) nofun nofun nofun
    · exact h.setStage hold rfl (fun hlocked => absurd hlocked hcommits) nofun nofun nofun
  | deciding decision =>
    cases hs
    exact h.decide hold
  | approving =>
    cases hs
    exact (h.setApproved true).setStage hold rfl nofun nofun nofun nofun
  | recording action =>
    cases hs
    exact h.setStage hold rfl (fun _ => h.lock_of_owning hold rfl) nofun nofun nofun
  | updating action => exact h.update hold hs
  | updated action => exact h.finishUpdate hold hs
  | removing ending => exact h.remove hold hs
  | publishing ending => exact h.publish hold hs
  | notifying ending => exact h.notify hold hs
  | leaving ending => exact h.leave hold hs
  | permitting | reviewing | persisting => exact absurd hs nofun

theorem advance (hold : s.phases i = old) (hs : s.advance i old = some s') : Sound s' := by
  have hrole : s.board.roles i = old.role := congrArg role hold
  have hpassed : ∀ key, old.passed? = some key → standsSinceStart key i s.log = false :=
    fun key hkey => h.cached.passed i key (by rw [hold]; exact hkey)
  cases old with
  | checking key t =>
    simp only [NetworkApprovalService.advance] at hs
    split_ifs at hs with hfree
    cases hs
    exact (h.acquire hfree).setPhase hold rfl ⟨fun _ => rfl, nofun, nofun, nofun, nofun⟩
  | checkingDenied key t =>
    have hlock := h.cached.lock i (by rw [hold]; rfl)
    simp only [NetworkApprovalService.advance] at hs
    split_ifs at hs with hden <;> cases hs
    · exact ⟨settled_setPhase h.settled hold rfl, h.cached.leaveFinished hold nofun nofun⟩
    · have hstan := h.cached.not_stands hold rfl rfl (Bool.eq_false_iff.mpr hden)
      refine h.setPhase hold rfl ⟨fun _ => hlock, nofun, nofun, fun key' hkey => ?_, nofun⟩
      cases hkey
      by_contra hsin
      rw [Bool.not_eq_false] at hsin
      exact absurd (hstan.symm.trans (stands_of_standsSinceStart hsin)) nofun
  | checkingApproved key t =>
    simp only [NetworkApprovalService.advance] at hs
    split_ifs at hs with happ <;> cases hs
    · exact ⟨settled_setPhase h.settled hold rfl,
        h.cached.leaveFinished hold nofun fun _ => hpassed key rfl⟩
    · exact ⟨settled_setPhase h.settled hold rfl, h.cached.leave hold rfl nofun rfl hpassed nofun⟩
  | joining key t =>
    cases t with
    | none =>
      cases hs
      exact ⟨settled_setPhase h.settled hold rfl, h.cached.finish hold rfl nofun⟩
    | some t =>
      cases hs
      refine ⟨h.settled.move (move_join hrole), ?_⟩
      unfold join
      split
      · exact h.cached.setPhase hold ⟨nofun, nofun, nofun, hpassed, nofun⟩
      · have hmade : Cached { (s.setPending ⟨key, t.turnId, t.executionId⟩
            (some s.created)).setGeneration s.created ⟨none, 0⟩ with
              created := s.created + 1 } := { h.cached with }
        exact hmade.setPhase hold ⟨nofun, nofun, nofun, hpassed, fun _ hnext => by cases hnext⟩
  | waiting key g =>
    cases hs
    exact h.move (.listen hrole) (h.cached.setPhase hold ⟨nofun, nofun, nofun, hpassed, nofun⟩)
  | listening key g seen =>
    simp only [NetworkApprovalService.advance] at hs
    split at hs <;> cases hs
    · exact h.move (.take hrole ‹_›) (h.cached.finish hold rfl fun _ => hpassed key rfl)
    · exact h.move (.park hrole ‹_›) (h.cached.setPhase hold ⟨nofun, nofun, nofun, hpassed, nofun⟩)
  | parked key g seen =>
    simp only [NetworkApprovalService.advance] at hs
    split_ifs at hs with hnot
    cases hs
    exact h.move (.wake hrole hnot) (h.cached.setPhase hold ⟨nofun, nofun, nofun, hpassed, nofun⟩)
  | owning o stage => exact h.advanceOwner hold hs
  | idle | started | finished | dropped => exact absurd hs nofun

theorem dropOwner {a : Option NetworkPolicyRuleAction}
    (hold : s.phases i = .owning o stage) (hstage : stage.progress = .listed)
    (hlif : stage.lifts = true → a = some .allow ∧ o.decisionOnDrop = .allowForSession) :
    Sound (s.dropOwner i o a) := by
  have hrole : (owning o (.removing (.dropping o.decisionOnDrop))).role = (owning o stage).role :=
    congrArg (Role.owner o.key o.generation) hstage.symm
  have hpassed : standsSinceStart o.key.host i s.log = false :=
    h.cached.passed i o.key.host (by rw [hold]; rfl)
  have hkeyed : ∀ (log : List Event), standsSinceStart o.key.host i log = false →
      ∀ key, some o.key.host = some key → standsSinceStart key i log = false :=
    fun log hlog key hkey => some.inj hkey ▸ hlog
  have hquiet : stage.lifts = false → Sound ((s.unlock i).setPhase i
      (.owning o (.removing (.dropping o.decisionOnDrop)))) :=
    fun hnot => ⟨settled_setPhase h.settled hold hrole,
      h.cached.leave hold rfl (by grind) rfl (hkeyed _ hpassed) nofun⟩
  unfold NetworkApprovalService.dropOwner
  split
  · split_ifs with happ
    · have hrec : Cached (s.record (.amended i o.key.host .allow false)) :=
        h.cached.record nofun nofun nofun
      refine ⟨settled_setPhase h.settled hold hrole, hrec.leave hold rfl (fun key hkey => ?_)
        rfl (hkeyed _ (standsSinceStart_cons nofun hpassed)) nofun⟩
      have hhost : o.key.host = key := by grind
      simp [NetworkApprovalService.record, stands, Event.lifts, hhost]
    · exact hquiet (by grind)
  · exact hquiet (by grind)

theorem abandon (hold : s.phases i = old) (hs : s.abandon i old = some s') : Sound s' := by
  cases old with
  | started | checking =>
    cases hs
    exact h.setPhase hold rfl ⟨nofun, nofun, nofun, nofun, nofun⟩
  | parked =>
    cases hs
    exact h.move (.giveUp (congrArg role hold))
      (h.cached.setPhase hold ⟨nofun, nofun, nofun, nofun, nofun⟩)
  | checkingDenied | checkingApproved =>
    cases hs
    exact ⟨settled_setPhase h.settled hold rfl, h.cached.leave hold rfl nofun rfl nofun nofun⟩
  | owning o stage =>
    cases stage with
    | reviewing | locking | deciding | approving | persisting | recording | updating =>
      cases hs
      exact h.dropOwner hold rfl nofun
    | updated a =>
      cases hs
      refine h.dropOwner hold rfl fun hlif => ?_
      cases a with
      | allow => exact ⟨rfl, h.cached.applied i o hold⟩
      | deny => exact absurd hlif nofun
    | permitting | removing | publishing | notifying | leaving => exact absurd hs nofun
  | idle | joining | waiting | listening | finished | dropped => exact absurd hs nofun

theorem step {action : Action} (hs : step s action = some s') : Sound s' := by
  cases action with
  | start i request =>
    simp only [NetworkApprovalService.step] at hs
    split at hs
    · rename_i hold
      cases hs
      have hrec : Cached (s.record (.started i)) := by
        refine h.cached.record (fun j hj => ?_) nofun nofun
        cases hj
        rw [hold]
        rfl
      exact ⟨settled_setPhase h.settled hold rfl, hrec.setPhase hold
        ⟨nofun, nofun, nofun, nofun, nofun⟩⟩
    · exact absurd hs nofun
  | resolve i environmentId turn =>
    change s.resolve i environmentId turn (s.phases i) = some s' at hs
    cases hold : s.phases i <;> rw [hold] at hs
    case started request =>
      cases environmentId <;> cases hs <;>
        exact h.setPhase hold rfl ⟨nofun, nofun, nofun, nofun, nofun⟩
    all_goals exact absurd hs nofun
  | advance i => exact h.advance rfl hs
  | permit i allowed =>
    change s.permit i allowed (s.phases i) = some s' at hs
    cases hold : s.phases i <;> rw [hold] at hs
    case owning o stage =>
      cases stage <;> cases hs
      cases allowed <;> exact h.setStage hold rfl nofun nofun nofun nofun
    all_goals exact absurd hs nofun
  | reviewed i outcome =>
    change s.reviewed i outcome (s.phases i) = some s' at hs
    cases hold : s.phases i <;> rw [hold] at hs
    case owning o stage =>
      cases stage <;> cases outcome <;> cases hs <;>
        exact h.setStage hold rfl nofun nofun nofun nofun
    all_goals exact absurd hs nofun
  | applied i =>
    change s.applied i (s.phases i) = some s' at hs
    have hpassed := h.cached.passed i
    have hlock := h.cached.lock i
    cases hold : s.phases i <;> rw [hold] at hs hpassed hlock
    case owning o stage =>
      cases stage <;> cases hs
      exact h.setPhase hold rfl
        ⟨fun _ => hlock rfl, nofun, nofun, hpassed, fun _ hnext => by cases hnext⟩
    all_goals exact absurd hs nofun
  | persisted i ok =>
    change s.persisted i ok (s.phases i) = some s' at hs
    have hpassed := h.cached.passed i
    have hlock := h.cached.lock i
    cases hold : s.phases i <;> rw [hold] at hs hpassed hlock
    case owning o stage =>
      cases stage <;> cases ok <;> cases hs <;>
        exact h.setPhase hold rfl
          ⟨fun _ => hlock rfl, nofun, nofun, hpassed, fun _ hnext => by cases hnext⟩
    all_goals exact absurd hs nofun
  | abandon i => exact h.abandon rfl hs

end Sound

/-! ### Runs -/

/-- The request waits for the decision of the pending approval. -/
def WaitsFor (s : NetworkApprovalService) (i generation : Nat) : Prop :=
  ∃ key, s.phases i = .waiting key generation ∨
    ∃ seen, s.phases i = .listening key generation seen ∨ s.phases i = .parked key generation seen

/-- The request returned with the decision of the pending approval. -/
def Handed (s : NetworkApprovalService) (i generation : Nat)
    (decision : PendingApprovalDecision) : Prop :=
  s.phases i = .finished (some (generation, decision)) decision.toNetworkDecision

/-- The owner of the pending approval has neither returned nor been dropped. -/
def Owned (s : NetworkApprovalService) (generation : Nat) : Prop :=
  ∃ i owner stage, s.phases i = .owning owner stage ∧ owner.generation = generation

structure Consistent (s : NetworkApprovalService) : Prop where
  /-- All requests get the same decision of a pending approval. -/
  oneDecision : ∀ i j generation decision decision', s.Handed i generation decision →
    s.Handed j generation decision' → decision = decision'
  /-- Once the owner is gone every waiter returns with the decision in three steps at most. -/
  noneLeft : ∀ i generation, s.WaitsFor i generation → ¬ s.Owned generation →
    ∃ n ≤ 3, ∃ decision s', run step s (replicate n (.advance i)) = some s' ∧
      s'.Handed i generation decision
  /-- Nobody can join a pending approval that is decided. -/
  undecided : ∀ key generation, s.pendingHostApprovals key = some generation →
    (s.generations generation).decision = none
  /-- No request was allowed a host that had been denied before it was started and not allowed
  since. -/
  denied : ∀ earlier i key, .finished i key true :: earlier <:+ s.log →
    standsSinceStart key i earlier = false

theorem phases_setPhase : (s.setPhase i next).phases i = next := by
  exact update_self i next s.phases

section Waiting

variable {seen : Nat} {decision : PendingApprovalDecision}

theorem run_advance {n : Nat} (hphase : s.phases i = old) (h : s.advance i old = some s') :
    run step s (replicate (n + 1) (.advance i)) = run step s' (replicate n (.advance i)) := by
  have hs : step s (.advance i) = some s' := by
    rw [← h, ← hphase]
    rfl
  rw [replicate_succ, run, hs]
  rfl

theorem handed_of_listening (hphase : s.phases i = .listening key g seen)
    (hdec : (s.generations g).decision = some decision) :
    ∃ s', run step s (replicate 1 (.advance i)) = some s' ∧ s'.Handed i g decision := by
  have hs : s.advance i (.listening key g seen) =
      some (s.finish i key (some (g, decision)) decision.toNetworkDecision) := by
    simp only [advance, hdec]
  exact ⟨_, run_advance hphase hs, phases_setPhase⟩

theorem handed_of_waiting (hphase : s.phases i = .waiting key g)
    (hdec : (s.generations g).decision = some decision) :
    ∃ s', run step s (replicate 2 (.advance i)) = some s' ∧ s'.Handed i g decision := by
  obtain ⟨s', hrun, hhan⟩ := handed_of_listening (s := s.setPhase i
    (.listening key g (s.generations g).notified)) phases_setPhase hdec
  exact ⟨s', (run_advance hphase rfl).trans hrun, hhan⟩

theorem handed_of_parked (hphase : s.phases i = .parked key g seen)
    (hnot : seen < (s.generations g).notified) (hdec : (s.generations g).decision = some decision) :
    ∃ s', run step s (replicate 3 (.advance i)) = some s' ∧ s'.Handed i g decision := by
  have hs : s.advance i (.parked key g seen) = some (s.setPhase i (.waiting key g)) := if_pos hnot
  obtain ⟨s', hrun, hhan⟩ := handed_of_waiting (s := s.setPhase i (.waiting key g))
    phases_setPhase hdec
  exact ⟨s', (run_advance hphase hs).trans hrun, hhan⟩

/-- A waiter whose owner is gone has been notified of a decision. -/
theorem exists_handed (h : s.board.Settled) (hwaits : s.WaitsFor i g) (hgone : ¬ s.Owned g) :
    ∃ n ≤ 3, ∃ decision s', run step s (replicate n (.advance i)) = some s' ∧
      s'.Handed i g decision := by
  have hnob : ∀ j key p, s.board.roles j ≠ .owner key g p := by
    intro j key p hj
    change (s.phases j).role = _ at hj
    cases hphase : s.phases j <;> rw [hphase] at hj
    case owning o stage =>
      cases hj
      exact hgone ⟨j, o, stage, hphase, rfl⟩
    case finished handed _ => cases handed <;> exact absurd hj nofun
    all_goals exact absurd hj nofun
  have hjoined : (s.board.roles i).number? = some g := by
    change (s.phases i).role.number? = some g
    obtain ⟨key, hwait | ⟨seen, hlis | hpk⟩⟩ := hwaits
    · rw [hwait, role, Role.number?]
    · rw [hlis, role, Role.number?]
    · rw [hpk, role, Role.number?]
  obtain ⟨decision, hdec⟩ := h.exists_decision hjoined hnob
  obtain ⟨key, hwait | ⟨seen, hlis | hpk⟩⟩ := hwaits
  · exact ⟨2, by omega, decision, handed_of_waiting hwait hdec⟩
  · exact ⟨1, by omega, decision, handed_of_listening hlis hdec⟩
  · have hnot : seen < s.board.notified g := h.notified_of_parked (congrArg role hpk) hnob
    exact ⟨3, by omega, decision, handed_of_parked hpk hnot hdec⟩

end Waiting

theorem Sound.consistent (h : Sound s) : Consistent s where
  oneDecision := by
    intro i j g decision decision' hi hj
    have hfst := h.settled.handed i g decision (congrArg role hi)
    have hsec := h.settled.handed j g decision' (congrArg role hj)
    exact some.inj (hfst.symm.trans hsec)
  noneLeft := fun _ _ hwaits hgone => exists_handed h.settled hwaits hgone
  undecided := fun _ _ hlst => h.settled.not_decided hlst
  denied := h.cached.allowed

/-- **In every run all waiters of a pending approval get its one decision and none is left behind,
nobody joins one that is decided, and a host stays denied until an amendment that allows it is
over.** -/
theorem network_approvals_consistent (actions : List Action)
    (hrun : run step new actions = some s) : Consistent s := by
  have hsound : Sound s := run_keeps Sound (fun _ _ _ h hs => h.step hs) actions
    ⟨settled_new, Cached.new⟩ hrun
  exact hsound.consistent

def toExample : NetworkPolicyRequest := ⟨.https, "example.com".toList, 443⟩

/-- A request that a review allows once, and one that waits for it. -/
def allowedOnce : List Action :=
  [.start 0 toExample, .resolve 0 (some []) (some ⟨[], none⟩), .advance 0, .advance 0, .advance 0,
    .advance 0, .permit 0 true,
    .start 1 toExample, .resolve 1 (some []) (some ⟨[], none⟩), .advance 1, .advance 1, .advance 1,
    .advance 1, .advance 1, .advance 1,
    .reviewed 0 (.decided .approved), .advance 0, .advance 0, .advance 0, .advance 0, .advance 0,
    .advance 0, .advance 1, .advance 1, .advance 1]

theorem allowedOnce_consistent :
    ∃ s, run step new allowedOnce = some s ∧ s.Handed 0 0 .allowOnce ∧
      s.Handed 1 0 .allowOnce ∧ Consistent s := by
  have hrun : (run step new allowedOnce).map (fun s => (s.phases 0, s.phases 1)) =
      some (.finished (some (0, .allowOnce)) .allow, .finished (some (0, .allowOnce)) .allow) := by
    decide +kernel
  obtain ⟨s, hrun, hphas⟩ := map_eq_some_iff.mp hrun
  rw [Prod.mk.injEq] at hphas
  exact ⟨s, hrun, hphas.1, hphas.2, network_approvals_consistent allowedOnce hrun⟩

/-- **No two requests read or change the caches at once, and a host whose deny stands is in the
denied cache, but for the request that has the commit lock and is about to lift the deny.** -/
theorem commits_exclusive (actions : List Action) (hrun : run step new actions = some s) :
    (∀ i j, (s.phases i).locked → (s.phases j).locked → i = j) ∧
    ∀ key, stands key s.log → s.deniedHosts key ∨
      ∃ i, (s.phases i).lifts? = some key ∧ s.commitLock = some i := by
  have hsound : Sound s := run_keeps Sound (fun _ _ _ h hs => h.step hs) actions
    ⟨settled_new, Cached.new⟩ hrun
  obtain ⟨-, hlock, hstood, -⟩ := hsound
  refine ⟨fun i j hi hj => some.inj ((hlock i hi).symm.trans (hlock j hj)), fun key hst => ?_⟩
  refine (hstood key hst).imp_right fun ⟨i, hlif⟩ => ⟨i, hlif, hlock i ?_⟩
  exact locked_of_amends (.inl hlif)

theorem allowedOnce_exclusive : ∃ s, run step new (allowedOnce.take 3) = some s ∧
    (s.phases 0).locked ∧ ∀ j, (s.phases j).locked → 0 = j := by
  have hrun : (run step new (allowedOnce.take 3)).map (fun s => (s.phases 0).locked) =
      some true := by
    decide +kernel
  obtain ⟨s, hrun, hloc⟩ := map_eq_some_iff.mp hrun
  exact ⟨s, hrun, hloc, fun j => (commits_exclusive _ hrun).1 0 j hloc⟩

/-- Two executions ask for one host.  The first review denies it; the second one allows it and its
request is dropped between the two caches.  A third request comes later. -/
def droppedBetweenCaches : List Action :=
  [.start 0 toExample, .resolve 0 (some []) (some ⟨[], some ['a']⟩), .advance 0, .advance 0,
    .advance 0, .advance 0, .permit 0 true,
    .start 1 toExample, .resolve 1 (some []) (some ⟨[], some ['b']⟩), .advance 1, .advance 1,
    .advance 1, .advance 1, .permit 1 true,
    .reviewed 0 (.decided (.networkPolicyAmendment .deny)), .advance 0, .advance 0,
    .persisted 0 true, .advance 0, .advance 0, .advance 0, .advance 0, .advance 0, .advance 0,
    .advance 0,
    .reviewed 1 (.decided (.networkPolicyAmendment .allow)), .advance 1, .advance 1,
    .persisted 1 true, .advance 1, .advance 1, .abandon 1, .advance 1, .advance 1, .advance 1,
    .advance 1,
    .start 2 toExample, .resolve 2 (some []) (some ⟨[], some ['c']⟩), .advance 2, .advance 2,
    .advance 2, .advance 2, .permit 2 true, .reviewed 2 (.decided .approved), .advance 2,
    .advance 2, .advance 2, .advance 2, .advance 2, .advance 2]

/-- The first request has returned with its deny before the third one is started, no request that
allowed the host has returned, and the third one is allowed. -/
theorem droppedBetweenCaches_allows :
    (run step new droppedBetweenCaches).map
      (fun s => (s.phases 0, s.phases 1, s.phases 2, s.log.reverse)) =
    some (.finished (some (0, .deny)) (.deny reasonNotAllowed), .dropped,
      .finished (some (2, .allowOnce)) .allow,
      [.started 0, .started 1, .amended 0 (.fromRequest toExample []) .deny true,
        .finished 0 (.fromRequest toExample []) false,
        .amended 1 (.fromRequest toExample []) .allow false, .started 2,
        .finished 2 (.fromRequest toExample []) true]) := by
  decide +kernel

end NetworkApprovalService

end SushiGpt.Core.NetworkApproval
