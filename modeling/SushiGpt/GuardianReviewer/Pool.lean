/-
The reviewers of a parent thread: `ext/guardian-reviewer/src/pool.rs`.

A review selects the trunk under the lock of the pool, spawning one if there is none, gives the
lock back, and runs on the trunk if it gets its only permit; otherwise it runs on a fork of its
own.  Everything that another task can see or change in between is a step here: the token of a
trunk is looked at, its permit is taken and given back, the trunk is taken out of the pool.

Calls and trunks are numbered.  A trunk that nothing refers to is cancelled when it is dropped;
no call can select it then, so that is left out.
-/
import Mathlib.Logic.Function.Basic

namespace SushiGpt.GuardianReviewer

inductive SessionDisposition where
  | reusable
  | discard

/-- `holder` is the call that has the permit of `review_lock`.  `discarded` tells that a review
on it ended with `Discard`; nothing reads it. -/
structure Trunk (Context : Type) where
  /-- That of its session; none before it is spawned. -/
  context : Option Context
  holder : Option Nat
  cancelled : Bool
  discarded : Bool

inductive Review (Context : Type) where
  /-- Not called yet. -/
  | idle
  /-- Waits for the lock of the pool. -/
  | waiting
  /-- Has the lock and its context. -/
  | selecting (context : Context)
  /-- The trunk is cancelled or for another context. -/
  | stale (context : Context) (trunk : Nat)
  /-- It had the permit to give. -/
  | probed (context : Context) (trunk : Nat)
  /-- The permit is given back. -/
  | replacing (context : Context) (trunk : Nat)
  | spawning (context : Context)
  /-- The lock is given back. -/
  | selected (context : Context) (trunk : Nat)
  | running (trunk : Nat)
  | committing (trunk : Nat)
  /-- `review_lifetime` is about to be dropped. -/
  | cancelling (trunk : Nat) (remove : Bool)
  /-- The permit is about to be dropped. -/
  | releasing (trunk : Nat) (remove : Bool)
  /-- Waits for the lock to take the trunk out of the pool. -/
  | removing (trunk : Nat)
  /-- `review_ephemeral`, before and after its session is spawned. -/
  | forking
  | forked
  | runningFork
  | ended

/-- What the session was when a review got it to run on. -/
structure Start where
  cancelled : Bool
  discarded : Bool

/-- `trunk` is what the lock protects, `lock` the call that has it.  `starts` lists the sessions
that reviews started on, and `replaced`, for each trunk a review took out of the pool, whether
a call had its permit; nothing reads them. -/
structure ReviewerPool (Context : Type) where
  trunk : Option Nat
  lock : Option Nat
  runtimeCancelled : Bool
  trunks : Nat → Trunk Context
  spawned : Nat
  reviews : Nat → Review Context
  starts : List Start
  replaced : List Bool

inductive Action (Context : Type) where
  | review (i : Nat)
  /-- The call gets the lock; its context may depend on the trunk it finds. -/
  | enter (i : Nat) (context : Context)
  | advance (i : Nat)
  /-- The session of a trunk or of a fork is there, or could not be had. -/
  | spawned (i : Nat) (ok : Bool)
  | finish (i : Nat) (disposition : SessionDisposition) (completed : Bool)
  /-- The future is dropped where it waits, or its deadline passes. -/
  | abandon (i : Nat)
  /-- The end of `prewarm`, with the session spawned. -/
  | prewarm (context : Context)
  /-- `shutdown` cancels the runtime, and then takes the trunk. -/
  | cancelRuntime
  | takeTrunk

namespace ReviewerPool

variable {Context : Type}

def new : ReviewerPool Context where
  trunk := none
  lock := none
  runtimeCancelled := false
  trunks := fun _ => ⟨none, none, false, false⟩
  spawned := 0
  reviews := fun _ => .idle
  starts := []
  replaced := []

variable (p : ReviewerPool Context)

/-- The token of a trunk is a child of that of the runtime. -/
def isCancelled (t : Nat) : Bool := p.runtimeCancelled || (p.trunks t).cancelled

def setReview (i : Nat) (review : Review Context) : ReviewerPool Context :=
  { p with reviews := Function.update p.reviews i review }

def setTrunk (t : Nat) (trunk : Trunk Context) : ReviewerPool Context :=
  { p with trunks := Function.update p.trunks t trunk }

def setHolder (t : Nat) (holder : Option Nat) : ReviewerPool Context :=
  p.setTrunk t { p.trunks t with holder }

def cancelTrunk (t : Nat) : ReviewerPool Context :=
  p.setTrunk t { p.trunks t with cancelled := true }

def unlock : ReviewerPool Context := { p with lock := none }

/-- A trunk with a free permit and a token of its own is put into the pool. -/
def install (context : Context) : ReviewerPool Context :=
  { p.setTrunk p.spawned ⟨some context, none, false, false⟩ with
    trunk := some p.spawned
    spawned := p.spawned + 1 }

def takeOut (t : Nat) : ReviewerPool Context :=
  { p with trunk := none, replaced := p.replaced ++ [(p.trunks t).holder.isSome] }

def start (cancelled discarded : Bool) : ReviewerPool Context :=
  { p with starts := p.starts ++ [⟨cancelled, discarded⟩] }

variable [DecidableEq Context]

def advance (i : Nat) : Review Context → Option (ReviewerPool Context)
  | .selecting context =>
    match p.trunk with
    | none => some (p.setReview i (.spawning context))
    | some t =>
      if p.isCancelled t || (p.trunks t).context != some context then
        some (p.setReview i (.stale context t))
      else some (p.setReview i (.selected context t)).unlock
  | .stale context t =>
    if (p.trunks t).holder.isNone then
      some ((p.setHolder t (some i)).setReview i (.probed context t))
    else some (p.setReview i (.selected context t)).unlock
  -- The permit of the probe is a temporary of the condition.
  | .probed context t => some ((p.setHolder t none).setReview i (.replacing context t))
  | .replacing context t => some ((p.takeOut t).setReview i (.spawning context))
  | .selected context t =>
    if (p.trunks t).context = some context ∧ (p.trunks t).holder.isNone then
      some ((p.start (p.isCancelled t) (p.trunks t).discarded).setHolder t (some i)
        |>.setReview i (.running t))
    else some (p.setReview i .forking)
  | .committing t => some (p.setReview i (.releasing t false))
  | .cancelling t remove => some ((p.cancelTrunk t).setReview i (.releasing t remove))
  | .releasing t remove =>
    some ((p.setHolder t none).setReview i (if remove then .removing t else .ended))
  | .removing t =>
    if p.lock.isSome then none
    else if p.trunk = some t then some ((p.takeOut t).setReview i .ended)
    else some (p.setReview i .ended)
  | .forked => some ((p.start p.runtimeCancelled false).setReview i .runningFork)
  | _ => none

def finishSpawn (i : Nat) (ok : Bool) : Review Context → Option (ReviewerPool Context)
  | .spawning context =>
    if ok then some ((p.install context).setReview i (.selected context p.spawned)).unlock
    else some (p.setReview i .ended).unlock
  | .forking => some (p.setReview i (if ok then .forked else .ended))
  | _ => none

def finish (i : Nat) (disposition : SessionDisposition) (completed : Bool) :
    Review Context → Option (ReviewerPool Context)
  | .running t =>
    match disposition with
    | .reusable =>
      some (p.setReview i (if completed then .committing t else .releasing t false))
    | .discard =>
      some ((p.setTrunk t { p.trunks t with discarded := true }).setReview i (.cancelling t true))
  | .runningFork => some (p.setReview i .ended)
  | _ => none

def abandon (i : Nat) : Review Context → Option (ReviewerPool Context)
  | .waiting | .removing _ | .forking | .runningFork => some (p.setReview i .ended)
  | .spawning _ => some (p.setReview i .ended).unlock
  -- The locals are dropped, the last one first.
  | .running t | .committing t => some (p.setReview i (.cancelling t false))
  | _ => none

def begin (i : Nat) : Review Context → Option (ReviewerPool Context)
  | .idle => some (p.setReview i .waiting)
  | _ => none

def enter (i : Nat) (context : Context) : Review Context → Option (ReviewerPool Context)
  | .waiting =>
    if p.lock.isSome then none
    else some { p.setReview i (.selecting context) with lock := some i }
  | _ => none

def step (p : ReviewerPool Context) : Action Context → Option (ReviewerPool Context)
  | .review i => p.begin i (p.reviews i)
  | .enter i context => p.enter i context (p.reviews i)
  | .advance i => p.advance i (p.reviews i)
  | .spawned i ok => p.finishSpawn i ok (p.reviews i)
  | .finish i disposition completed => p.finish i disposition completed (p.reviews i)
  | .abandon i => p.abandon i (p.reviews i)
  | .prewarm context =>
    if p.lock.isSome then none
    else if !p.runtimeCancelled && p.trunk.isNone then some (p.install context)
    else some p
  | .cancelRuntime => some { p with runtimeCancelled := true }
  | .takeTrunk => if p.lock.isSome then none else some { p with trunk := none }

end ReviewerPool

end SushiGpt.GuardianReviewer
