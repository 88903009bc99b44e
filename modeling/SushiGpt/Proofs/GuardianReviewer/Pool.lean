/-
Reviews and the sessions they run on.

A trunk has one permit, and a call runs on the trunk while it has it, so two never do.  A review
that discards the trunk cancels its token before it gives the permit back: whoever takes the
permit of a trunk that is not cancelled gets a session nobody discarded.  But the token is looked
at when the trunk is selected, and the permit is taken later; and a call that replaces a trunk
gives its permit back before it takes the trunk out.  The theorem names the steps of others that
do harm in between.
-/
import SushiGpt.GuardianReviewer.Pool
import SushiGpt.Lib.Machine

namespace SushiGpt.GuardianReviewer

open Function Option List

variable {Context : Type}

namespace Review

/-- The trunk whose permit the call has. -/
@[grind] def permit? : Review Context → Option Nat
  | probed _ t | running t | committing t | cancelling t _ | releasing t _ => some t
  | _ => none

/-- The trunk the call runs on. -/
@[grind] def session? : Review Context → Option Nat
  | running t | committing t | cancelling t _ | releasing t _ => some t
  | _ => none

@[grind] def trunk? : Review Context → Option Nat
  | stale _ t | probed _ t | replacing _ t | selected _ t | running t | committing t
  | cancelling t _ | releasing t _ | removing t => some t
  | _ => none

@[grind] def hasLock : Review Context → Bool
  | selecting _ | stale _ _ | probed _ _ | replacing _ _ | spawning _ => true
  | _ => false

/-- The call cancels the trunk, or has cancelled it and takes it out. -/
@[grind] def dooms : Review Context → Option Nat
  | releasing t true | removing t => some t
  | _ => none

variable {review : Review Context} {t : Nat} {r : Bool}

@[grind →] theorem permit?_of_session? (h : review.session? = some t) :
    review.permit? = some t := by
  cases review <;> first | exact h | exact absurd h nofun

@[grind →] theorem trunk?_of_permit? (h : review.permit? = some t) : review.trunk? = some t := by
  cases review <;> first | exact h | exact absurd h nofun

@[grind =] theorem dooms_releasing :
    (releasing t r : Review Context).dooms = if r then some t else none := by
  cases r <;> rfl

@[grind →] theorem trunk?_of_dooms (h : review.dooms = some t) : review.trunk? = some t := by
  cases review <;> grind

end Review

namespace ReviewerPool

variable {p : ReviewerPool Context} {i t : Nat} {old next : Review Context}

structure Consistent (p : ReviewerPool Context) : Prop where
  holder : ∀ i t, (p.reviews i).permit? = some t ↔ (p.trunks t).holder = some i
  locked : ∀ i, (p.reviews i).hasLock → p.lock = some i
  referred : ∀ i t, (p.reviews i).trunk? = some t → t < p.spawned
  installed : ∀ t, p.trunk = some t → t < p.spawned
  discarded : ∀ t, (p.trunks t).discarded → (p.trunks t).cancelled ∨
    ∃ i r, p.reviews i = .cancelling t r
  doomed : ∀ i t, (p.reviews i).dooms = some t → (p.trunks t).cancelled
  unheld : ∀ i j t, p.reviews i = .removing t → (p.reviews j).session? ≠ some t

namespace Consistent

theorem new : Consistent (.new : ReviewerPool Context) := by
  constructor <;> grind [ReviewerPool.new]

/-! What a step can do to the invariant. -/

variable (h : Consistent p)
include h

theorem setReview (hold : p.reviews i = old) (hper : next.permit? = old.permit?)
    (hsess : next.session? = old.session?) (hlock : next.hasLock → old.hasLock)
    (htrunk : ∀ t, next.trunk? = some t → t < p.spawned) (hdooms : next.dooms = none)
    (hcan : ∀ t r, old ≠ .cancelling t r) : Consistent (p.setReview i next) := by
  cases h
  constructor <;> simp only [ReviewerPool.setReview, update_apply]
  case installed => assumption
  all_goals grind

theorem unlock (hlock : ∀ i, (p.reviews i).hasLock = false) : Consistent p.unlock :=
  { h with locked := fun i hi => absurd ((hlock i).symm.trans hi) Bool.false_ne_true }

theorem acquire (hold : p.reviews i = old) (hn : old.permit? = none)
    (hfree : (p.trunks t).holder = none) (hper : next.permit? = some t)
    (hlock : next.hasLock → old.hasLock) (htrunk : old.trunk? = some t) (hdooms : next.dooms = none)
    (hsess : next.session? = some t → ∀ j, p.reviews j ≠ .removing t) :
    Consistent ((p.setHolder t (some i)).setReview i next) := by
  obtain ⟨hhol, hloc, href, hins, hdis, hdoom, hunh⟩ := h
  constructor <;> simp only [ReviewerPool.setReview, setHolder, setTrunk, update_apply]
  case installed => exact hins
  case unheld =>
    intro j k t' hrem hruns
    have hj : p.reviews j = .removing t' := by grind
    by_cases hk : k = i
    · grind
    · rw [if_neg hk] at hruns
      exact hunh j k t' hj hruns
  all_goals grind

theorem release (hold : p.reviews i = old) (hper : old.permit? = some t)
    (hcan : ∀ t r, old ≠ .cancelling t r) (hn : next.permit? = none)
    (hlock : next.hasLock → old.hasLock) (htrunk : ∀ t, next.trunk? = some t → old.trunk? = some t)
    (hdooms : next.dooms = old.dooms) : Consistent ((p.setHolder t none).setReview i next) := by
  obtain ⟨hhol, hloc, href, hins, hdis, hdoom, hunh⟩ := h
  have hdoomedTrunk : ∀ t', next.dooms = some t' → t' = t := by grind
  constructor <;> simp only [ReviewerPool.setReview, setHolder, setTrunk, update_apply]
  case installed => exact hins
  case unheld =>
    intro j k t' hrem hruns
    have hk : k ≠ i := by grind
    rw [if_neg hk] at hruns
    by_cases hj : j = i
    · -- Nobody else had the permit of the trunk that is given back.
      grind
    · rw [if_neg hj] at hrem
      exact hunh j k t' hrem hruns
  all_goals grind

/-- The token of the trunk is cancelled by a call that runs on it. -/
theorem cancel {r : Bool} (hold : p.reviews i = .cancelling t r) :
    Consistent ((p.cancelTrunk t).setReview i (.releasing t r)) := by
  cases h
  constructor <;> simp only [ReviewerPool.setReview, cancelTrunk, setTrunk, update_apply]
  case installed => assumption
  all_goals grind

theorem discard (hold : p.reviews i = .running t) :
    Consistent ((p.setTrunk t { p.trunks t with discarded := true }).setReview i
      (.cancelling t true)) := by
  cases h
  constructor <;> simp only [ReviewerPool.setReview, setTrunk, update_apply]
  case installed => assumption
  case discarded =>
    intro t' hdis
    by_cases ht : t' = t
    · exact .inr ⟨i, true, by rw [if_pos rfl, ht]⟩
    · grind
  all_goals grind

theorem install (c : Context) : Consistent (p.install c) := by
  cases h
  constructor <;> simp only [ReviewerPool.install, setTrunk, update_apply]
  all_goals grind

theorem leave (hold : p.reviews i = old) (hlock : old.hasLock = true) (hnext : next.hasLock = false)
    (hset : Consistent (p.setReview i next)) : Consistent (p.setReview i next).unlock := by
  refine hset.unlock fun j => ?_
  have hmine := h.locked i (hold ▸ hlock)
  simp only [ReviewerPool.setReview, update_apply]
  by_cases hj : j = i
  · rw [if_pos hj, hnext]
  · rw [if_neg hj]
    by_contra ho
    rw [Bool.not_eq_false] at ho
    have htheirs := h.locked j ho
    rw [hmine, some.injEq] at htheirs
    exact hj htheirs.symm

theorem enter (hold : p.reviews i = .waiting) (hfree : p.lock = none) (context : Context) :
    Consistent { p.setReview i (.selecting context) with lock := some i } := by
  cases h
  constructor <;> simp only [ReviewerPool.setReview, update_apply]
  case installed => assumption
  all_goals grind

theorem takeOut (t : Nat) : Consistent (p.takeOut t) :=
  { h with installed := fun _ htrunk => absurd htrunk nofun }

theorem start (c d : Bool) : Consistent (p.start c d) :=
  { h with }

/-- Nobody has the permit of a trunk that is about to be taken out for good. -/
theorem holder_of_removing (hrev : p.reviews i = .removing t) (hlock : p.lock = none) :
    (p.trunks t).holder = none := by
  cases hhol : (p.trunks t).holder with
  | none => rfl
  | some j =>
    exfalso
    have hper := (h.holder j t).mpr hhol
    have hsess := h.unheld i j t hrev
    have hloc := h.locked j
    rw [hlock] at hloc
    cases hj : p.reviews j <;> rw [hj] at hper hsess hloc <;>
      first | exact hsess hper | exact absurd (hloc rfl) nofun

/-- Nobody discarded a trunk whose permit is free and whose token is not cancelled. -/
theorem not_discarded (hfree : (p.trunks t).holder = none)
    (hcanc : (p.trunks t).cancelled = false) : (p.trunks t).discarded = false := by
  by_contra hdis
  rw [Bool.not_eq_false] at hdis
  rcases h.discarded t hdis with hc | ⟨j, r, hj⟩
  · exact absurd (hcanc.symm.trans hc) Bool.false_ne_true
  · have hhol := (h.holder j t).mp (by rw [hj]; rfl)
    exact absurd (hfree.symm.trans hhol) nofun

end Consistent

/-! ### What the calls rely on -/

/-- No review started on a cancelled or discarded session, and none took out a trunk that was
held. -/
structure Clean (p : ReviewerPool Context) : Prop where
  starts : ∀ start ∈ p.starts, start.cancelled = false ∧ start.discarded = false
  replaced : ∀ held ∈ p.replaced, held = false

@[simp] theorem clean_setReview_iff : Clean (p.setReview i next) ↔ Clean p :=
  ⟨fun h => ⟨h.starts, h.replaced⟩, fun h => ⟨h.starts, h.replaced⟩⟩

@[simp] theorem clean_setHolder_iff {holder : Option Nat} :
    Clean (p.setHolder t holder) ↔ Clean p :=
  ⟨fun h => ⟨h.starts, h.replaced⟩, fun h => ⟨h.starts, h.replaced⟩⟩

theorem clean_start_iff (h : Clean p) {c d : Bool} :
    Clean (p.start c d) ↔ c = false ∧ d = false := by
  constructor
  · intro hcl
    exact hcl.starts ⟨c, d⟩ (mem_append_right _ (mem_singleton_self _))
  · intro hnew
    exact ⟨forall_mem_append.mpr ⟨h.starts, forall_mem_singleton.mpr hnew⟩, h.replaced⟩

theorem clean_takeOut_iff (h : Clean p) : Clean (p.takeOut t) ↔ (p.trunks t).holder = none := by
  rw [← not_isSome_iff_eq_none, Bool.not_eq_true]
  constructor
  · intro hcl
    exact hcl.replaced _ (mem_append_right _ (mem_singleton_self _))
  · intro hfree
    exact ⟨h.starts, forall_mem_append.mpr ⟨h.replaced, forall_mem_singleton.mpr hfree⟩⟩

/-- What the code would have to check before a call goes on: the token of the trunk when it takes
the permit, that of the runtime when it runs a fork, and the permit of a trunk that it takes out
of the pool to replace it. -/
def CheckedReview (p : ReviewerPool Context) : Review Context → Prop
  | .selected context t =>
    (p.trunks t).context = some context ∧ (p.trunks t).holder.isNone → p.isCancelled t = false
  | .forked => p.runtimeCancelled = false
  | .replacing _ t => (p.trunks t).holder = none
  | _ => True

variable {p' : ReviewerPool Context}

/-- Every call finds what it relies on, should it go on now. -/
def Ready (p : ReviewerPool Context) : Prop := ∀ i, p.CheckedReview (p.reviews i)

/-- A call that goes on takes nothing away that another one relies on: it does not give back the
permit of a cancelled trunk while a call has selected the trunk, nor take a permit between a probe
and the take-out. -/
def UndisturbedBy (p : ReviewerPool Context) : Review Context → Prop
  | .probed _ t | .releasing t _ => p.isCancelled t → ∀ j context,
    p.reviews j = .selected context t → (p.trunks t).context ≠ some context
  | .selected context t =>
    (p.trunks t).context = some context ∧ (p.trunks t).holder.isNone →
      ∀ j context', p.reviews j ≠ .replacing context' t
  | _ => True

/-- Nor is a session spawned by a cancelled runtime, or the runtime cancelled while a call is about
to run its fork or to take a free permit. -/
def Undisturbed (p : ReviewerPool Context) : Action Context → Prop
  | .advance i => p.UndisturbedBy (p.reviews i)
  | .spawned _ true => p.runtimeCancelled = false
  | .cancelRuntime => ∀ j, p.reviews j ≠ .forked ∧ ∀ context t,
      p.reviews j = .selected context t → (p.trunks t).context = some context →
        (p.trunks t).holder.isSome
  | _ => True

theorem ready_update_iff (hreviews : p'.reviews = update p.reviews i next) :
    Ready p' ↔ p'.CheckedReview next ∧ ∀ j ≠ i, p'.CheckedReview (p.reviews j) := by
  unfold Ready
  rw [hreviews]
  exact forall_update_iff _ fun _ review => p'.CheckedReview review

/-- A call goes on and leaves the trunks alone. -/
theorem ready_set_iff (h : Ready p) (hreviews : p'.reviews = update p.reviews i next)
    (htrunks : p'.trunks = p.trunks) (hruntime : p'.runtimeCancelled = p.runtimeCancelled) :
    Ready p' ↔ p.CheckedReview next := by
  have hsame (review : Review Context) : p'.CheckedReview review ↔ p.CheckedReview review := by
    cases review <;> simp only [CheckedReview, isCancelled, htrunks, hruntime]
  rw [ready_update_iff hreviews, hsame]
  exact and_iff_left fun j _ => (hsame _).mpr (h j)

theorem Ready.set (h : Ready p) (hreviews : p'.reviews = update p.reviews i next)
    (htrunks : p'.trunks = p.trunks) (hruntime : p'.runtimeCancelled = p.runtimeCancelled)
    (hnext : p.CheckedReview next) : Ready p' :=
  (ready_set_iff h hreviews htrunks hruntime).mpr hnext

theorem Ready.replacing {context : Context} (h : Ready p)
    (hrev : p.reviews i = .replacing context t) :
    (p.trunks t).holder = none := by
  have hi := h i
  rwa [hrev] at hi

/-- A trunk changes, and with it what the calls mind that have selected it or replace it. -/
theorem ready_setTrunk_iff {trunk : Trunk Context} (h : Ready p)
    (hnext : (p.setTrunk t trunk).CheckedReview next) :
    Ready ((p.setTrunk t trunk).setReview i next) ↔ ∀ j ≠ i, ∀ context,
      (p.reviews j = .selected context t → trunk.context = some context → trunk.holder = none →
        (p.runtimeCancelled || trunk.cancelled) = false) ∧
      (p.reviews j = .replacing context t → trunk.holder = none) := by
  rw [ready_update_iff rfl]
  refine (and_iff_right hnext).trans (forall₂_congr fun j _ => ?_)
  have hj := h j
  change (p.setTrunk t trunk).CheckedReview (p.reviews j) ↔ _
  cases hrev : p.reviews j <;> rw [hrev] at hj <;>
    simp only [CheckedReview, setTrunk, update_apply, isCancelled, isNone_iff_eq_none,
      and_imp] at hj ⊢
  case selected context t' =>
    by_cases ht : t' = t
    · subst ht
      simp
    · simpa [ht] using hj
  all_goals grind

theorem ready_release_iff (h : Ready p) (hrev : p.reviews i = old)
    (hold : ∀ context, old ≠ .selected context t)
    (hnext : (p.setHolder t none).CheckedReview next) :
    Ready ((p.setHolder t none).setReview i next) ↔ (p.isCancelled t → ∀ j context,
      p.reviews j = .selected context t → (p.trunks t).context ≠ some context) := by
  rw [setHolder, ready_setTrunk_iff h hnext]
  constructor
  · intro hkept hcancelled j context hsel hcontext
    have hj : j ≠ i := by
      rintro rfl
      exact hold context (hrev.symm.trans hsel)
    exact absurd (hcancelled.symm.trans ((hkept j hj context).1 hsel hcontext rfl)) nofun
  · intro hkept j _ context
    refine ⟨fun hsel hcontext _ => ?_, fun _ => rfl⟩
    by_contra hcancelled
    exact hkept (Bool.not_eq_false _ ▸ hcancelled) j context hsel hcontext

/-- Nobody refers to a trunk that is not there yet. -/
theorem Ready.install (h : Ready p) (hcons : Consistent p) (context : Context) :
    Ready (p.install context) := by
  intro j
  have hj := h j
  have hbound := hcons.referred j
  change (p.install context).CheckedReview (p.reviews j)
  cases hrev : p.reviews j <;> rw [hrev] at hj hbound <;>
    simp only [CheckedReview, ReviewerPool.install, setTrunk, isCancelled, update_apply] at hj ⊢
  case selected context' t | replacing context' t =>
    rw [if_neg (Nat.ne_of_lt (hbound t rfl))]
    exact hj
  all_goals exact hj

theorem ready_cancelRuntime_iff (h : Ready p) :
    Ready { p with runtimeCancelled := true } ↔ p.Undisturbed .cancelRuntime := by
  refine forall_congr' fun j => ?_
  have hj := h j
  change CheckedReview { p with runtimeCancelled := true } (p.reviews j) ↔ _
  cases hrev : p.reviews j <;> rw [hrev] at hj <;>
    simp [CheckedReview, isCancelled, isSome_iff_ne_none] at hj ⊢
  case replacing => exact hj

/-! ### One step -/

/-- The step leaves the pool clean and the invariant as it is; `undisturbed` tells whether every
call still finds what it relies on. -/
structure Keeps (p' : ReviewerPool Context) (undisturbed : Prop) : Prop where
  clean : Clean p'
  consistent : Consistent p'
  ready : Ready p' ↔ undisturbed

/-- A call goes on and leaves the trunks alone. -/
theorem Clean.quiet {c : Prop} (hcl : Clean p) (hready : Ready p)
    (hframe : p' = { p.setReview i next with trunk := p'.trunk, lock := p'.lock })
    (hnext : p.CheckedReview next) (hc : c) (h : Consistent p') : Keeps p' c where
  clean := hframe ▸ ⟨hcl.starts, hcl.replaced⟩
  consistent := h
  ready := by
    refine iff_of_true ?_ hc
    rw [hframe]
    exact hready.set rfl rfl rfl hnext

section

variable {review : Review Context} (h : Consistent p) (hcl : Clean p) (hready : Ready p)
include h hcl hready

theorem Consistent.finishSpawn {ok : Bool} (hrev : p.reviews i = review)
    (hs : p.finishSpawn i ok review = some p') : Keeps p' (p.Undisturbed (.spawned i ok)) := by
  cases review <;> cases ok <;> cases hs
  case spawning.false.refl =>
    have hend : Consistent (p.setReview i .ended) :=
      h.setReview hrev rfl rfl nofun nofun rfl nofun
    exact hcl.quiet hready rfl trivial trivial (h.leave hrev rfl rfl hend)
  case spawning.true.refl context =>
    have hnew : ∀ t, some p.spawned = some t → t < p.spawned + 1 := fun t ht =>
      some.inj ht ▸ Nat.lt_succ_self _
    have hins := h.install context
    refine ⟨⟨hcl.starts, hcl.replaced⟩, hins.leave hrev rfl rfl
      (hins.setReview hrev rfl rfl nofun hnew rfl nofun), ?_⟩
    have hset : Ready ((p.install context).setReview i (.selected context p.spawned)).unlock ↔
        (p.install context).CheckedReview (.selected context p.spawned) :=
      ready_set_iff (hready.install h context) rfl rfl rfl
    rw [hset]
    simp [CheckedReview, ReviewerPool.install, setTrunk, isCancelled, Undisturbed]
  case forking.true.refl =>
    have hset : Ready (p.setReview i .forked) ↔ p.CheckedReview .forked :=
      ready_set_iff hready rfl rfl rfl
    exact ⟨⟨hcl.starts, hcl.replaced⟩, h.setReview hrev rfl rfl nofun nofun rfl nofun, hset⟩
  case forking.false.refl =>
    exact hcl.quiet hready rfl trivial trivial (h.setReview hrev rfl rfl nofun nofun rfl nofun)

theorem Consistent.finish {disposition : SessionDisposition} {completed : Bool}
    (hrev : p.reviews i = review) (hs : p.finish i disposition completed review = some p') :
    Keeps p' True := by
  have htrunk := h.referred i
  rw [hrev] at htrunk
  cases review with
  | running t =>
    cases disposition with
    | reusable =>
      cases completed <;> cases hs <;> exact hcl.quiet hready rfl trivial trivial
        (h.setReview hrev rfl rfl nofun htrunk rfl nofun)
    | discard =>
      cases hs
      refine ⟨⟨hcl.starts, hcl.replaced⟩, h.discard hrev,
        iff_of_true ((ready_setTrunk_iff hready (by trivial)).mpr fun j _ context =>
          ⟨fun hsel hcontext hfree => ?_, hready.replacing⟩) trivial⟩
      have hj := hready j
      rw [hsel] at hj
      exact hj ⟨hcontext, isNone_iff_eq_none.mpr hfree⟩
  | runningFork =>
    cases hs
    exact hcl.quiet hready rfl trivial trivial (h.setReview hrev rfl rfl nofun nofun rfl nofun)
  | _ => exact absurd hs nofun

theorem Consistent.abandon (hrev : p.reviews i = review) (hs : p.abandon i review = some p') :
    Keeps p' True := by
  have htrunk := h.referred i
  rw [hrev] at htrunk
  cases review <;> cases hs
  case spawning.refl =>
    have hend : Consistent (p.setReview i .ended) :=
      h.setReview hrev rfl rfl nofun nofun rfl nofun
    exact hcl.quiet hready rfl trivial trivial (h.leave hrev rfl rfl hend)
  case running.refl | committing.refl =>
    exact hcl.quiet hready rfl trivial trivial (h.setReview hrev rfl rfl nofun htrunk rfl nofun)
  all_goals
    exact hcl.quiet hready rfl trivial trivial (h.setReview hrev rfl rfl nofun nofun rfl nofun)

variable [DecidableEq Context]

theorem Consistent.advance (hrev : p.reviews i = review) (hs : p.advance i review = some p') :
    Keeps p' (p.UndisturbedBy review) := by
  have htrunk : ∀ t, review.trunk? = some t → t < p.spawned := fun t ht =>
    h.referred i t (hrev ▸ ht)
  have hchecked : p.CheckedReview review := hrev ▸ hready i
  cases review with
  | selecting c =>
    simp only [ReviewerPool.advance] at hs
    split at hs
    · cases hs
      exact hcl.quiet hready rfl trivial trivial (h.setReview hrev rfl rfl id nofun rfl nofun)
    · rename_i t hins
      have hbound : ∀ t', some t = some t' → t' < p.spawned := fun t' ht =>
        h.installed t' (hins.trans ht)
      split_ifs at hs with hstale <;> cases hs
      · exact hcl.quiet hready rfl trivial trivial
          (h.setReview hrev rfl rfl id hbound rfl nofun)
      · rw [Bool.or_eq_true, not_or, Bool.not_eq_true] at hstale
        exact hcl.quiet hready rfl (fun _ => hstale.1) trivial
          (h.leave hrev rfl rfl (h.setReview hrev rfl rfl nofun hbound rfl nofun))
  | stale c t =>
    simp only [ReviewerPool.advance] at hs
    split_ifs at hs with hfree <;> cases hs
    · have hfree := isNone_iff_eq_none.mp hfree
      refine ⟨⟨hcl.starts, hcl.replaced⟩, h.acquire hrev rfl hfree rfl id rfl rfl nofun,
        iff_of_true ((ready_setTrunk_iff hready (by trivial)).mpr fun j hj context =>
          ⟨nofun, fun hrep => ?_⟩) trivial⟩
      -- The lock is with one call.
      have hmine := h.locked i (by rw [hrev]; rfl)
      have htheirs := h.locked j (by rw [hrep]; rfl)
      exact absurd (some.inj (htheirs.symm.trans hmine)) hj
    · exact hcl.quiet hready rfl (fun hsel => absurd hsel.2 hfree) trivial
        (h.leave hrev rfl rfl (h.setReview hrev rfl rfl nofun htrunk rfl nofun))
  | probed c t =>
    cases hs
    exact ⟨⟨hcl.starts, hcl.replaced⟩, h.release hrev rfl nofun rfl id (fun _ ht => ht) rfl,
      ready_release_iff hready hrev nofun (by simp [CheckedReview, setHolder, setTrunk])⟩
  | replacing c t =>
    cases hs
    refine ⟨clean_setReview_iff.mpr ((clean_takeOut_iff hcl).mpr hchecked),
      (h.takeOut t).setReview hrev rfl rfl id nofun rfl nofun, ?_⟩
    exact iff_of_true (hready.set rfl rfl rfl trivial) trivial
  | selected c t =>
    simp only [ReviewerPool.advance] at hs
    split_ifs at hs with hrun <;> cases hs
    · have hfree := isNone_iff_eq_none.mp hrun.2
      have halive := (Bool.or_eq_false_iff.mp (hchecked hrun)).2
      refine ⟨?_, ?_, ?_⟩
      · rw [clean_setReview_iff, clean_setHolder_iff, clean_start_iff hcl]
        exact ⟨hchecked hrun, h.not_discarded hfree halive⟩
      · refine (h.start _ _).acquire hrev rfl hfree rfl nofun rfl rfl fun _ j hj => ?_
        -- A trunk that is about to be taken out is cancelled.
        have hcanc : (p.trunks t).cancelled = true := h.doomed j t (congrArg Review.dooms hj)
        exact absurd (hcanc.symm.trans halive) nofun
      · have hstarted : Ready (p.start (p.isCancelled t) (p.trunks t).discarded) :=
          hready.set (update_eq_self i p.reviews).symm rfl rfl (hready i)
        refine (ready_setTrunk_iff hstarted (by trivial)).trans ⟨fun hkept _ j context hrep => ?_,
          fun hkept j _ context => ⟨nofun, fun hrep => absurd hrep (hkept hrun j context)⟩⟩
        have hj : j ≠ i := by
          rintro rfl
          exact absurd (hrev.symm.trans hrep) nofun
        exact absurd ((hkept j hj context).2 hrep) nofun
    · exact hcl.quiet hready rfl trivial (fun hsel => absurd hsel hrun)
        (h.setReview hrev rfl rfl nofun nofun rfl nofun)
  | committing t =>
    cases hs
    exact hcl.quiet hready rfl trivial trivial (h.setReview hrev rfl rfl nofun htrunk rfl nofun)
  | cancelling t r =>
    cases hs
    -- Nobody takes a permit that the call has.
    have hmine : (p.trunks t).holder = some i := (h.holder i t).mp (by rw [hrev]; rfl)
    refine ⟨⟨hcl.starts, hcl.replaced⟩, h.cancel hrev,
      iff_of_true ((ready_setTrunk_iff hready (by trivial)).mpr fun j _ context =>
        ⟨fun _ _ hfree => ?_, hready.replacing⟩) trivial⟩
    exact absurd (hmine.symm.trans hfree) nofun
  | releasing t r =>
    cases hs
    refine ⟨⟨hcl.starts, hcl.replaced⟩, ?_,
      ready_release_iff hready hrev nofun (by cases r <;> trivial)⟩
    cases r with
    | true => exact h.release hrev rfl nofun rfl nofun (fun _ ht => ht) rfl
    | false => exact h.release hrev rfl nofun rfl nofun nofun rfl
  | removing t =>
    simp only [ReviewerPool.advance] at hs
    split_ifs at hs with hlock htrunk <;> cases hs
    · have hn : p.lock = none := not_isSome_iff_eq_none.mp hlock
      refine ⟨?_, (h.takeOut t).setReview hrev rfl rfl nofun nofun rfl nofun,
        iff_of_true (hready.set rfl rfl rfl trivial) trivial⟩
      rw [clean_setReview_iff]
      exact (clean_takeOut_iff hcl).mpr (h.holder_of_removing hrev hn)
    · exact hcl.quiet hready rfl trivial trivial
        (h.setReview hrev rfl rfl nofun nofun rfl nofun)
  | forked =>
    cases hs
    refine ⟨?_, (h.start _ _).setReview hrev rfl rfl nofun nofun rfl nofun,
      iff_of_true (hready.set rfl rfl rfl trivial) trivial⟩
    rw [clean_setReview_iff]
    exact (clean_start_iff hcl).mpr ⟨hchecked, rfl⟩
  | _ => exact absurd hs nofun

/-- **A step keeps the pool clean where every call finds what it relies on, and whether it leaves
it so is told by the step.** -/
theorem Consistent.step {action : Action Context} (hs : step p action = some p') :
    Keeps p' (p.Undisturbed action) := by
  cases action with
  | advance i => exact h.advance hcl hready rfl hs
  | review i =>
    change p.begin i (p.reviews i) = some p' at hs
    cases hrev : p.reviews i <;> rw [hrev] at hs <;> cases hs
    exact hcl.quiet hready rfl trivial trivial (h.setReview hrev rfl rfl nofun nofun rfl nofun)
  | enter i context =>
    change p.enter i context (p.reviews i) = some p' at hs
    cases hrev : p.reviews i <;> rw [hrev] at hs
    case waiting =>
      simp only [ReviewerPool.enter] at hs
      split_ifs at hs with hlock
      cases hs
      have hfree := not_isSome_iff_eq_none.mp hlock
      exact hcl.quiet hready rfl trivial trivial (h.enter hrev hfree context)
    all_goals exact absurd hs nofun
  | spawned i ok => exact h.finishSpawn hcl hready rfl hs
  | finish i disposition completed => exact h.finish hcl hready rfl hs
  | abandon i => exact h.abandon hcl hready rfl hs
  | prewarm context =>
    simp only [ReviewerPool.step] at hs
    split_ifs at hs <;> cases hs
    · exact ⟨⟨hcl.starts, hcl.replaced⟩, h.install context,
        iff_of_true (hready.install h context) trivial⟩
    · exact ⟨hcl, h, iff_of_true hready trivial⟩
  | cancelRuntime =>
    cases hs
    exact ⟨⟨hcl.starts, hcl.replaced⟩, { h with }, ready_cancelRuntime_iff hready⟩
  | takeTrunk =>
    simp only [ReviewerPool.step] at hs
    split_ifs at hs
    cases hs
    refine ⟨⟨hcl.starts, hcl.replaced⟩,
      { h with installed := fun _ htrunk => absurd htrunk nofun }, iff_of_true ?_ trivial⟩
    exact hready.set (update_eq_self 0 p.reviews).symm rfl rfl (hready 0)

end

/-! ### Runs -/

/-- At most one review runs on a trunk, no review started on a session that was cancelled or that
an earlier review discarded, and none replaced a trunk that was held. -/
structure Safe (p : ReviewerPool Context) : Prop extends Clean p where
  single : ∀ i j t, (p.reviews i).session? = some t → (p.reviews j).session? = some t → i = j

theorem Consistent.safe (h : Consistent p) (hcl : Clean p) : Safe p where
  toClean := hcl
  single i j t hi hj := by
    have hfst := (h.holder i t).mp (Review.permit?_of_session? hi)
    have hsec := (h.holder j t).mp (Review.permit?_of_session? hj)
    exact some.inj (hfst.symm.trans hsec)

variable [DecidableEq Context]

/-- The pool is safe, and so it is whichever call goes on. -/
def Secure (p : ReviewerPool Context) : Prop :=
  Safe p ∧ ∀ i next, step p (.advance i) = some next → Safe next

/-- A call that goes on without what it relies on leaves the pool unclean. -/
theorem Clean.checked {review : Review Context} (hcl : Clean p)
    (hnext : ∀ next, p.advance i review = some next → Clean next) : p.CheckedReview review := by
  cases review with
  | selected context t =>
    intro hrun
    have hclean := hnext _ (if_pos hrun)
    rw [clean_setReview_iff, clean_setHolder_iff, clean_start_iff hcl] at hclean
    exact hclean.1
  | forked => exact ((clean_start_iff hcl).mp (clean_setReview_iff.mp (hnext _ rfl))).1
  | replacing context t =>
    exact (clean_takeOut_iff hcl).mp (clean_setReview_iff.mp (hnext _ rfl))
  | _ => trivial

theorem secure_iff (h : Consistent p) : Secure p ↔ Clean p ∧ Ready p := by
  constructor
  · rintro ⟨hsafe, hnext⟩
    exact ⟨hsafe.toClean, fun i => hsafe.toClean.checked fun next hs => (hnext i next hs).toClean⟩
  · rintro ⟨hcl, hready⟩
    refine ⟨h.safe hcl, fun i next hs => ?_⟩
    obtain ⟨hcl', h', -⟩ := h.step hcl hready hs
    exact h'.safe hcl'

/-- **No run lets a review onto a discarded or cancelled session, or replaces a trunk that is
held, exactly if no step disturbs what the calls in flight rely on.  Two reviews never run on one
trunk.** -/
theorem reviews_safe_iff (actions : List (Action Context))
    (hrun : Machine.run step new actions = some p') :
    Machine.Throughout step Secure new actions ↔ Machine.Along step Undisturbed new actions := by
  have hnew : Clean (new : ReviewerPool Context) :=
    ⟨fun _ h => absurd h not_mem_nil, fun _ h => absurd h not_mem_nil⟩
  refine Machine.throughout_iff_along
    (fun p _ _ (h : Consistent p) hsecure hs _ => ?_)
    (fun p action p' h hsecure hs => ?_) actions Consistent.new ?_ hrun
  · obtain ⟨hcl, hready⟩ := (secure_iff h).mp hsecure
    exact (h.step hcl hready hs).consistent
  · obtain ⟨hcl, hready⟩ := (secure_iff h).mp hsecure
    obtain ⟨hcl', h', hiff⟩ := h.step hcl hready hs
    rw [secure_iff h', and_iff_right hcl', hiff]
  · exact (secure_iff Consistent.new).mpr ⟨hnew, fun _ => trivial⟩

/-- A review that ends well, and another one on the same trunk. -/
def reused : List (Action Unit) :=
  [.review 0, .enter 0 (), .advance 0, .spawned 0 true, .advance 0, .finish 0 .reusable true,
    .advance 0, .advance 0, .review 1, .enter 1 (), .advance 1, .advance 1]

theorem reused_safe :
    (Machine.run step new reused).isSome ∧ Machine.Throughout step Secure new reused := by
  refine ⟨by decide, ?_⟩
  obtain ⟨p', hrun⟩ := isSome_iff_exists.mp (show (Machine.run step new reused).isSome by decide)
  refine (reviews_safe_iff reused hrun).mpr ?_
  simp [Machine.Along, reused, Undisturbed, UndisturbedBy, step, new, begin, enter, advance,
    finishSpawn, finish, setReview, setHolder, setTrunk, unlock, install, start, isCancelled]
  constructor <;> intro j context <;> simp only [update_apply] <;> split_ifs <;> nofun

/-- The second review selects the trunk while the first one runs on it, and takes the permit when
the first one has discarded it. -/
def discardedInBetween : List (Action Unit) :=
  [.review 0, .enter 0 (), .advance 0, .spawned 0 true, .advance 0,
    .review 1, .enter 1 (), .advance 1,
    .finish 0 .discard true, .advance 0, .advance 0, .advance 1]

theorem discardedInBetween_starts :
    ∃ p, Machine.run step new discardedInBetween = some p ∧ p.reviews 1 = .running 0 ∧
      p.starts = [⟨false, false⟩, ⟨true, true⟩] :=
  ⟨_, rfl, rfl, rfl⟩

end ReviewerPool

end SushiGpt.GuardianReviewer
