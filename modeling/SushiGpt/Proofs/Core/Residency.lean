/-
How many agents are loaded.

A pending slot is one that a reservation holds.  No step but three raises the number of loaded
residents and pending slots: a slot that is granted, a touch of a thread that is not resident, and
the start of a thread that is listed without being loaded.  The source grants a slot by the length
of the list, which is right as long as no loaded candidate is out of it; and it never checks the
other two.
-/
import SushiGpt.Core.Residency
import SushiGpt.Lib.Machine

namespace SushiGpt.Core.Residency

variable {ThreadId : Type}

/-- The next lock of the call grants it a slot. -/
def Reservation.isGranted (capacity : Nat) (state : V2ResidencyState ThreadId) :
    Reservation ThreadId → Bool
  | .trying _ => (state.tryReservePendingSlot capacity).1
  | _ => false

variable {capacity i : Nat} {r r' : V2Residency ThreadId} {old : Reservation ThreadId}
  {tid : ThreadId}

namespace V2Residency

variable {new : Reservation ThreadId} {s : V2ResidencyState ThreadId}

/-- A thread is resident while it is listed and while it is being unloaded. -/
def IsResident (r : V2Residency ThreadId) (tid : ThreadId) : Prop :=
  tid ∈ r.state.residents ∨ tid ∈ r.candidates

instance [DecidableEq ThreadId] : Decidable (r.IsResident tid) :=
  inferInstanceAs (Decidable (_ ∨ _))

/-! A call that goes on changes its own candidate only. -/

theorem no_candidate (h : new.candidate? = none) (tid : ThreadId)
    (hcan : new.candidate? = some tid) : r.IsResident tid :=
  absurd (h.symm.trans hcan) nofun

theorem IsResident.of_set (hstate : ∀ tid ∈ s.residents, r.IsResident tid)
    (hnew : ∀ tid, new.candidate? = some tid → r.IsResident tid)
    (h : (r.setReservation i new s).IsResident tid) : r.IsResident tid := by
  rcases h with hlst | hcan
  · exact hstate tid hlst
  obtain ⟨res, hmem, hthr⟩ := List.mem_filterMap.mp hcan
  rcases List.mem_or_eq_of_mem_set hmem with hmem | rfl
  · exact .inr (List.mem_filterMap.mpr ⟨res, hmem, hthr⟩)
  · exact hnew tid hthr

theorem IsResident.set (hold : r.reservations[i]? = some old) (hn : old.candidate? = none)
    (hstate : r.state.residents ⊆ s.residents) (h : r.IsResident tid) :
    (r.setReservation i new s).IsResident tid := by
  rcases h with hlst | hcan
  · exact .inl (hstate hlst)
  obtain ⟨res, hmem, hthr⟩ := List.mem_filterMap.mp hcan
  obtain ⟨j, hj⟩ := List.mem_iff_getElem?.mp hmem
  have hij : i ≠ j := by
    rintro rfl
    rw [hold] at hj
    obtain rfl := Option.some.inj hj
    rw [hn] at hthr
    exact absurd hthr nofun
  refine .inr (List.mem_filterMap.mpr ⟨res, ?_, hthr⟩)
  exact List.mem_iff_getElem?.mpr ⟨j, (List.getElem?_set_ne hij).trans hj⟩

theorem countP_set (new : Reservation ThreadId) (hold : r.reservations[i]? = some old) :
    (r.reservations.set i new).countP Reservation.isSlot + (if old.isSlot then 1 else 0) =
      r.reservations.countP Reservation.isSlot + (if new.isSlot then 1 else 0) := by
  obtain ⟨hlt, rfl⟩ := List.getElem?_eq_some_iff.mp hold
  rw [List.countP_set hlt]
  have hpos : r.reservations[i].isSlot → 0 < r.reservations.countP Reservation.isSlot := fun h =>
    List.countP_pos_iff.mpr ⟨_, List.getElem_mem hlt, h⟩
  split_ifs with h <;> first | have := hpos h; omega | omega

/-- Each pending slot is held, and no thread is listed twice. -/
structure Consistent (r : V2Residency ThreadId) : Prop where
  pending : r.state.pendingSlots = r.reservations.countP Reservation.isSlot
  nodup : r.state.residents.Nodup

theorem Consistent.set (h : Consistent r) (hold : r.reservations[i]? = some old)
    (hpend : s.pendingSlots + (if old.isSlot then 1 else 0) =
      r.state.pendingSlots + (if new.isSlot then 1 else 0))
    (hnd : s.residents.Nodup) : Consistent (r.setReservation i new s) where
  pending := by
    have hc := countP_set new hold
    have hbefore := h.pending
    change s.pendingSlots = (r.reservations.set i new).countP Reservation.isSlot
    omega
  nodup := hnd

theorem Consistent.empty : Consistent (.empty : V2Residency ThreadId) := ⟨rfl, List.nodup_nil⟩

theorem Consistent.pos_of_slot (h : Consistent r) (hslot : r.reservations[i]? = some .slot) :
    0 < r.state.pendingSlots := by
  rw [h.pending]
  exact List.countP_pos_iff.mpr ⟨.slot, List.mem_of_getElem? hslot, rfl⟩

def grants (capacity : Nat) (r : V2Residency ThreadId) (i : Nat) : Bool :=
  (r.reservations[i]?).any (·.isGranted capacity r.state)

theorem grants_eq (hold : r.reservations[i]? = some old) :
    r.grants capacity i = old.isGranted capacity r.state := by
  unfold grants
  rw [hold, Option.any_some]

theorem exists_of_spend (h : r.spend i s = some r') :
    r.reservations[i]? = some .slot ∧ r' = r.setReservation i .spent s := by
  unfold spend at h
  split at h
  · exact ⟨‹_›, (Option.some.inj h).symm⟩
  · exact absurd h nofun

end V2Residency

variable [DecidableEq ThreadId]

/-! ### The list of residents -/

namespace V2ResidencyState

variable {residents : List ThreadId} {o : ThreadId}

theorem mem_touchResident : o ∈ touchResident residents tid ↔ o ∈ residents ∨ o = tid := by
  unfold touchResident
  by_cases h : o = tid <;> simp [h]

theorem nodup_touchResident (h : residents.Nodup) : (touchResident residents tid).Nodup := by
  refine List.Nodup.append (h.filter _) (List.nodup_singleton _) ?_
  intro o ho hthr
  rw [List.mem_singleton] at hthr
  simp [hthr] at ho

/-- A scan moves the residents around and takes one of them out at most. -/
theorem popLru_perm (pti : Option ThreadId) : ∀ (n : Nat) (residents : List ThreadId),
    ((popLru pti n residents).1.toList ++ (popLru pti n residents).2).Perm residents
  | 0, residents => .refl _
  | _ + 1, [] => .refl _
  | n + 1, c :: rest => by
    unfold popLru
    split_ifs
    · exact (popLru_perm pti n (rest ++ [c])).trans (List.perm_append_singleton _ _)
    · exact .refl _

end V2ResidencyState

/-! ### One step -/

namespace V2Residency

open V2ResidencyState Finset Machine

variable {r' : V2Residency ThreadId} {a : Action ThreadId}

def usage (r : V2Residency ThreadId) : Nat := r.loadedResidents.card + r.state.pendingSlots

theorem mem_loadedResidents : tid ∈ r.loadedResidents ↔ tid ∈ r.loaded ∧ r.IsResident tid :=
  mem_filter

theorem loadedResidents_subset (hloaded : r'.loaded ⊆ r.loaded)
    (hresid : ∀ tid, r'.IsResident tid → r.IsResident tid) :
    r'.loadedResidents ⊆ r.loadedResidents := by
  intro tid h
  obtain ⟨hload, hres⟩ := mem_loadedResidents.mp h
  exact mem_loadedResidents.mpr ⟨hloaded hload, hresid tid hres⟩

theorem usage_le (hload : r'.loaded ⊆ r.loaded) (hres : ∀ tid, r'.IsResident tid → r.IsResident tid)
    (hpend : r'.state.pendingSlots ≤ r.state.pendingSlots) : r'.usage ≤ r.usage :=
  Nat.add_le_add (card_le_card (loadedResidents_subset hload hres)) hpend

/-- The step raises the usage by one if it adds something, and not otherwise. -/
def Counts (adds : Prop) (r r' : V2Residency ThreadId) : Prop :=
  (adds → r'.usage = r.usage + 1) ∧ (¬ adds → r'.usage ≤ r.usage)

theorem Counts.of_le (h : r'.usage ≤ r.usage) : Counts False r r' := ⟨False.elim, fun _ => h⟩

theorem Counts.le_succ {adds : Prop} (h : Counts adds r r') : r'.usage ≤ r.usage + 1 :=
  (em adds).elim (fun hadds => (h.1 hadds).le) fun hnot => Nat.le_succ_of_le (h.2 hnot)

/-- A step that adds a loaded resident or a pending slot and takes none away. -/
def Adds (capacity : Nat) (r : V2Residency ThreadId) : Action ThreadId → Prop
  | .advance i => r.grants capacity i
  | .touch tid => tid ∈ r.loaded ∧ ¬ r.IsResident tid
  | .load tid => tid ∉ r.loaded ∧ r.IsResident tid
  | _ => False

instance : DecidablePred (r.Adds capacity)
  | .advance i => inferInstanceAs (Decidable (r.grants capacity i = true))
  | .touch _ | .load _ => inferInstanceAs (Decidable (_ ∧ _))
  | .reserveSlot _ | .unload _ _ | .commit _ _ | .dropSlot _ | .remove _ | .discard _ =>
    inferInstanceAs (Decidable False)

/-- What one lock of a call does: it is granted a slot, or it moves the residents around and
takes one of them out at most. -/
theorem advance_cases {next : Reservation ThreadId} {s : V2ResidencyState ThreadId}
    (h : old.advance capacity r.state = some (next, s)) :
    old.isSlot = false ∧ old.candidate? = none ∧
      ((next = .slot ∧ s = { r.state with pendingSlots := r.state.pendingSlots + 1 } ∧
          old.isGranted capacity r.state = true) ∨
        (next.isSlot = false ∧ s.pendingSlots = r.state.pendingSlots ∧
          (next.candidate?.toList ++ s.residents).Perm r.state.residents ∧
          old.isGranted capacity r.state = false)) := by
  cases old with
  | trying p =>
    refine ⟨rfl, rfl, ?_⟩
    unfold Reservation.isGranted
    unfold Reservation.advance tryReservePendingSlot at h
    unfold tryReservePendingSlot
    split_ifs at h ⊢ with hfull
    · cases h
      exact .inr ⟨rfl, rfl, .refl _, rfl⟩
    · cases h
      exact .inl ⟨rfl, rfl, rfl⟩
  | counting p =>
    cases h
    exact ⟨rfl, rfl, .inr ⟨rfl, rfl, .refl _, rfl⟩⟩
  | scanning p left =>
    refine ⟨rfl, rfl, .inr ?_⟩
    cases left with
    | zero =>
      cases h
      exact ⟨rfl, rfl, .refl _, rfl⟩
    | succ left =>
      have hperm := popLru_perm p r.state.residents.length r.state.residents
      rcases hpop : popLru p r.state.residents.length r.state.residents with ⟨popped, rest⟩
      rw [hpop] at hperm
      cases popped <;> simp only [Reservation.advance, popLruCandidate, hpop] at h <;>
        cases h <;> exact ⟨rfl, rfl, hperm, rfl⟩
  | unloading | agentLimitReached | slot | spent => exact absurd h nofun

theorem usage_grant {s : V2ResidencyState ThreadId} {next : Reservation ThreadId}
    (hold : r.reservations[i]? = some old) (hn : old.candidate? = none)
    (hnext : next.candidate? = none) (hres : s.residents = r.state.residents)
    (hpend : s.pendingSlots = r.state.pendingSlots + 1) :
    (r.setReservation i next s).usage = r.usage + 1 := by
  have hset : (r.setReservation i next s).loadedResidents = r.loadedResidents := by
    refine Finset.Subset.antisymm (loadedResidents_subset subset_rfl fun t ht => ?_)
      (loadedResidents_subset subset_rfl fun t ht => ?_)
    · refine ht.of_set (fun t ht => .inl (hres ▸ ht)) fun t ht => ?_
      rw [hnext] at ht
      exact absurd ht nofun
    · exact ht.set hold hn fun t ht => hres ▸ ht
  unfold usage
  rw [hset]
  change r.loadedResidents.card + s.pendingSlots = _
  rw [hpend, Nat.add_assoc]

/-- A step that makes a thread a loaded resident, if it does so at all. -/
theorem counts_insert {adds : Prop} (makes : Prop) (tid : ThreadId)
    (hmem : ∀ o, o ∈ r'.loadedResidents ↔ o ∈ r.loadedResidents ∨ o = tid ∧ makes)
    (hpend : r'.state.pendingSlots = r.state.pendingSlots)
    (hadds : adds ↔ makes ∧ tid ∉ r.loadedResidents) : Counts adds r r' := by
  unfold Counts usage
  rw [hadds, hpend]
  refine ⟨fun ⟨hmakes, hnew⟩ => ?_, fun hnot => ?_⟩
  · have hset : r'.loadedResidents = insert tid r.loadedResidents := by
      ext o
      rw [hmem, mem_insert, and_iff_left hmakes, or_comm]
    rw [hset, card_insert_of_notMem hnew, Nat.add_right_comm]
  · refine Nat.add_le_add_right (card_le_card fun o ho => ?_) _
    rcases (hmem o).mp ho with ho | ⟨rfl, hmakes⟩
    · exact ho
    · exact by_contra fun hnew => hnot ⟨hmakes, hnew⟩

theorem isResident_touch {o : ThreadId} :
    ({ r with state := r.state.touch tid } : V2Residency ThreadId).IsResident o ↔
      r.IsResident o ∨ o = tid := by
  unfold IsResident
  rw [show ({ r with state := r.state.touch tid } : V2Residency ThreadId).state.residents =
    touchResident r.state.residents tid from rfl, mem_touchResident]
  exact or_right_comm

theorem counts_touch :
    Counts (r.Adds capacity (.touch tid)) r { r with state := r.state.touch tid } := by
  refine counts_insert (tid ∈ r.loaded) tid (fun o => ?_) rfl ?_
  · rw [mem_loadedResidents, mem_loadedResidents, isResident_touch, and_or_left]
    exact or_congr_right (and_comm.trans (and_congr_right fun ho => by rw [ho]))
  · rw [mem_loadedResidents, not_and, Adds]
    exact and_congr_right fun hload => (imp_iff_right hload).symm

theorem counts_load :
    Counts (r.Adds capacity (.load tid)) r { r with loaded := insert tid r.loaded } := by
  refine counts_insert (r.IsResident tid) tid (fun o => ?_) rfl ?_
  · rw [mem_loadedResidents, mem_loadedResidents, mem_insert, or_comm, or_and_right]
    exact or_congr_right (and_congr_right fun ho => by rw [ho]; rfl)
  · rw [mem_loadedResidents, not_and', Adds, and_comm]
    exact and_congr_right fun hres => (imp_iff_right hres).symm

theorem usage_commit (h : Consistent r) (hslot : r.reservations[i]? = some .slot) :
    (r.setReservation i .spent (r.state.commitSlot tid)).usage ≤ r.usage := by
  have htouch := (@counts_touch ThreadId 0 r tid _).le_succ
  have hsub : (r.setReservation i .spent (r.state.commitSlot tid)).loadedResidents ⊆
      ({ r with state := r.state.touch tid } : V2Residency ThreadId).loadedResidents :=
    loadedResidents_subset subset_rfl fun t ht =>
      IsResident.of_set (fun t ht => .inl ht) (no_candidate rfl) ht
  have hcard := card_le_card hsub
  have hpos := h.pos_of_slot hslot
  unfold usage at htouch ⊢
  change _ + (r.state.pendingSlots - 1) ≤ _
  change _ + r.state.pendingSlots ≤ _ at htouch
  omega

/-- **What every step does**: it keeps the slots held, and the usage as it should. -/
theorem Consistent.step (h : Consistent r) (hs : step capacity r a = some r') :
    Consistent r' ∧ Counts (r.Adds capacity a) r r' := by
  -- A call that goes on without a candidate makes nobody resident.
  have hgoes {i : Nat} {new : Reservation ThreadId} (hnew : new.candidate? = none) (t : ThreadId)
      (ht : (r.setReservation i new r.state).IsResident t) : r.IsResident t :=
    ht.of_set (fun t ht => .inl ht) (no_candidate hnew)
  cases a with
  | reserveSlot p =>
    cases hs
    refine ⟨⟨h.pending.trans ?_, h.nodup⟩, .of_le (usage_le subset_rfl (fun t ht => ?_) le_rfl)⟩
    · rw [List.countP_append]
      rfl
    · unfold IsResident candidates at ht ⊢
      rw [List.filterMap_append] at ht
      simpa [Reservation.candidate?] using ht
  | advance i =>
    obtain ⟨old, hold, hnext⟩ := Option.bind_eq_some_iff.mp hs
    obtain ⟨⟨next, s⟩, hadv, hset⟩ := Option.bind_eq_some_iff.mp hnext
    cases hset
    obtain ⟨hslot, hn, ⟨rfl, rfl, hgrant⟩ | ⟨hnext, hpend, hperm, hden⟩⟩ := advance_cases hadv
    · exact ⟨h.set hold (by rw [hslot]; rfl) h.nodup,
        fun _ => usage_grant hold hn rfl rfl rfl,
        fun hnot => absurd ((grants_eq hold).trans hgrant) hnot⟩
    · refine ⟨h.set hold (by rw [hslot, hnext, hpend]) ?_, fun hadds => ?_, fun _ => ?_⟩
      · exact (List.nodup_append.mp (hperm.nodup_iff.mpr h.nodup)).2.1
      · exact absurd (((grants_eq hold).trans hden).symm.trans hadds) Bool.false_ne_true
      · refine usage_le subset_rfl (fun t ht => ht.of_set (fun t ht => .inl ?_)
          fun t ht => .inl ?_) hpend.le
        · exact hperm.subset (List.mem_append_right _ ht)
        · exact hperm.subset (List.mem_append_left _ (Option.mem_toList.mpr ht))
  | unload i out =>
    dsimp only [V2Residency.step, unload] at hs
    split at hs
    · next p left c hold =>
      cases out <;> cases hs
      · exact ⟨h.set hold rfl h.nodup, .of_le (usage_le subset_rfl (hgoes rfl) le_rfl)⟩
      · refine ⟨h.set hold rfl (nodup_touchResident h.nodup), .of_le (usage_le subset_rfl
          (fun t ht => ht.of_set (fun t ht => ?_) (no_candidate rfl)) le_rfl)⟩
        -- The candidate was resident all the time.
        rcases mem_touchResident.mp ht with ht | rfl
        · exact .inl ht
        · exact .inr (List.mem_filterMap.mpr ⟨_, List.mem_of_getElem? hold, rfl⟩)
      · have hset : Consistent (r.setReservation i (.trying p) r.state) := h.set hold rfl h.nodup
        exact ⟨⟨hset.pending, hset.nodup⟩,
          .of_le (usage_le (erase_subset _ _) (@hgoes i (.trying p) rfl) le_rfl)⟩
    · cases hs
  | commit i tid =>
    obtain ⟨hslot, rfl⟩ := exists_of_spend hs
    exact ⟨h.set hslot (Nat.sub_add_cancel (h.pos_of_slot hslot)) (nodup_touchResident h.nodup),
      .of_le (usage_commit h hslot)⟩
  | dropSlot i =>
    obtain ⟨hslot, rfl⟩ := exists_of_spend hs
    exact ⟨h.set hslot (Nat.sub_add_cancel (h.pos_of_slot hslot)) h.nodup,
      .of_le (usage_le subset_rfl (hgoes rfl) (Nat.sub_le _ _))⟩
  | touch tid =>
    cases hs
    exact ⟨⟨h.pending, nodup_touchResident h.nodup⟩, counts_touch⟩
  | remove tid =>
    cases hs
    refine ⟨⟨h.pending, h.nodup.filter _⟩, .of_le (usage_le subset_rfl
      (fun t ht => ht.imp_left fun hlst => ?_) le_rfl)⟩
    exact (List.mem_filter.mp hlst).1
  | load tid =>
    cases hs
    exact ⟨⟨h.pending, h.nodup⟩, counts_load⟩
  | discard tid =>
    cases hs
    exact ⟨⟨h.pending, h.nodup⟩, .of_le (usage_le (erase_subset _ _) (fun _ ht => ht) le_rfl)⟩

/-! ### Runs -/

/-- There are no more loaded residents and pending slots than the capacity, and each resident is
listed once. -/
structure Within (capacity : Nat) (r : V2Residency ThreadId) : Prop where
  usage : r.loadedResidents.card + r.state.pendingSlots ≤ capacity
  nodup : r.state.residents.Nodup

/-- A place that is taken is given to another: a slot is granted while a loaded candidate is out of
the list, or a thread becomes a loaded resident without a slot, and the count is full. -/
def GivesPlaceAway (capacity : Nat) (r : V2Residency ThreadId) (a : Action ThreadId) : Prop :=
  r.loadedResidents.card + r.state.pendingSlots = capacity ∧
    match a with
    | .advance i => r.grants capacity i ∧
      ∃ tid ∈ r.candidates, tid ∈ r.loaded ∧ tid ∉ r.state.residents
    | .touch tid => tid ∈ r.loaded ∧ ¬ r.IsResident tid
    | .load tid => tid ∉ r.loaded ∧ r.IsResident tid
    | _ => False

instance : DecidablePred (GivesPlaceAway capacity r)
  | .advance _ | .touch _ | .load _ => inferInstanceAs (Decidable (_ ∧ _ ∧ _))
  | .reserveSlot _ | .unload _ _ | .commit _ _ | .dropSlot _ | .remove _ | .discard _ =>
    inferInstanceAs (Decidable (_ ∧ False))

/-- The check of the source is enough while the list names every loaded resident. -/
theorem usage_lt_of_grants (hgrant : r.grants capacity i)
    (hlisted : ∀ tid ∈ r.candidates, tid ∈ r.loaded → tid ∈ r.state.residents) :
    r.usage < capacity := by
  have hroom : r.state.residents.length + r.state.pendingSlots < capacity := by
    unfold grants at hgrant
    cases hold : r.reservations[i]? with
    | none => simp [hold] at hgrant
    | some old =>
      rw [hold, Option.any_some] at hgrant
      unfold Reservation.isGranted tryReservePendingSlot at hgrant
      split at hgrant
      · split_ifs at hgrant with hfull
        exact not_le.mp hfull
      · cases hgrant
  have hsub : r.loadedResidents ⊆ r.state.residents.toFinset := by
    intro tid htid
    obtain ⟨hload, hlist | hcan⟩ := mem_loadedResidents.mp htid
    · exact List.mem_toFinset.mpr hlist
    · exact List.mem_toFinset.mpr (hlisted tid hcan hload)
  have hcard := (card_le_card hsub).trans r.state.residents.toFinset_card_le
  unfold usage
  omega

/-- Within the capacity, an addition finds room unless it is given a place that is taken. -/
theorem usage_lt_iff (hwit : Within capacity r) (hadds : r.Adds capacity a) :
    r.usage < capacity ↔ ¬ GivesPlaceAway capacity r a := by
  have husage := hwit.usage
  constructor
  · exact fun hlt haway => hlt.ne haway.1
  · intro hkept
    refine lt_of_le_of_ne husage fun hfull => ?_
    cases a with
    | advance i =>
      refine (usage_lt_of_grants hadds fun tid hcan hload => ?_).ne hfull
      exact by_contra fun hout => hkept ⟨hfull, hadds, tid, hcan, hload, hout⟩
    | touch tid | load tid => exact hkept ⟨hfull, hadds⟩
    | _ => exact hadds

theorem not_givesPlaceAway (hadds : ¬ r.Adds capacity a) : ¬ GivesPlaceAway capacity r a := by
  rintro ⟨-, haway⟩
  cases a with
  | advance i => exact hadds haway.1
  | touch tid | load tid => exact hadds haway
  | _ => exact haway

theorem within_step_iff (h : Consistent r) (hwit : Within capacity r)
    (hs : step capacity r a = some r') : Within capacity r' ↔ ¬ GivesPlaceAway capacity r a := by
  obtain ⟨hnext, hadd, hkept⟩ := h.step hs
  have hwithin : Within capacity r' ↔ r'.usage ≤ capacity :=
    ⟨Within.usage, fun husage => ⟨husage, hnext.nodup⟩⟩
  by_cases hadds : r.Adds capacity a
  · rw [hwithin, hadd hadds, ← usage_lt_iff hwit hadds]
    rfl
  · exact iff_of_true (hwithin.mpr ((hkept hadds).trans hwit.usage)) (not_givesPlaceAway hadds)

/-- **The capacity is kept along a run exactly if no slot is granted at full count while a loaded
candidate is out of the list, and no thread becomes a loaded resident at full count by a touch or
by its start.** -/
theorem residency_within_capacity_iff (capacity : Nat) (actions : List (Action ThreadId))
    (hrun : run (step capacity) empty actions = some r') :
    Machine.Throughout (step capacity) (Within capacity) empty actions ↔
      Machine.Along (step capacity) (fun r a => ¬ GivesPlaceAway capacity r a) empty actions :=
  throughout_iff_along
    (fun _ _ _ (h : Consistent _) _ hs _ => (h.step hs).1)
    (fun _ _ _ h hwit hs => within_step_iff h hwit hs) actions Consistent.empty
    ⟨Nat.zero_le _, List.nodup_nil⟩ hrun

def evict : List (Action Nat) :=
  [.reserveSlot none, .advance 0, .load 7, .commit 0 7, .reserveSlot none, .advance 1, .advance 1,
    .advance 1, .unload 1 .unloaded, .advance 1, .load 8, .commit 1 8]

theorem evict_within_capacity :
    (run (step 1) empty evict).isSome ∧ Machine.Throughout (step 1) (Within 1) empty evict := by
  refine ⟨by decide, ?_⟩
  obtain ⟨r', hrun⟩ := Option.isSome_iff_exists.mp
    (show (run (step 1) empty evict).isSome by decide)
  exact (residency_within_capacity_iff 1 evict hrun).mpr (by decide)

/-- **In every run the counter of pending slots is the number of reservations whose slot is not
spent, and no thread is listed twice.** -/
theorem pending_slots_held (capacity : Nat) (actions : List (Action ThreadId))
    (hrun : run (step capacity) empty actions = some r') :
    r'.state.pendingSlots = r'.reservations.countP Reservation.isSlot ∧
      r'.state.residents.Nodup := by
  obtain ⟨hpend, hnd⟩ : Consistent r' :=
    run_keeps Consistent (fun _ _ _ h hs => (h.step hs).1) actions .empty hrun
  exact ⟨hpend, hnd⟩

theorem evict_pending_slots_held : ∃ r, run (step 1) empty evict = some r ∧
    r.state.pendingSlots = r.reservations.countP Reservation.isSlot ∧ r.state.residents.Nodup := by
  obtain ⟨r, hrun⟩ := Option.isSome_iff_exists.mp
    (show (run (step 1) empty evict).isSome by decide)
  exact ⟨r, hrun, pending_slots_held 1 evict hrun⟩

/-- The only resident is busy.  While one reservation has it out to unload it, another one gets
its place, and then it is put back. -/
def placeGivenAway : List (Action Nat) :=
  [.reserveSlot none, .advance 0, .load 7, .commit 0 7, .reserveSlot none, .reserveSlot none,
    .advance 1, .advance 1, .advance 1, .advance 2, .unload 1 .failed]

/-- With room for one agent, one is listed and loaded while a slot is pending. -/
theorem placeGivenAway_exceeds_capacity :
    ∃ r, run (step 1) empty placeGivenAway = some r ∧ r.state.residents = [7] ∧
      r.loaded = {7} ∧ r.state.pendingSlots = 1 ∧
      r.loadedResidents.card + r.state.pendingSlots = 2 :=
  ⟨_, rfl, rfl, rfl, rfl, rfl⟩

end V2Residency

end SushiGpt.Core.Residency
