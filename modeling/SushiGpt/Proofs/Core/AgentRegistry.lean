/-
Spawn accounting.

The counter is the number of reservations and agents, the two maps are inverse, and what is
reserved in the tree belongs to a reservation.  A commit can replace an agent, which nobody
counts down, or leave the reserved path behind; a run in which no operation does so is exact.
-/
import SushiGpt.Core.AgentRegistry
import SushiGpt.Lib.Machine

namespace SushiGpt.Core.Spawning

open OrderedMap AgentRegistry AgentMetadata Function Option

variable {ThreadId : Type} {display : ThreadId → Text} {s : Spawning ThreadId}
  {limit : Option Nat} {tree : OrderedMap Text (AgentMetadata ThreadId)} {key : Text}
  {md : AgentMetadata ThreadId} {t : ThreadId}

/-- What stands at a path: nothing, a reservation or an agent. -/
def slot (tree : OrderedMap Text (AgentMetadata ThreadId)) (key : Text) :
    Option (Option ThreadId) :=
  (tree.get? key).map agentId

def Held (reservations : List SpawnReservation) (key : Text) : Prop :=
  ∃ path : AgentPath, ⟨some path⟩ ∈ reservations ∧ path.value = key

/-- The accounts; `limit` is what slots are reserved within, if there is one. -/
structure Exact (limit : Option Nat) (s : Spawning ThreadId) : Prop where
  count : s.registry.totalCount = s.reservations.length + s.registry.liveAgents.length
  inverse : ∀ threadId key, s.registry.threadPaths threadId = some key ↔
    slot s.registry.agentTree key = some (some threadId)
  reserved : ∀ key, slot s.registry.agentTree key = some none → Held s.reservations key
  /-- The root's place is the one that is not counted. -/
  root : ∀ key metadata, s.registry.agentTree.get? key = some metadata →
    (metadata.isCounted = true ↔ key ≠ AgentPath.root.value)
  within : ∀ n ∈ limit, s.registry.totalCount ≤ n

/-- The condition under which an operation keeps the accounts. -/
def Meets (display : ThreadId → Text) (limit : Option Nat) (s : Spawning ThreadId) :
    Action ThreadId → Prop
  | .reserveSpawnSlot maxThreads => ∀ n ∈ limit, ∃ m ∈ maxThreads, m ≤ n
  | .reserveAgentPath index path =>
    s.registry.agentTree.get? path.value = none → s.reservations[index]? = some ⟨none⟩
  -- The agent is new and not the root, and nothing else was reserved for it.
  | .commit index metadata => ∃ threadId, metadata.agentId = some threadId ∧
    metadata.isCounted = true ∧ s.registry.threadPaths threadId = none ∧
    (∀ other, slot s.registry.agentTree (metadata.key display threadId) ≠ some (some other)) ∧
    ∀ path : AgentPath, s.reservations[index]? = some ⟨some path⟩ →
      path.value = metadata.key display threadId
  | .registerRootThread threadId => s.registry.agentTree.get? AgentPath.root.value = none →
    s.registry.threadPaths threadId = none
  | _ => True

/-! ### One place of the tree changes -/

def isLive (metadata : AgentMetadata ThreadId) : Bool :=
  metadata.agentId.isSome && metadata.isCounted

theorem length_liveAgents (reg : AgentRegistry ThreadId) : reg.liveAgents.length =
    reg.agentTree.entries.countP fun e => isLive e.2 := by
  rw [liveAgents, ← List.countP_eq_length_filter, List.countP_map]
  rfl

theorem isCounted_iff (md : AgentMetadata ThreadId) (t : ThreadId) :
    md.isCounted = true ↔ md.key display t ≠ AgentPath.root.value := by
  obtain ⟨id, _ | ⟨p⟩, n, ro⟩ := md
  · simp [isCounted, key, AgentPath.root]
  · simp [isCounted, key, AgentPath.root, AgentPath.ext_iff]

theorem any_isLive (hpl : ∀ t, slot tree key ≠ some (some t)) :
    (tree.get? key).any isLive = false := by
  cases hget : tree.get? key with
  | none => rfl
  | some md => cases hid : md.agentId <;> simp_all [slot, isLive]

namespace Exact

variable {ps : ThreadId → Option Text} {ns : List Text} {total : Nat}
  {reservations : List SpawnReservation}

/-- `new` comes to stand at a path, and the threads, the counter and the reservations follow. -/
theorem change (key : Text) (new : Option (AgentMetadata ThreadId)) (h : Exact limit s)
    (hget : ∀ key', tree.get? key' =
      if key' = key then new else s.registry.agentTree.get? key')
    (hlive : (tree.entries.countP fun e => isLive e.2) +
        ((s.registry.agentTree.get? key).any isLive).toNat =
      (s.registry.agentTree.entries.countP fun e => isLive e.2) + (new.any isLive).toNat)
    (hr : ∀ md ∈ new, md.isCounted = true ↔ key ≠ AgentPath.root.value)
    (htot : total ≤ s.registry.totalCount)
    (hc : total + s.reservations.length + ((s.registry.agentTree.get? key).any isLive).toNat =
      s.registry.totalCount + reservations.length + (new.any isLive).toNat)
    (hpaths : ∀ t key', ps t = some key' ↔
      if key' = key then new.map agentId = some (some t)
      else s.registry.threadPaths t = some key')
    (hheld : new.map agentId = some none → Held reservations key)
    (hoth : ∀ key', key' ≠ key → Held s.reservations key' → Held reservations key') :
    Exact limit ⟨⟨tree, ps, ns, total⟩, reservations⟩ where
  count := by
    have hold := h.count
    rw [length_liveAgents] at hold ⊢
    simp only
    omega
  inverse t key' := by
    rw [hpaths, slot, hget, h.inverse]
    split_ifs <;> rfl
  reserved key' hres := by
    rw [slot, hget] at hres
    split_ifs at hres with heq
    · exact heq ▸ hheld hres
    · exact hoth key' heq (h.reserved key' hres)
  root key' md' hmd := by
    rw [hget] at hmd
    split_ifs at hmd with heq
    · rw [heq, hr md' hmd]
    · exact h.root key' md' hmd
  within n hn := htot.trans (h.within n hn)

end Exact

/-! ### Operations -/

section Operations

variable {i : Nat} {p : AgentPath} {r : SpawnReservation}

theorem held_iff {reservations : List SpawnReservation} (hidx : reservations[i]? = some r) :
    Held reservations key ↔ r.reservedAgentPath.map AgentPath.value = some key ∨
      Held (reservations.eraseIdx i) key := by
  obtain ⟨hlt, rfl⟩ := List.getElem?_eq_some_iff.mp hidx
  have hmem : ∀ p, (⟨some p⟩ : SpawnReservation) ∈ reservations ↔
      ⟨some p⟩ = reservations[i] ∨ ⟨some p⟩ ∈ reservations.eraseIdx i :=
    fun p => (List.getElem_cons_eraseIdx_perm hlt).mem_iff.symm.trans List.mem_cons
  simp only [Held, hmem, or_and_right, exists_or, map_eq_some_iff]
  refine or_congr_left (exists_congr fun p => and_congr_left fun _ => ?_)
  rw [eq_comm, SpawnReservation.ext_iff]

variable (h : Exact limit s)

include h

theorem Exact.reserveAgentPath (hidx : s.reservations[i]? = some ⟨none⟩)
    (hvac : s.registry.agentTree.get? p.value = none) :
    Exact limit ⟨{ s.registry with
        agentTree := s.registry.agentTree.insert p.value ⟨none, some p, none, none⟩ },
      s.reservations.set i ⟨some p⟩⟩ := by
  obtain ⟨hlt, -⟩ := List.getElem?_eq_some_iff.mp hidx
  have hset : (s.reservations.set i ⟨some p⟩)[i]? = some ⟨some p⟩ := by
    simp [hlt]
  refine h.change p.value (some _) (by simp [get?_insert]) (countP_insert ..)
    (by simp [isCounted, AgentPath.ext_iff]) le_rfl ?_ ?_ ?_ ?_
  · simp [isLive, hvac]
  · intro t key
    rw [h.inverse]
    split_ifs with heq
    · simp [heq, slot, hvac]
    · rfl
  · intro _
    exact (held_iff hset).mpr (.inl rfl)
  · intro key _ hheld
    rw [held_iff hset, List.eraseIdx_set_eq]
    exact .inr (((held_iff hidx).mp hheld).resolve_left nofun)

theorem Exact.reserveSpawnSlot (hroom : ∀ n ∈ limit, s.registry.totalCount < n) :
    Exact limit ⟨{ s.registry with totalCount := s.registry.totalCount + 1 },
      s.reservations ++ [⟨none⟩]⟩ := by
  refine ⟨?_, h.inverse, fun key hres => ?_, h.root, hroom⟩
  · have hc := h.count
    rw [length_liveAgents] at hc ⊢
    simp only [List.length_append, List.length_singleton]
    omega
  · obtain ⟨p, hmem, hkey⟩ := h.reserved key hres
    exact ⟨p, List.mem_append_left _ hmem, hkey⟩

theorem Exact.releaseReservedAgentPath (p : AgentPath) :
    Exact limit ⟨s.registry.releaseReservedAgentPath p, s.reservations⟩ ∧
      slot (s.registry.releaseReservedAgentPath p).agentTree p.value ≠ some none := by
  have hslot : (s.registry.agentTree.get? p.value).any (fun md =>
      md.agentId.isNone) = true ↔ slot s.registry.agentTree p.value = some none := by
    cases hget : s.registry.agentTree.get? p.value <;> simp [slot, hget]
  unfold AgentRegistry.releaseReservedAgentPath
  split_ifs with hany
  · have hres := hslot.mp hany
    refine ⟨h.change p.value none (by simp [get?_erase]) (countP_erase ..) nofun le_rfl ?_
      (fun t key => ?_) nofun fun _ _ hheld => hheld, by simp [slot, get?_erase]⟩
    · simp [any_isLive, hres]
    · rw [h.inverse]
      split_ifs with heq
      · simp [heq, hres]
      · rfl
  · exact ⟨h, mt hslot.mpr hany⟩

theorem Exact.drop (hidx : s.reservations[i]? = some r)
    (hno : ∀ p, r.reservedAgentPath = some p → slot s.registry.agentTree p.value ≠ some none) :
    Exact limit ⟨{ s.registry with totalCount := s.registry.totalCount - 1 },
      s.reservations.eraseIdx i⟩ := by
  obtain ⟨hlt, -⟩ := List.getElem?_eq_some_iff.mp hidx
  refine ⟨?_, h.inverse, fun key hres => ?_, h.root,
    fun n hn => (Nat.sub_le _ _).trans (h.within n hn)⟩
  · have hc := h.count
    rw [length_liveAgents] at hc ⊢
    simp only [List.length_eraseIdx_of_lt hlt]
    omega
  · refine ((held_iff hidx).mp (h.reserved key hres)).resolve_left fun hkey => ?_
    obtain ⟨p, hp, rfl⟩ := map_eq_some_iff.mp hkey
    exact hno p hp hres

variable [DecidableEq ThreadId]

theorem Exact.releaseSpawnedThread :
    Exact limit ⟨s.registry.releaseSpawnedThread t, s.reservations⟩ := by
  unfold AgentRegistry.releaseSpawnedThread
  split
  · exact h
  · next p hp =>
    obtain ⟨md, hget, hid⟩ := map_eq_some_iff.mp ((h.inverse t p).mp hp)
    refine h.change p none (by simp [get?_erase]) (countP_erase ..) nofun ?_ ?_ (fun t' key => ?_)
      nofun fun _ _ hheld => hheld
    · split_ifs
      · exact Nat.sub_le _ _
      · exact le_rfl
    · have hlive := s.registry.agentTree.countP_erase p fun e => isLive e.2
      have hc := h.count
      rw [length_liveAgents] at hc
      simp only [hget, any_some, any_none, isLive, hid, isSome_some, Bool.true_and,
        Bool.toNat_false] at *
      split_ifs with hcoun
      · rw [hcoun, Bool.toNat_true] at hlive ⊢
        omega
      · rw [Bool.not_eq_true] at hcoun
        rw [hcoun, Bool.toNat_false]
    · have hp' := h.inverse t' p
      grind [h.inverse t p]

theorem Exact.registerRootThread
    (hnew : s.registry.agentTree.get? AgentPath.root.value = none →
      s.registry.threadPaths t = none) :
    Exact limit ⟨s.registry.registerRootThread t, s.reservations⟩ := by
  unfold AgentRegistry.registerRootThread
  split
  · next md hget =>
    split
    · next rti hid =>
      rw [update_eq_self_iff.mpr]
      · exact h
      · rw [eq_comm, h.inverse, slot, hget, map_some, hid]
    · exact h
  · next hvac =>
    have hslot : slot s.registry.agentTree AgentPath.root.value = none := by simp [slot, hvac]
    refine h.change _ (some _) (by simp [get?_insert]) (countP_insert ..) (by simp [isCounted])
      le_rfl ?_ ?_ nofun fun _ _ hheld => hheld
    · simp [isLive, isCounted, hvac]
    · intro t' key
      have hinv := h.inverse t' key
      grind

theorem Exact.commit (hidx : s.reservations[i]? = some r)
    (hmeets : Meets display limit s (.commit i md)) :
    Exact limit ⟨s.registry.registerSpawnedThread display md, s.reservations.eraseIdx i⟩ := by
  obtain ⟨t, hid, hcoun, hnew, hpl, hp⟩ := hmeets
  obtain ⟨hlt, -⟩ := List.getElem?_eq_some_iff.mp hidx
  have hagent : (s.registry.agentTree.get? (md.key display t)).bind agentId = none := by
    cases hget : s.registry.agentTree.get? (md.key display t) with
    | none => rfl
    | some old => cases hold : old.agentId <;> simp_all [slot]
  simp only [registerSpawnedThread, hid, hnew, hagent]
  refine h.change _ (some md) (by simp [get?_insert]) (countP_insert ..)
    (by simpa using isCounted_iff md t) le_rfl ?_ (fun t' key => ?_) ?_ ?_
  · rw [List.length_eraseIdx_of_lt hlt, any_isLive hpl]
    simp only [any_some, isLive, hid, hcoun, isSome_some, Bool.and_self, Bool.toNat_true,
      Bool.toNat_false]
    omega
  · have hinv := h.inverse t' key
    grind
  · simp [hid]
  · intro key hne hheld
    refine ((held_iff hidx).mp hheld).resolve_left fun hkey => ?_
    obtain ⟨p, hres, rfl⟩ := map_eq_some_iff.mp hkey
    exact hne (hp p (hidx.trans (congrArg some (SpawnReservation.ext hres))))

/-- **An operation that meets the condition keeps the accounts.** -/
theorem Exact.step {s' : Spawning ThreadId} {a : Action ThreadId}
    (hmeets : Meets display limit s a) (hs : s.step display a = some s') : Exact limit s' := by
  cases a with
  | reserveSpawnSlot maxThreads =>
    cases maxThreads with
    | none =>
      cases hs
      exact h.reserveSpawnSlot fun n hn => absurd (hmeets n hn) nofun
    | some m =>
      simp only [Spawning.step, AgentRegistry.reserveSpawnSlot, tryIncrementSpawned] at hs
      split_ifs at hs with hfull
      · cases hs
        exact h
      · cases hs
        refine h.reserveSpawnSlot fun n hn => ?_
        obtain ⟨_, ⟨⟩, hle⟩ := hmeets n hn
        exact (Nat.lt_of_not_le hfull).trans_le hle
  | reserveAgentPath i p =>
    simp only [Spawning.step, AgentRegistry.reserveAgentPath] at hs
    split_ifs at hs
    cases hget : s.registry.agentTree.get? p.value <;> rw [hget] at hs <;> cases hs
    · exact h.reserveAgentPath (hmeets hget) hget
    · exact h
  | commit i md =>
    simp only [Spawning.step] at hs
    split_ifs at hs with hlt
    cases hs
    exact h.commit (List.getElem?_eq_getElem hlt) hmeets
  | drop i =>
    simp only [Spawning.step] at hs
    split at hs
    · cases hs
    · next r hidx =>
      cases hs
      split
      · next p hp =>
        obtain ⟨hrel, hslot⟩ := h.releaseReservedAgentPath p
        refine hrel.drop hidx fun o ho => ?_
        rw [hp] at ho
        exact some.inj ho ▸ hslot
      · next hp =>
        exact h.drop hidx fun p hsome => absurd (hp.symm.trans hsome) nofun
  | registerRootThread t =>
    cases hs
    exact h.registerRootThread hmeets
  | releaseSpawnedThread t =>
    cases hs
    exact h.releaseSpawnedThread

end Operations

/-! ### Runs -/

variable [DecidableEq ThreadId]

/-- **Every run whose operations meet the condition keeps the accounts.** -/
theorem spawn_accounting (display : ThreadId → Text) (limit : Option Nat)
    (actions : List (Action ThreadId))
    (h : Machine.Along (step display) (Meets display limit) new actions) :
    Machine.Throughout (step display) (Exact limit) new actions := by
  refine Machine.throughout_of_along (fun _ _ _ h => h.step) actions ?_ h
  refine ⟨rfl, fun _ _ => ?_, nofun, nofun, fun n _ => Nat.zero_le n⟩
  simp [new, AgentRegistry.new, slot, get?_empty]

def agent (threadId : Nat) (path : Text) : AgentMetadata Nat :=
  ⟨some threadId, some ⟨path⟩, none, none⟩

theorem spawned_within_limit :
    Machine.Throughout (step fun _ => []) (Exact (some 1) : Spawning Nat → Prop) new
      [.reserveSpawnSlot (some 1), .commit 0 (agent 7 "/root/a".toList),
        .releaseSpawnedThread 7] := by
  refine spawn_accounting _ _ _ ⟨fun n hn => ⟨1, rfl, by cases hn; rfl⟩, ?_⟩
  rintro next ⟨⟩
  refine ⟨⟨7, rfl, by decide, rfl, nofun, nofun⟩, ?_⟩
  rintro next ⟨⟩
  exact ⟨trivial, fun _ _ => trivial⟩

/-- An agent that is resumed at another path is registered once and counted twice, and its slot
is never given back. -/
theorem resumed_agent_counted_twice : ∃ s, Machine.run (step fun _ => []) new
    [.reserveSpawnSlot (some 2), .commit 0 (agent 7 "/root/a".toList),
      .reserveSpawnSlot (some 2), .commit 0 (agent 7 "/root/b".toList)] = some s ∧
    s.registry.liveAgents = [agent 7 "/root/b".toList] ∧ s.reservations = [] ∧
    s.registry.totalCount = 2 ∧
    (s.registry.releaseSpawnedThread 7).liveAgents = [] ∧
    (s.registry.releaseSpawnedThread 7).totalCount = 1 :=
  ⟨_, rfl, by decide +kernel, rfl, rfl, by decide +kernel, by decide +kernel⟩

end SushiGpt.Core.Spawning
