/-
Effective paths.

Following links could make two directories one of which contains the other the same
directory: `/t -> /` does.  `normalize_effective_absolute_path` keeps the spelling of
every path with a link below the top level, so that this cannot happen except at the root
itself: of two paths on one branch of the tree only one has a given effective path
(`normalizeEffective_chain`).  The roots of a policy rely on it, since they look for the
spelling of a writable root that a read-only path lies below.
-/
import SushiGpt.Paths.Host

namespace SushiGpt.Host

open List

/-- How a POSIX file system resolves paths. -/
structure FollowsLinks (host : Host) : Prop where
  root : host.canonicalize [] = some []
  /-- What cannot be resolved has nothing below it that can. -/
  parent : ∀ dir name real, host.canonicalize (dir ++ [name]) = some real →
    (host.canonicalize dir).isSome
  /-- A name is looked up in the directory its parent resolves to. -/
  child : ∀ dir name real, host.canonicalize dir = some real →
    host.symlinkMetadata (dir ++ [name]) = host.symlinkMetadata (real ++ [name])
  /-- A name that is no link is appended. -/
  step : ∀ dir name real target, host.canonicalize dir = some real →
    host.isSymlink (dir ++ [name]) = false → host.canonicalize (dir ++ [name]) = some target →
      target = real ++ [name]
  /-- A resolved path goes through no link. -/
  resolved : ∀ path real, host.canonicalize path = some real →
    ∀ ancestor, ancestor <+: real → host.isSymlink ancestor = false

variable {host : Host}

theorem mem_ancestors {a p : AbsolutePath} : a ∈ ancestors p ↔ a <+: p := by
  rw [ancestors, mem_reverse, mem_inits]

theorem ancestors_concat (p : AbsolutePath) (n : FileName) :
    ancestors (p ++ [n]) = (p ++ [n]) :: ancestors p := by
  simp [ancestors, inits_append]

/-- A search through the ancestors finds the deepest one. -/
theorem deepest_of_find? {p : AbsolutePath → Bool} : ∀ (path : AbsolutePath) {a : AbsolutePath},
    (ancestors path).find? p = some a → ∀ b, b <+: path → p b = true → b <+: a := by
  intro path
  induction path using List.reverseRecOn with
  | nil =>
    intro a _ b hb _
    rw [prefix_nil.1 hb]
    exact List.nil_prefix
  | append_singleton path n ih =>
    intro a hfind b hb hp
    rw [ancestors_concat, find?_cons] at hfind
    cases hl : p (path ++ [n]) with
    | true =>
      rw [hl] at hfind
      obtain rfl := Option.some.inj hfind
      exact hb
    | false =>
      rw [hl] at hfind
      rcases prefix_concat_iff.1 hb with rfl | hb
      · rw [hl] at hp
        cases hp
      · exact ih hfind b hb hp

/-- Below the top level the path goes through no link. -/
def NoNestedLink (host : Host) (path : AbsolutePath) : Prop :=
  ∀ a, a <+: path → 2 ≤ a.length → host.isSymlink a = false

theorem shouldPreserveLogicalPath_eq_false {p : AbsolutePath} :
    host.shouldPreserveLogicalPath p = false ↔ NoNestedLink host p := by
  simp only [shouldPreserveLogicalPath, any_eq_false, mem_ancestors, NoNestedLink,
    Bool.and_eq_true, decide_eq_true_eq, not_and]
  constructor
  · intro h a ha hlen
    by_contra hlink
    exact h a ha (by simpa using hlink) hlen
  · intro h a ha hlink hlen
    rw [h a ha hlen] at hlink
    cases hlink

/-- Without nested links only the top level is resolved. -/
theorem canonicalize_top (h : host.FollowsLinks) {top : FileName} :
    ∀ (rest : List FileName) {r : AbsolutePath}, NoNestedLink host (top :: rest) →
      host.canonicalize (top :: rest) = some r →
      ∃ rt, host.canonicalize [top] = some rt ∧ r = rt ++ rest := by
  intro rest
  induction rest using List.reverseRecOn with
  | nil =>
    intro r _ hreal
    exact ⟨r, hreal, (append_nil r).symm⟩
  | append_singleton rest n ih =>
    intro r hln hreal
    rw [← cons_append] at hln hreal
    obtain ⟨above, habove⟩ := Option.isSome_iff_exists.1 (h.parent _ _ _ hreal)
    obtain ⟨rt, htop, rfl⟩ := ih (fun a ha hlen => hln a (ha.trans (prefix_append _ _)) hlen) habove
    have hl := hln _ (prefix_refl _) (by simp)
    refine ⟨rt, htop, ?_⟩
    rw [h.step _ _ _ _ habove hl hreal, append_assoc]

/-- An effective path is the path itself, or has its top level resolved. -/
theorem normalizeEffective_cases (h : host.FollowsLinks) (p : AbsolutePath) :
    host.normalizeEffectiveAbsolutePath p = p ∨
      ∃ top r rt, p = top :: r ∧ host.isSymlink [top] = true ∧
        host.canonicalize [top] = some rt ∧ NoNestedLink host p ∧
        host.normalizeEffectiveAbsolutePath p = rt ++ r := by
  unfold normalizeEffectiveAbsolutePath
  cases hfind : (ancestors p).find? fun a => (host.symlinkMetadata a).isSome with
  | none => exact .inl rfl
  | some a =>
    have ha : a <+: p := mem_ancestors.1 (mem_of_find?_eq_some hfind)
    obtain ⟨m, rfl⟩ := ha
    have hdrop : (a ++ m).drop a.length = m := drop_left
    dsimp only
    rw [hdrop]
    unfold canonicalizePreservingSymlinks
    cases hreal : host.canonicalize a with
    | none => exact .inl rfl
    | some real =>
      dsimp only
      split
      · exact .inl rfl
      · rename_i hkeep
        by_cases hsame : real = a
        · rw [hsame]
          exact .inl rfl
        · -- The path is spelled anew: no link below the top level, so one at the top.
          have hnes : NoNestedLink host a := by
            rw [← shouldPreserveLogicalPath_eq_false]
            simpa [hsame] using hkeep
          cases a with
          | nil =>
            rw [h.root] at hreal
            exact absurd (Option.some.inj hreal).symm hsame
          | cons top r =>
            obtain ⟨rt, htop, rfl⟩ := canonicalize_top h r hnes hreal
            right
            refine ⟨top, r ++ m, rt, rfl, ?_, htop, ?_, ?_⟩
            · by_contra hlink
              rw [Bool.not_eq_true] at hlink
              have hsameTop := h.step [] top [] rt h.root hlink htop
              exact hsame (by rw [hsameTop]; rfl)
            · intro b hb hlen
              by_contra hlink
              -- A link exists, so it is not below the deepest ancestor that does.
              have hexis : (host.symlinkMetadata b).isSome = true := by
                unfold isSymlink at hlink
                cases hb' : host.symlinkMetadata b with
                | none => simp [hb'] at hlink
                | some md => rfl
              exact hlink (hnes b (deepest_of_find? _ hfind b hb hexis) hlen)
            · rw [append_assoc]

theorem head_ne_of_link (h : host.FollowsLinks) {top : FileName} {p r : AbsolutePath}
    (hlink : host.isSymlink [top] = true) (hreal : host.canonicalize p = some r) :
    r.head? ≠ some top := by
  intro hhead
  have hpre : [top] <+: r := by
    cases r with
    | nil => cases hhead
    | cons first rest =>
      obtain rfl := Option.some.inj hhead
      exact ⟨rest, rfl⟩
  rw [h.resolved _ _ hreal _ hpre] at hlink
  cases hlink

/-- **On one branch of the tree an effective path below the root has one spelling.** -/
theorem normalizeEffective_chain (h : host.FollowsLinks) {a b : AbsolutePath} (hab : a <+: b)
    (heq : host.normalizeEffectiveAbsolutePath a = host.normalizeEffectiveAbsolutePath b)
    (hne : host.normalizeEffectiveAbsolutePath a ≠ []) : a = b := by
  rcases normalizeEffective_cases h a with ha | ⟨top, ra, rt, rfl, hlink, htop, -, ha⟩
  · rcases normalizeEffective_cases h b with hb | ⟨top, rb, rt, rfl, hlink, htop, hnes, hb⟩
    · rw [← ha, heq, hb]
    · -- `a` is spelled as the resolved form of `b`, so it starts with the link too.
      rw [ha] at hne
      cases a with
      | nil => exact absurd rfl hne
      | cons first ra =>
        obtain ⟨rfl, -⟩ := cons_prefix_cons.1 hab
        rw [ha, hb] at heq
        cases rt with
        | nil =>
          -- The link leads to the root, where it is found again.
          have hagain := h.child [first] first [] htop
          have hnot := hnes [first, first] (by
            rw [nil_append] at heq
            exact ⟨ra, by rw [← heq]; rfl⟩) (by simp)
          unfold isSymlink at hnot hlink
          rw [singleton_append, nil_append] at hagain
          rw [hagain, hlink] at hnot
          cases hnot
        | cons rf r =>
          refine absurd ?_ (head_ne_of_link h hlink htop)
          rw [head?_cons, (List.cons.inj heq).1]
  · obtain ⟨m, rfl⟩ := hab
    rw [cons_append] at heq ⊢
    rcases normalizeEffective_cases h (top :: (ra ++ m)) with
      hb | ⟨top', rb, rt', hsp, -, htop', -, hb⟩
    · rw [ha, hb] at heq
      cases rt with
      | nil =>
        have hlen := congrArg List.length heq
        simp only [nil_append, length_cons, length_append] at hlen
        omega
      | cons rf r =>
        refine absurd ?_ (head_ne_of_link h hlink htop)
        rw [head?_cons, (List.cons.inj heq).1]
    · obtain ⟨rfl, rfl⟩ := List.cons.inj hsp
      obtain rfl := Option.some.inj (htop.symm.trans htop')
      rw [ha, hb] at heq
      rw [← append_cancel_left heq]

def empty : Host where
  env := ⟨none, none⟩
  tmpdir := none
  symlinkMetadata path := if path = [] then some ⟨.dir, 0⟩ else none
  metadata path := if path = [] then some ⟨.dir, 0⟩ else none
  canonicalize path := if path = [] then some [] else none
  readToString _ := none
  readDir path := if path = [] then some [] else none

theorem empty_followsLinks : empty.FollowsLinks where
  root := rfl
  parent dir name real h := by simp [empty] at h
  child dir name real h := by
    simp only [empty, Option.ite_none_right_eq_some, Option.some.injEq] at h
    obtain ⟨rfl, rfl⟩ := h
    rfl
  step dir name real target _ _ h := by simp [empty] at h
  resolved path real h := by
    simp only [empty, Option.ite_none_right_eq_some, Option.some.injEq] at h
    obtain ⟨-, rfl⟩ := h
    intro a ha
    rw [prefix_nil.1 ha]
    rfl

end SushiGpt.Host
