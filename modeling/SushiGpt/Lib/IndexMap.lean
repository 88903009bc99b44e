/-
Maps in the order of their insertion.

The entries are a list with distinct keys.  Inserting under a key that is present keeps its
place and replaces its value, so of the values inserted under one key the last one stays: that
is `get?_insertAll`, and everything about rebuilt maps goes through it.
-/
import Mathlib.Data.List.Nodup

namespace SushiGpt.IndexMap

open List Ne

variable {κ α : Type*} [DecidableEq κ]

def get? (entries : List (κ × α)) (key : κ) : Option α :=
  (entries.find? fun entry => entry.1 = key).map Prod.snd

def insert (key : κ) (value : α) : List (κ × α) → List (κ × α)
  | [] => [(key, value)]
  | entry :: rest =>
    if entry.1 = key then (key, value) :: rest else entry :: insert key value rest

def remove (key : κ) (entries : List (κ × α)) : List (κ × α) :=
  entries.filter fun entry => entry.1 ≠ key

def insertAll (base entries : List (κ × α)) : List (κ × α) :=
  entries.foldl (fun merged entry => insert entry.1 entry.2 merged) base

/-- The map rebuilt with other keys. -/
def rekey (rename : κ → κ) (entries : List (κ × α)) : List (κ × α) :=
  insertAll [] (entries.map fun entry => (rename entry.1, entry.2))

variable {key key' : κ} {v : α} {b es : List (κ × α)} {rename : κ → κ}

/-! ### Lists of values that carry their keys -/

section Keyed

variable (f : α → κ) {a : α} {l : List α}

/-- Replaces the first value with the same key, or else appends. -/
def put (a : α) : List α → List α
  | [] => [a]
  | x :: rest => if f x = f a then a :: rest else x :: put a rest

variable {f}

theorem put_append_of_not_mem {r : List α} (h : f a ∉ l.map f) :
    put f a (l ++ r) = l ++ put f a r := by
  induction l with
  | nil => rfl
  | cons x rest ih =>
    rw [map_cons, mem_cons, not_or] at h
    rw [cons_append, put, if_neg (symm h.1), ih h.2, cons_append]

theorem put_of_not_mem (h : f a ∉ l.map f) : put f a l = l ++ [a] := by
  nth_rewrite 1 [← append_nil l]
  exact put_append_of_not_mem h

theorem keys_put_of_mem (h : f a ∈ l.map f) : (put f a l).map f = l.map f := by
  induction l with
  | nil => exact absurd h not_mem_nil
  | cons x r ih =>
    unfold put
    split_ifs with hkey
    · rw [map_cons, map_cons, hkey]
    · rw [map_cons, map_cons, ih]
      exact (mem_cons.mp h).resolve_left (symm hkey)

theorem nodup_put (h : (l.map f).Nodup) : ((put f a l).map f).Nodup := by
  by_cases hmem : f a ∈ l.map f
  · rwa [keys_put_of_mem hmem]
  · rw [put_of_not_mem hmem, map_append]
    exact List.Nodup.append h (nodup_singleton _) (by simpa using hmem)

theorem put_ne_nil : put f a l ≠ [] := by
  cases l with
  | nil => exact cons_ne_nil _ _
  | cons x r =>
    unfold put
    split_ifs <;> exact cons_ne_nil _ _

theorem put_eq [BEq κ] [LawfulBEq κ] : put f a l =
    match l.findIdx? fun x => f x == f a with
    | some i => l.set i a
    | none => l ++ [a] := by
  induction l with
  | nil => rfl
  | cons x r ih =>
    rw [put, findIdx?_cons]
    by_cases hkey : f x = f a
    · simp [hkey]
    · rw [if_neg hkey, ih, if_neg (by simpa using hkey)]
      cases r.findIdx? fun x => f x == f a <;> rfl

/-- A last value with the same key, of distinct ones, is replaced. -/
theorem put_dropLast {last : α} (hl : l.getLast? = some last) (hkey : f last = f a)
    (hnd : (l.map f).Nodup) : put f a l = l.dropLast ++ [a] := by
  obtain ⟨front, rfl⟩ := getLast?_eq_some_iff.mp hl
  rw [dropLast_concat]
  have hnot : f a ∉ front.map f := by
    rw [map_append, map_singleton, hkey] at hnd
    exact fun hmem => disjoint_of_nodup_append hnd hmem (mem_singleton_self _)
  rw [put_append_of_not_mem hnot]
  exact congrArg _ (if_pos hkey)

theorem put_congr {κ' : Type*} [DecidableEq κ'] {g : α → κ'}
    (h : ∀ x, f x = f a ↔ g x = g a) : put f a l = put g a l := by
  induction l with
  | nil => rfl
  | cons x r ih =>
    unfold put
    by_cases hx : f x = f a
    · rw [if_pos hx, if_pos ((h x).mp hx)]
    · rw [if_neg hx, if_neg fun hg => hx ((h x).mpr hg), ih]

/-- A map whose keys are those of its values, read as a list. -/
theorem map_snd_insert {es : List (κ × α)} (h : ∀ e ∈ es, e.1 = f e.2) :
    (insert (f a) a es).map Prod.snd = put f a (es.map Prod.snd) := by
  induction es with
  | nil => rfl
  | cons first r ih =>
    have hrest := ih fun e he => h e (mem_cons_of_mem _ he)
    rw [insert, map_cons, put, h first (mem_cons_self ..)]
    split_ifs
    · rfl
    · rw [map_cons, hrest]

end Keyed

/-! ### Inserting -/

theorem insert_eq_put : insert key v es = put Prod.fst (key, v) es := by
  induction es with
  | nil => rfl
  | cons first r ih => rw [insert, put, ih]

theorem mem_insert {e : κ × α} (h : e ∈ insert key v es) : e = (key, v) ∨ e ∈ es := by
  induction es with
  | nil => exact .inl (mem_singleton.mp h)
  | cons first r ih =>
    unfold insert at h
    split_ifs at h
    · exact (mem_cons.mp h).imp_right (mem_cons_of_mem _)
    · rcases mem_cons.mp h with rfl | h
      · exact .inr (mem_cons_self ..)
      · exact (ih h).imp_right (mem_cons_of_mem _)

theorem mem_insertAll {e : κ × α} (h : e ∈ insertAll b es) : e ∈ es ∨ e ∈ b := by
  induction es generalizing b with
  | nil => exact .inr h
  | cons first r ih =>
    rcases ih h with h | h
    · exact .inl (mem_cons_of_mem _ h)
    · rcases mem_insert h with rfl | h
      · exact .inl (mem_cons_self ..)
      · exact .inr h

theorem mem_rekey {e : κ × α} (h : e ∈ rekey rename es) : ∃ s ∈ es, e = (rename s.1, s.2) := by
  obtain ⟨s, hsrc, rfl⟩ := mem_map.mp ((mem_insertAll h).resolve_right nofun)
  exact ⟨s, hsrc, rfl⟩

theorem insert_of_not_mem (h : key ∉ es.map Prod.fst) : insert key v es = es ++ [(key, v)] :=
  insert_eq_put.trans (put_of_not_mem h)

theorem nodup_insert (h : (es.map Prod.fst).Nodup) : ((insert key v es).map Prod.fst).Nodup := by
  rw [insert_eq_put]
  exact nodup_put h

theorem nodup_insertAll (h : (b.map Prod.fst).Nodup) : ((insertAll b es).map Prod.fst).Nodup := by
  induction es generalizing b with
  | nil => exact h
  | cons first r ih => exact ih (nodup_insert h)

theorem nodup_rekey : ((rekey rename es).map Prod.fst).Nodup :=
  nodup_insertAll nodup_nil

theorem insertAll_of_disjoint (hnd : (es.map Prod.fst).Nodup) (h : ∀ e ∈ es, e.1 ∉ b.map Prod.fst) :
    insertAll b es = b ++ es := by
  induction es generalizing b with
  | nil => exact (append_nil b).symm
  | cons first r ih =>
    obtain ⟨hfst, hrest⟩ := nodup_cons.mp hnd
    have hs : insertAll b (first :: r) = insertAll (insert first.1 first.2 b) r := rfl
    rw [hs, insert_of_not_mem (h first (mem_cons_self ..)), ih hrest, append_assoc,
      singleton_append]
    intro e he
    rw [map_append, mem_append, not_or]
    refine ⟨h e (mem_cons_of_mem _ he), ?_⟩
    rintro hsame
    exact hfst (mem_singleton.mp hsame ▸ mem_map_of_mem he)

/-! ### Lookups -/

theorem get?_insert :
    get? (insert key v es) key' = if key = key' then some v else get? es key' := by
  induction es with
  | nil => simp only [insert, get?, find?_cons, find?_nil]; split_ifs <;> simp_all
  | cons first r ih =>
    unfold get? at ih ⊢
    unfold insert
    by_cases hfst : first.1 = key
    · rw [if_pos hfst, find?_cons, find?_cons, hfst]
      by_cases hsame : key = key' <;> simp [hsame]
    · rw [if_neg hfst, find?_cons, find?_cons]
      by_cases hkey : first.1 = key'
      · simp [hkey, show key ≠ key' from fun h => hfst (hkey.trans h.symm)]
      · simp only [hkey, decide_false, ih]

theorem get?_isSome : (get? es key).isSome ↔ key ∈ es.map Prod.fst := by
  simp [get?, find?_isSome]

theorem get?_filter (p : κ → Bool) (es : List (κ × α)) (key : κ) :
    get? (es.filter fun e => p e.1) key = if p key then get? es key else none := by
  unfold get?
  rw [find?_filter]
  by_cases hp : p key
  · rw [if_pos hp]
    congr 2
    funext e
    by_cases hkey : e.1 = key <;> simp [hkey, hp]
  · rw [if_neg hp, find?_eq_none.mpr, Option.map_none]
    intro e _ he
    obtain ⟨hkept, hkey⟩ := by simpa using he
    exact hp (hkey ▸ hkept)

/-- Of the values inserted under a key the last one is found. -/
theorem get?_insertAll : get? (insertAll b es) key = (get? es.reverse key).or (get? b key) := by
  induction es generalizing b with
  | nil => rfl
  | cons first r ih =>
    have hs : insertAll b (first :: r) = insertAll (insert first.1 first.2 b) r := rfl
    rw [hs, ih, get?_insert]
    unfold get?
    rw [reverse_cons, find?_append, find?_singleton]
    cases r.reverse.find? fun e => e.1 = key with
    | some e => rfl
    | none => by_cases hkey : first.1 = key <;> simp [hkey]

theorem get?_eq_some_iff (hnd : (es.map Prod.fst).Nodup) :
    get? es key = some v ↔ (key, v) ∈ es := by
  unfold get?
  constructor
  · intro h
    obtain ⟨⟨found, k⟩, hfind, rfl⟩ := Option.map_eq_some_iff.mp h
    obtain rfl : found = key := by simpa using find?_some hfind
    exact mem_of_find?_eq_some hfind
  · intro h
    cases hfind : es.find? fun e => e.1 = key with
    | none => simpa using find?_eq_none.mp hfind _ h
    | some e =>
      have hkey : e.1 = key := by simpa using find?_some hfind
      rw [inj_on_of_nodup_map hnd (mem_of_find?_eq_some hfind) h hkey]
      rfl

/-- What a rebuilt map holds: for each new key, the last entry that was given it. -/
theorem mem_rekey_iff :
    (key, v) ∈ rekey rename es ↔
      ∃ s, es.reverse.find? (fun e => rename e.1 = key) = some (s, v) := by
  rw [← get?_eq_some_iff nodup_rekey, rekey, get?_insertAll, ← map_reverse]
  have hn : get? ([] : List (κ × α)) key = none := rfl
  rw [hn, Option.or_none]
  unfold get?
  rw [find?_map, Option.map_map, Option.map_eq_some_iff]
  constructor
  · rintro ⟨⟨s, k⟩, hfind, rfl⟩
    exact ⟨s, hfind⟩
  · rintro ⟨s, hfind⟩
    exact ⟨(s, v), hfind, rfl⟩

/-! ### Parts of a map -/

theorem insert_cons {first : κ × α} {r : List (κ × α)} :
    insert key v (first :: r) =
      if first.1 = key then (key, v) :: r else first :: insert key v r := rfl

theorem filter_insert (p : κ → Bool) (key : κ) (v : α) (es : List (κ × α)) :
    (insert key v es).filter (fun e => p e.1) =
      if p key then insert key v (es.filter fun e => p e.1)
      else es.filter fun e => p e.1 := by
  induction es with
  | nil => by_cases hp : p key <;> simp [insert, hp]
  | cons first r ih =>
    rw [insert_cons]
    by_cases hkey : first.1 = key
    · subst hkey
      by_cases hp : p first.1 <;> simp [hp, insert_cons]
    · rw [if_neg hkey, filter_cons, filter_cons, ih]
      by_cases hfst : p first.1 <;> by_cases hp : p key <;>
        simp [hfst, hp, insert_cons, hkey]

/-! ### Inserting keyed values one after the other -/

section

variable {β : Type*} {f : β → κ} {w : β → α} {l : List β} {a : β} {x : α}

theorem insert_insert : insert key v (insert key x es) = insert key v es := by
  induction es with
  | nil => simp [insert]
  | cons e es ih => by_cases h : e.1 = key <;> simp [insert_cons, h, ih]

theorem insert_comm (hmem : key ∈ es.map Prod.fst) (hne : key ≠ key') :
    insert key v (insert key' x es) = insert key' x (insert key v es) := by
  induction es with
  | nil => cases hmem
  | cons e es ih =>
    by_cases h : e.1 = key
    · simp [insert_cons, h, hne]
    · have hmem := (mem_cons.mp hmem).resolve_left (Ne.symm h)
      by_cases h' : e.1 = key' <;> simp [insert_cons, h, h', ih hmem, hne.symm]

theorem mem_keys_insert : key' ∈ (insert key v es).map Prod.fst ↔
    key' = key ∨ key' ∈ es.map Prod.fst := by
  induction es with
  | nil => simp [insert]
  | cons e es ih => by_cases h : e.1 = key <;> simp_all [insert_cons, or_left_comm]

theorem foldl_insert_comm (hnot : key ∉ l.map f) (hmem : key ∈ es.map Prod.fst) :
    insert key v (l.foldl (fun m b => insert (f b) (w b) m) es) =
      l.foldl (fun m b => insert (f b) (w b) m) (insert key v es) := by
  induction l generalizing es with
  | nil => rfl
  | cons b l ih =>
    rw [map_cons, mem_cons, not_or] at hnot
    rw [foldl_cons, foldl_cons, ih hnot.2 (mem_keys_insert.mpr (.inr hmem)),
      insert_comm hmem hnot.1]

/-- A value put among the others is as good as inserted after them. -/
theorem foldl_insert_put (hnd : (l.map f).Nodup) :
    (put f a l).foldl (fun m b => insert (f b) (w b) m) es =
      insert (f a) (w a) (l.foldl (fun m b => insert (f b) (w b) m) es) := by
  induction l generalizing es with
  | nil => rfl
  | cons b l ih =>
    obtain ⟨hb, hnd⟩ := nodup_cons.mp hnd
    unfold put
    split_ifs with h
    · rw [foldl_cons, foldl_cons, foldl_insert_comm (h ▸ hb) (mem_keys_insert.mpr (.inl h.symm)), h,
        insert_insert]
    · rw [foldl_cons, ih hnd, foldl_cons]

theorem filter_foldl_insert (p : κ → Bool) :
    (l.foldl (fun m b => insert (f b) (w b) m) es).filter (fun e => p e.1) =
      (l.filter fun b => p (f b)).foldl (fun m b => insert (f b) (w b) m)
        (es.filter fun e => p e.1) := by
  induction l generalizing es with
  | nil => rfl
  | cons b l ih =>
    rw [foldl_cons, ih, filter_insert, filter_cons]
    split_ifs <;> rfl

end

/-! ### Mapped values -/

section

variable {β : Type*}

theorem insert_map (f : α → β) (key : κ) (v : α) (es : List (κ × α)) :
    insert key (f v) (es.map (Prod.map id f)) = (insert key v es).map (Prod.map id f) := by
  induction es with
  | nil => rfl
  | cons first r ih =>
    simp only [insert, map_cons, Prod.map_fst, id_eq]
    split_ifs
    · rfl
    · rw [ih, map_cons]

theorem insertAll_map (f : α → β) (b es : List (κ × α)) :
    insertAll (b.map (Prod.map id f)) (es.map (Prod.map id f)) =
      (insertAll b es).map (Prod.map id f) := by
  induction es generalizing b with
  | nil => rfl
  | cons first r ih =>
    have hs (b : List (κ × α)) : insertAll b (first :: r) =
        insertAll (insert first.1 first.2 b) r := rfl
    rw [hs, ← ih, ← insert_map]
    rfl

/-- Renaming the keys and mapping the values commute. -/
theorem rekey_map (f : α → β) (rename : κ → κ) (es : List (κ × α)) :
    rekey rename (es.map (Prod.map id f)) = (rekey rename es).map (Prod.map id f) := by
  rw [rekey, rekey, ← insertAll_map, map_map, map_map]
  rfl

end

end SushiGpt.IndexMap
