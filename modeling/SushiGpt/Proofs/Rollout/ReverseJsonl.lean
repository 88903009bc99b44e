/-
Reading a JSONL file from its end gives its records in reverse.

A scanner stands for the bytes it has not read and for the bytes behind them that belong to one
record.  A record that is too long is no outcome, so that it need not be told apart from one that
is discarded.
-/
import Mathlib.Data.List.TakeWhile
import SushiGpt.Rollout.ReverseJsonl

namespace SushiGpt.Rollout

open List ReverseJsonlScanner

variable {E T : Type} {decode : List UInt8 → Except E T} {limit : Option Nat}
  {file r f u : List UInt8}

/-- What a record is reported as, when it is reported. -/
def outcome (decode : List UInt8 → Except E T) (limit : Option Nat) (record : List UInt8) :
    Option (ScanOutcome E T) :=
  if limit.any (· < record.length) then none
  else if record.all isAsciiWhitespace then none
  else some (.ofResult (decode record))

/-- The outcomes of the records of some bytes, from the last one. -/
def outcomes (decode : List UInt8 → Except E T) (limit : Option Nat) (bytes : List UInt8) :
    List (ScanOutcome E T) :=
  (bytes.splitOn newline).reverse.filterMap (outcome decode limit)

theorem outcomes_of_not_mem (h : newline ∉ r) :
    outcomes decode limit r = (outcome decode limit r).toList := by
  rw [outcomes, splitOn_eq_singleton h]
  cases ho : outcome decode limit r <;> simp [ho]

theorem outcomes_newline (h : newline ∉ r) :
    outcomes decode limit (u ++ newline :: r) =
      (outcome decode limit r).toList ++ outcomes decode limit u := by
  rw [outcomes, splitOn_append_cons_self, splitOn_eq_singleton h]
  cases ho : outcome decode limit r <;> simp [ho, outcomes]

namespace ReverseJsonlScanner

variable {s : ReverseJsonlScanner}

def unread (file : List UInt8) (s : ReverseJsonlScanner) : List UInt8 :=
  file.take s.nextChunkEnd ++ s.chunk

def left (s : ReverseJsonlScanner) : Nat := s.nextChunkEnd + s.chunk.length

/-- The scanner has read `record` of the record that it is in. -/
structure Within (limit : Option Nat) (record : List UInt8) (s : ReverseJsonlScanner) : Prop where
  bound : s.maxRecordBytes = limit
  plain : newline ∉ record
  discarding : s.discardingOversizedRecord = limit.any (· < record.length)
  reversed : s.recordReversed = if limit.any (· < record.length) then [] else record.reverse

theorem Within.extend (h : Within limit r s) (hf : newline ∉ f) :
    Within limit (f ++ r) (s.extend f.reverse) := by
  obtain ⟨rfl, hr, hd, hrev⟩ := h
  have hplain : newline ∉ f ++ r := by simp [hf, hr]
  unfold ReverseJsonlScanner.extend
  by_cases hlen : s.maxRecordBytes.any (· < r.length) = true
  · have hlong : s.maxRecordBytes.any (· < (f ++ r).length) = true := by
      cases hm : s.maxRecordBytes with
      | none => simp [hm] at hlen
      | some n =>
        simp only [hm, Option.any_some, length_append, decide_eq_true_eq] at hlen ⊢
        omega
    rw [hlen] at hd hrev
    rw [if_pos hd]
    exact ⟨rfl, hplain, by rw [hd, hlong], by rw [hrev, hlong]; rfl⟩
  · rw [Bool.not_eq_true] at hlen
    rw [hlen] at hd hrev
    have hsum : s.recordReversed.length + f.reverse.length = (f ++ r).length := by
      simp [hrev, Nat.add_comm]
    rw [if_neg (by simp [hd]), hsum]
    split_ifs with hover
    · exact ⟨rfl, hplain, hover.symm, by rw [hover]; rfl⟩
    · rw [Bool.not_eq_true] at hover
      exact ⟨rfl, hplain, by rw [hd, hover], by rw [hover]; simp [hrev]⟩

/-- The scanner is at the start of a record. -/
theorem Within.endRecord (h : Within limit r s) :
    ∃ s', s.endRecord decode = (outcome decode limit r, s') ∧ Within limit [] s' ∧
      s'.unread file = s.unread file ∧ s'.left = s.left := by
  have hnil : limit.any (· < ([] : List UInt8).length) = false := by cases limit <;> rfl
  have hrev := h.reversed
  have hd := h.discarding
  unfold ReverseJsonlScanner.endRecord outcome
  by_cases hlen : limit.any (· < r.length) = true
  · rw [hlen] at hrev hd
    rw [if_pos hd, if_pos hlen]
    exact ⟨_, rfl, ⟨h.bound, not_mem_nil, hnil.symm, by rw [hnil]; exact hrev⟩, rfl, rfl⟩
  · rw [Bool.not_eq_true] at hlen
    rw [hlen] at hrev hd
    rw [if_neg (by simp [hd]), if_neg (by simp [hlen])]
    refine ⟨{ s with recordReversed := [] }, ?_, ⟨h.bound, not_mem_nil, hd.trans hnil.symm, ?_⟩,
      rfl, rfl⟩
    · simp [finishRecord, hrev]
    · rw [hnil]
      rfl

theorem unread_readChunk : (s.readChunk file).unread file = file.take s.nextChunkEnd := by
  unfold readChunk unread
  rw [← take_add, Nat.sub_add_cancel (Nat.min_le_left _ _)]

@[simp] theorem nextChunkEnd_extend : (s.extend f).nextChunkEnd = s.nextChunkEnd := by
  unfold extend
  split_ifs <;> rfl

/-- Up to a newline, or up to the start of the chunk. -/
theorem consume_spec (file : List UInt8) (h : Within limit r s) :
    ∃ f s' ended, s.consume = (s', ended) ∧ Within limit (f ++ r) s' ∧
      s.unread file = s'.unread file ++ (if ended then newline :: f else f) ∧
      s'.nextChunkEnd = s.nextChunkEnd ∧ s'.chunk.length ≤ s.chunk.length - 1 := by
  have hne {l : List UInt8} (hl : newline ∉ l) : ∀ x ∈ l, (x != newline) = true := by
    intro x hx
    simpa using ne_of_mem_of_not_mem hx hl
  unfold consume
  rw [span_eq_takeWhile_dropWhile]
  by_cases hmem : newline ∈ s.chunk.reverse
  · obtain ⟨f, b, hsp, hf⟩ := eq_append_cons_of_mem hmem
    have hc : s.chunk = b.reverse ++ newline :: f.reverse := by
      rw [← reverse_reverse s.chunk, hsp]
      simp
    have hext := @Within.extend limit r f.reverse s h (by simpa using hf)
    rw [reverse_reverse] at hext
    simp only [hsp, takeWhile_append_of_pos (hne hf), dropWhile_append_of_pos (hne hf),
      takeWhile_cons, dropWhile_cons, bne_self_eq_false, Bool.false_eq_true, if_false, append_nil]
    exact ⟨f.reverse, _, true, rfl, { hext with }, by simp [unread, hc], by simp, by simp [hc]⟩
  · have hext := h.extend (f := s.chunk) (by simpa using hmem)
    rw [takeWhile_eq_self_iff.mpr (hne hmem), dropWhile_eq_nil_iff.mpr (hne hmem)]
    exact ⟨s.chunk, _, false, rfl, { hext with }, by simp [unread], by simp, by simp⟩

/-- One pass of the loop, with a new chunk when the last one is used up. -/
theorem pass_spec (file : List UInt8) (h : Within limit r s)
    (hleft : ¬ (s.chunk = [] ∧ s.nextChunkEnd = 0)) :
    ∃ f s' ended, (if s.chunk = [] then s.readChunk file else s).consume = (s', ended) ∧
      Within limit (f ++ r) s' ∧ s'.left < s.left ∧
      s.unread file = s'.unread file ++ (if ended then newline :: f else f) := by
  by_cases hc : s.chunk = []
  · have hread : Within limit r (s.readChunk file) := { h with }
    obtain ⟨f, s', ended, heq, hin, hun, hend, hlen⟩ := consume_spec file hread
    refine ⟨f, s', ended, by rw [if_pos hc, heq], hin, ?_, ?_⟩
    · have hpos : 0 < s.nextChunkEnd := Nat.pos_of_ne_zero fun h0 => hleft ⟨hc, h0⟩
      simp only [readChunk, length_take, readChunkSize] at hend hlen
      simp only [left, hc, length_nil]
      omega
    · rw [← hun, unread_readChunk, unread, hc, append_nil]
  · obtain ⟨f, s', ended, heq, hin, hun, hend, hlen⟩ := consume_spec file h
    refine ⟨f, s', ended, by rw [if_neg hc, heq], hin, ?_, hun⟩
    have := length_pos_iff.mpr hc
    simp only [left]
    omega

/-- **A scan returns the first of the outcomes that are left, and leaves the others.** -/
theorem scan_spec (fuel : Nat) (h : Within limit r s) (hfuel : s.left < fuel) :
    ∃ r' s', s.scan decode file fuel =
        ((outcomes decode limit (s.unread file ++ r)).head?, s') ∧
      Within limit r' s' ∧ outcomes decode limit (s'.unread file ++ r') =
        (outcomes decode limit (s.unread file ++ r)).tail := by
  induction fuel generalizing s r with
  | zero => exact absurd hfuel (Nat.not_lt_zero _)
  | succ fuel ih =>
    unfold scan
    by_cases hend : s.chunk = [] ∧ s.nextChunkEnd = 0
    · -- What is left is one record, the first of the file.
      obtain ⟨s', heq, hin, hun, -⟩ := @Within.endRecord _ _ decode _ file _ _ h
      have hnil : s.unread file = [] := by simp [unread, hend]
      rw [if_pos hend, heq, hnil, nil_append, outcomes_of_not_mem h.plain]
      refine ⟨[], s', ?_, hin, ?_⟩
      · cases outcome decode limit r <;> rfl
      · rw [hun, hnil, append_nil, outcomes_of_not_mem not_mem_nil]
        cases limit <;> cases outcome decode _ r <;> rfl
    · rw [if_neg hend]
      obtain ⟨f, s', ended, heq, hin, hlt, hun⟩ := pass_spec file h hend
      rw [heq, hun]
      cases ended with
      | false => simpa using ih hin (by omega)
      | true =>
        obtain ⟨x, hrec, hst, hunx, hleft⟩ := @Within.endRecord _ _ decode _ file _ _ hin
        simp only [if_true, append_assoc, cons_append, outcomes_newline hin.plain, hrec]
        rw [← hunx]
        cases outcome decode limit (f ++ r) with
        | none => simpa using ih hst (by omega)
        | some o => exact ⟨[], x, rfl, hst, by simp⟩

/-- One call after another. -/
theorem scans_spec (n : Nat) (h : Within limit r s) :
    (scanNext ((fun s : ReverseJsonlScanner => (s.scanNext decode file).2)^[n] s) decode file).1 =
      (outcomes decode limit (s.unread file ++ r))[n]? := by
  induction n generalizing s r with
  | zero =>
    obtain ⟨r', s', heq, -⟩ := @scan_spec _ _ decode _ file _ _ (s.left + 1) h (Nat.lt_succ_self _)
    rw [← head?_eq_getElem?]
    exact congrArg Prod.fst heq
  | succ n ih =>
    obtain ⟨r', s', heq, h', hrest⟩ :=
      @scan_spec _ _ decode _ file _ _ (s.left + 1) h (Nat.lt_succ_self _)
    have hs : (s.scanNext decode file).2 = s' := congrArg Prod.snd heq
    rw [Function.iterate_succ_apply, hs, ih h', hrest, getElem?_tail]

end ReverseJsonlScanner

/-- **Scanning from an offset returns the outcome of every record before it that is not blank
and not too long, from the last one to the first, and then nothing.** -/
theorem reverse_scan_exact (decode : List UInt8 → Except E T) (file : List UInt8)
    (endByteOffset : Nat) (limit : Option Nat) :
    (file.length < endByteOffset ∧ newAt file endByteOffset =
      .error "reverse JSONL scan end is past the file".toList) ∨
    ∃ scanner, newAt file endByteOffset = .ok scanner ∧ ∀ n,
      (scanNext ((fun s => (s.scanNext decode file).2)^[n]
        (limit.elim scanner scanner.withMaxRecordBytes)) decode file).1 =
      (outcomes decode limit (file.take endByteOffset))[n]? := by
  by_cases hlen : file.length < endByteOffset
  · exact .inl ⟨hlen, if_pos hlen⟩
  refine .inr ⟨_, if_neg hlen, fun n => ?_⟩
  have h : Within limit [] ⟨endByteOffset, [], [], limit, false⟩ := by
    refine ⟨rfl, not_mem_nil, ?_, ?_⟩ <;> cases limit <;> rfl
  have hrun := @scans_spec _ _ decode _ file _ _ n h
  rw [unread, append_nil, append_nil] at hrun
  cases limit <;> exact hrun

end SushiGpt.Rollout
