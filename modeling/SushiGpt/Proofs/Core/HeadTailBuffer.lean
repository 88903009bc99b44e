/-
A bounded buffer is the summary of all the bytes it was given.

`summary` says what a buffer holds after a string: its first bytes, its last ones, and how many
stand between them.  Every operation takes summaries to the summary of a longer string, although
the strings themselves are gone.  The count of omitted bytes stops at `usize::MAX`.
-/
import Mathlib.Data.List.DropRight
import SushiGpt.Core.HeadTailBuffer

namespace SushiGpt.Core.HeadTailBuffer

open List

section Last

variable (s t : List UInt8) (n : Nat)

theorem length_rtake : (s.rtake n).length = min n s.length := by
  rw [rtake, length_drop]
  omega

/-- The last bytes of a string are those of its parts' last ones. -/
theorem rtake_rtake_append : (s.rtake n ++ t).rtake n = (s ++ t).rtake n := by
  simp only [rtake_eq_reverse_take_reverse, reverse_append, reverse_reverse,
    take_append, take_take, Nat.min_eq_left (Nat.sub_le ..)]

theorem rtake_append_rtake : (s ++ t.rtake n).rtake n = (s ++ t).rtake n := by
  have hroom : n - min n t.reverse.length = n - t.reverse.length := by omega
  simp only [rtake_eq_reverse_take_reverse, reverse_append, reverse_reverse,
    take_append, take_take, length_take, Nat.min_self, hroom]

end Last

theorem budgets (mb : UInt64) : headBudget mb + tailBudget mb = mb.toNat := by
  unfold tailBudget headBudget
  omega

variable {mb : UInt64} {b : HeadTailBuffer}

/-! ### The tail -/

/-- `n` more bytes, counted and gone. -/
def omitting (b : HeadTailBuffer) (n : Nat) : HeadTailBuffer :=
  { b with omittedBytes := saturatingAdd b.omittedBytes n }

section

variable (hb : b.tail.length ≤ tailBudget mb)

include hb

theorem pushTail_eq (c : List UInt8) :
    b.pushTail mb c =
      { b with
        tail := (b.tail ++ c).rtake (tailBudget mb)
        omittedBytes := saturatingAdd b.omittedBytes ((b.tail ++ c).length - tailBudget mb) } := by
  have hexc : c.length - (tailBudget mb - b.tail.length) =
      (b.tail ++ c).length - tailBudget mb := by
    rw [length_append]
    omega
  simp only [pushTail, hexc, rtake, drop_append]
  split
  · rename_i hold
    rw [Nat.sub_eq_zero_of_le hold.le, drop_zero]
  · rename_i hn
    rw [drop_of_length_le (Nat.le_of_not_lt hn), nil_append]

theorem pushTail_bounded (c : List UInt8) : (b.pushTail mb c).tail.length ≤ tailBudget mb := by
  rw [pushTail_eq hb, length_rtake]
  exact Nat.min_le_left ..

theorem pushTail_pushTail (c d : List UInt8) :
    (b.pushTail mb c).pushTail mb d = b.pushTail mb (c ++ d) := by
  rw [pushTail_eq (pushTail_bounded hb c), pushTail_eq hb, pushTail_eq hb]
  simp only [rtake_rtake_append, append_assoc, length_append, length_rtake,
    saturatingAdd, mk.injEq, true_and]
  omega

/-- Bytes that are sure to be displaced need only be counted. -/
theorem pushTail_rtake (c d : List UInt8) :
    (b.omitting (min (d.length - tailBudget mb) usizeMax)).pushTail mb
        (c ++ d.rtake (tailBudget mb)) = b.pushTail mb (c ++ d) := by
  rw [pushTail_eq hb, pushTail_eq (by exact hb)]
  simp only [omitting, ← append_assoc, rtake_append_rtake, length_append, length_rtake,
    saturatingAdd, mk.injEq, true_and]
  omega

end

/-! ### Chunks -/

theorem fillHead_eq (c : List UInt8) :
    b.fillHead mb c =
      ({ b with head := b.head ++ c.take (headBudget mb - b.head.length) },
        c.drop (headBudget mb - b.head.length)) := by
  by_cases hlong : headBudget mb - b.head.length ≤ c.length
  · simp [fillHead, hlong]
  · have hshort := Nat.le_of_not_le hlong
    simp [fillHead, hlong, take_of_length_le hshort, drop_of_length_le hshort]

theorem pushChunk_eq (c : List UInt8) :
    b.pushChunk mb c =
      { b with head := b.head ++ c.take (headBudget mb - b.head.length) }.pushTail
        mb (c.drop (headBudget mb - b.head.length)) := by
  rw [pushChunk, fillHead_eq]

variable (mb) in
def summary (s : List UInt8) : HeadTailBuffer :=
  pushTail mb { head := s.take (headBudget mb) } (s.drop (headBudget mb))

theorem summary_tail (s : List UInt8) : (summary mb s).tail =
    (s.drop (headBudget mb)).rtake (tailBudget mb) := by
  rfl

theorem summary_omittedBytes (s : List UInt8) : (summary mb s).omittedBytes =
    min ((s.drop (headBudget mb)).length - tailBudget mb) usizeMax := by
  rw [summary, pushTail_eq (Nat.zero_le _)]
  simp [saturatingAdd]

/-- **A chunk continues the string.** -/
theorem pushChunk_summary (s c : List UInt8) :
    (summary mb s).pushChunk mb c = summary mb (s ++ c) := by
  have hroom : headBudget mb - (s.take (headBudget mb)).length = headBudget mb - s.length := by
    rw [length_take]
    omega
  rw [pushChunk_eq, summary, summary, take_append, drop_append, ← pushTail_pushTail (Nat.zero_le _)]
  simp only [pushTail, hroom]

theorem foldl_pushChunk (s : List UInt8) (cs : List (List UInt8)) :
    cs.foldl (pushChunk mb) (summary mb s) = summary mb (s ++ cs.flatten) := by
  induction cs generalizing s with
  | nil => simp
  | cons c cs ih =>
    rw [foldl_cons, pushChunk_summary, ih, flatten_cons, append_assoc]

theorem pushed_eq (cs : List (List UInt8)) :
    cs.foldl (pushChunk mb) {} = summary mb cs.flatten := by
  have hnil : summary mb [] = {} := by simp [summary, pushTail, saturatingAdd]
  rw [← hnil, foldl_pushChunk, nil_append]

/-! ### Buffers -/

/-- The two ways in which a tail is taken over are those of appending it. -/
theorem pushTail_takeover (hb : b.tail.length ≤ tailBudget mb) (o : List UInt8)
    {tail : List UInt8} (htail : tail.length ≤ tailBudget mb) (split : Nat) :
    (if tail.length = tailBudget mb then
      { b with
        omittedBytes :=
          saturatingAdd (saturatingAdd b.omittedBytes b.tail.length) o.length
        tail := tail }
    else if (b.pushTail mb o).tail.isEmpty then
      { b.pushTail mb o with tail := tail }
    else ((b.pushTail mb o).pushTail mb (tail.take split)).pushTail mb
      (tail.drop split)) = (b.pushTail mb o).pushTail mb tail := by
  split_ifs with hfull hem
  · have hl : (b.tail ++ (o ++ tail)).rtake (tailBudget mb) = tail := by
      rw [← append_assoc, rtake, ← hfull, length_append, Nat.add_sub_cancel, drop_left]
    rw [pushTail_pushTail hb, pushTail_eq hb, hl]
    simp only [saturatingAdd, length_append, mk.injEq, true_and]
    omega
  · have hc : (b.pushTail mb o).omittedBytes ≤ usizeMax := Nat.min_le_right ..
    rw [pushTail.eq_def _ (b.pushTail mb o), isEmpty_iff.mp hem]
    simp [Nat.sub_eq_zero_of_le htail, saturatingAdd, hc]
  · rw [pushTail_pushTail (pushTail_bounded hb _), take_append_drop]

/-- A later buffer is its head, its tail and a number of bytes between them. -/
theorem pushBuffer_eq {buf : HeadTailBuffer} (split : Nat) (hb : b.tail.length ≤ tailBudget mb)
    (hhead : buf.head.length ≤ headBudget mb) (htail : buf.tail.length ≤ tailBudget mb) :
    b.pushBuffer mb split buf =
      ((b.omitting buf.omittedBytes).pushChunk mb buf.head).pushTail mb buf.tail := by
  rw [pushChunk_eq, pushBuffer, ← pushTail_takeover (by exact hb) _ htail split]
  by_cases hem : b.head = []
  · simp [omitting, hem, take_of_length_le hhead, drop_of_length_le hhead]
  · simp [omitting, hem, fillHead_eq]

/-- **A buffer continues the string with its own.** -/
theorem pushBuffer_summary (split : Nat) (s t : List UInt8) :
    (summary mb s).pushBuffer mb split (summary mb t) = summary mb (s ++ t) := by
  have hs : (summary mb s).tail.length ≤ tailBudget mb := pushTail_bounded (Nat.zero_le _) _
  have ht : (summary mb t).tail.length ≤ tailBudget mb := pushTail_bounded (Nat.zero_le _) _
  rw [pushBuffer_eq split hs (length_take_le ..) ht, ← pushChunk_summary, pushChunk_eq,
    pushChunk_eq, pushTail_pushTail (by exact hs)]
  -- The room left in the head, which the later head fills.
  generalize hroom : headBudget mb - (summary mb s).head.length = r
  have hle : r ≤ headBudget mb := hroom ▸ Nat.sub_le ..
  have hdrop : t.drop r = (t.take (headBudget mb)).drop r ++ t.drop (headBudget mb) := by
    rw [drop_take, ← Nat.add_sub_of_le hle, ← drop_drop, Nat.add_sub_cancel_left, take_append_drop]
  have hhead : (summary mb t).head = t.take (headBudget mb) := rfl
  rw [hdrop, summary_tail, summary_omittedBytes, hhead, take_take]
  simp only [omitting, hroom, Nat.min_eq_left hle]
  exact pushTail_rtake (b := ⟨_ ++ t.take r, (summary mb s).tail, _⟩) hs _ _

/-! ### Runs -/

theorem retainedBytes_summary (s : List UInt8) :
    (summary mb s).retainedBytes = min s.length mb.toNat := by
  have hbud := budgets mb
  have hmax : mb.toNat ≤ usizeMax := Nat.le_sub_one_of_lt mb.toNat_lt
  rw [retainedBytes, summary_tail, length_rtake, length_drop, saturatingAdd]
  simp only [summary, pushTail, length_take]
  omega

/-- **A buffer summarises what was pushed, in whatever chunks, and buffers are appended as their
strings are.**  The omitted bytes are counted up to `usize::MAX`. -/
theorem pushed_summarises (maxBytes : UInt64) (chunks later : List (List UInt8)) (split : Nat) :
    let s := chunks.flatten
    let b := chunks.foldl (pushChunk maxBytes) {}
    b.head = s.take (headBudget maxBytes) ∧
    b.tail = (s.drop b.head.length).rtake (min (tailBudget maxBytes) (s.length - b.head.length)) ∧
    b.omittedBytes = min (s.length - b.retainedBytes) usizeMax ∧
    b.retainedBytes ≤ s.length ∧
    b.pushBuffer maxBytes split (later.foldl (pushChunk maxBytes) {}) =
      pushChunk maxBytes {} (s ++ later.flatten) := by
  have hbud := budgets maxBytes
  have hhead : (summary maxBytes chunks.flatten).head.length =
      min (headBudget maxBytes) chunks.flatten.length := length_take ..
  simp only [pushed_eq, pushBuffer_summary, retainedBytes_summary, hhead]
  refine ⟨rfl, ?_, ?_, Nat.min_le_left .., ?_⟩
  · simp only [summary_tail, rtake, drop_drop, length_drop]
    apply drop_eq_drop_iff.mpr
    omega
  · rw [summary_omittedBytes, length_drop]
    omega
  · simpa using (pushed_eq [chunks.flatten ++ later.flatten]).symm

theorem pushed_nothing_retained (cs : List (List UInt8)) :
    let b := cs.foldl (pushChunk 0) {}
    b.omittedBytes + b.retainedBytes = min cs.flatten.length usizeMax := by
  simp only [pushed_eq, retainedBytes_summary, summary_omittedBytes, UInt64.toNat_zero,
    Nat.min_zero, Nat.add_zero]
  rfl

/-- Once more than `usize::MAX` bytes have been omitted, their count is short. -/
theorem omitted_saturates :
    let chunks := replicate 4 (replicate (2 ^ 62) (0 : UInt8))
    let b := chunks.foldl (pushChunk 0) {}
    chunks.flatten.length = 2 ^ 64 ∧ b.omittedBytes + b.retainedBytes = 2 ^ 64 - 1 := by
  have hlen : (replicate 4 (replicate (2 ^ 62) (0 : UInt8))).flatten.length = 2 ^ 64 := by
    rw [length_flatten, map_replicate, length_replicate]
    rfl
  refine ⟨hlen, (pushed_nothing_retained _).trans ?_⟩
  rw [hlen]
  rfl

end SushiGpt.Core.HeadTailBuffer
