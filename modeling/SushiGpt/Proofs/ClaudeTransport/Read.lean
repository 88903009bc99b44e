/-
The frames that reads return.

The lines taken so far, the frame in the session and what the reader holds are together the bytes
that arrived, whatever was cancelled on the way.  So the values returned are those of the first
lines of the stream, and a read waits only when there is no other line.
-/
import SushiGpt.ClaudeTransport.Read
import SushiGpt.Lib.Framing

namespace SushiGpt.ClaudeTransport

open List Reader Framing

variable {parse : Bytes → Option Json} {s s' : Reader} {b r bs : Bytes}

/-! ### Lines -/

theorem findIdx?_newline (h : newline ∉ b) : b.findIdx? (· == newline) = none := by
  simp only [findIdx?_eq_none_iff, beq_eq_false_iff_ne]
  rintro c hc rfl
  exact h hc

theorem lineLength_append (h : newline ∉ b) (r : Bytes) :
    lineLength (b ++ newline :: r) = b.length + 1 := by
  simp [lineLength, findIdx?_append, findIdx?_newline h, findIdx?_cons]

theorem take_lineLength (h : newline ∉ b) (r : Bytes) :
    (b ++ newline :: r).take (lineLength (b ++ newline :: r)) = b ++ [newline] ∧
      (b ++ newline :: r).drop (lineLength (b ++ newline :: r)) = r := by
  rw [lineLength_append h, take_length_add_append, drop_length_add_append]
  exact ⟨rfl, rfl⟩

def lineFront (bs : Bytes) : Front Empty UInt8 Bytes :=
  if newline ∈ bs then .frame (bs.take (lineLength bs)) (bs.drop (lineLength bs))
  else .incomplete

theorem lineFront_append (h : newline ∉ b) (r : Bytes) :
    lineFront (b ++ newline :: r) = .frame (b ++ [newline]) r := by
  obtain ⟨htake, hdrop⟩ := take_lineLength h r
  rw [lineFront, if_pos (by simp), htake, hdrop]

theorem lineFront_eq_frame {l : Bytes} (h : lineFront bs = .frame l r) :
    ∃ b, newline ∉ b ∧ l = b ++ [newline] ∧ bs = b ++ newline :: r := by
  by_cases hmem : newline ∈ bs
  · obtain ⟨b, r', rfl, hb⟩ := eq_append_cons_of_mem hmem
    rw [lineFront_append hb] at h
    cases h
    exact ⟨b, hb, rfl, rfl⟩
  · rw [lineFront, if_neg hmem] at h
    cases h

/-- Lines with the newline that ends them. -/
def lines : Format Empty UInt8 Bytes where
  front := lineFront
  shorter h := by
    obtain ⟨b, -, -, rfl⟩ := lineFront_eq_frame h
    simp
    omega

/-! ### Reads -/

/-- What has been returned of the values of lines. -/
def Reader.values (reader : Reader) : List Json := reader.returned.filterMap Except.toOption

/-- The lines taken and what is not yet taken are the bytes that arrived. -/
structure Reads (parse : Bytes → Option Json) (s : Reader) (taken : List Bytes) : Prop where
  arrived : s.arrived = taken.flatten ++ (s.frame ++ s.buffered)
  whole : ∀ line ∈ taken, ∀ more, lineFront (line ++ more) = .frame line more
  short : ∀ line ∈ taken, line.length ≤ maxFrame
  values : s.values = taken.filterMap parse
  partly : newline ∉ s.frame
  bounded : s.frame.length ≤ maxFrame

theorem values_finish (s : Reader) (r : Except CodexErr Json) :
    (s.finish r).values = s.values ++ r.toOption.toList := by
  cases r <;> simp [values, finish, filterMap_append, Except.toOption]

theorem Reads.failed {t : List Bytes} {e : CodexErr} (h : Reads parse s t) :
    Reads parse (s.finish (.error e)) t :=
  ⟨h.arrived, h.whole, h.short, by rw [values_finish, h.values]; simp [Except.toOption],
    h.partly, h.bounded⟩

theorem turn_line (parse : Bytes → Option Json) (hb : newline ∉ b)
    (hbuf : s.buffered = b ++ newline :: r) (hle : s.frame.length + b.length < maxFrame) :
    s.turn parse = { s with frame := [], buffered := r }.finish
      (orFail (parse (s.frame ++ b ++ [newline])) "invalid CLI JSON") := by
  obtain ⟨htake, hdrop⟩ := take_lineLength hb r
  rw [Reader.turn, hbuf, if_neg (by rw [lineLength_append hb]; omega), htake, hdrop, ← append_assoc]
  exact if_pos (by simp)

/-- A turn takes the rest of a line, or all that is there of it, or finds it too long. -/
theorem turn_cases (parse : Bytes → Option Json) (hs : newline ∉ s.frame) :
    s.turn parse = s.finish (.error (failure "oversized CLI frame")) ∨
    (newline ∉ s.buffered ∧ s.frame.length + s.buffered.length ≤ maxFrame ∧
      s.turn parse = { s with frame := s.frame ++ s.buffered, buffered := [] }) ∨
    ∃ b r, newline ∉ b ∧ s.buffered = b ++ newline :: r ∧ s.frame.length + b.length < maxFrame := by
  by_cases hlong : s.frame.length + lineLength s.buffered > maxFrame
  · exact .inl (if_pos hlong)
  by_cases hmem : newline ∈ s.buffered
  · obtain ⟨b, r, hbuf, hb⟩ := eq_append_cons_of_mem hmem
    rw [hbuf, lineLength_append hb] at hlong
    exact .inr (.inr ⟨b, r, hb, hbuf, by omega⟩)
  · have hlast : (s.frame ++ s.buffered).getLast? ≠ some newline := fun hlast => by
      have := mem_of_getLast? hlast
      simp_all
    rw [Reader.turn, if_neg hlong]
    simp only [lineLength, findIdx?_newline hmem] at hlong ⊢
    refine .inr (.inl ⟨hmem, by omega, ?_⟩)
    rw [take_length, drop_length]
    exact if_neg hlast

theorem Reads.turn {t : List Bytes} (h : Reads parse s t) : ∃ t, Reads parse (s.turn parse) t := by
  obtain hturn | ⟨hmem, hle, hturn⟩ | ⟨b, r, hb, hbuf, hlt⟩ := turn_cases parse h.partly
  · exact ⟨t, hturn ▸ h.failed⟩
  · rw [hturn]
    refine ⟨t, ?_, h.whole, h.short, h.values, ?_, ?_⟩
    · simpa using h.arrived
    · simp [h.partly, hmem]
    · simpa using hle
  · rw [turn_line parse hb hbuf hlt]
    have hline : newline ∉ s.frame ++ b := by simp [h.partly, hb]
    refine ⟨t ++ [s.frame ++ b ++ [newline]], ?_, ?_, ?_, ?_, ?_, Nat.zero_le _⟩
    · simp [finish, h.arrived, hbuf]
    · refine forall_mem_append.mpr ⟨h.whole, forall_mem_singleton.mpr fun m => ?_⟩
      rw [append_assoc, singleton_append, lineFront_append hline]
    · refine forall_mem_append.mpr ⟨h.short, forall_mem_singleton.mpr ?_⟩
      rw [length_append, length_append]
      exact hlt
    · rw [values_finish, filterMap_append]
      refine congrArg₂ (· ++ ·) h.values ?_
      generalize s.frame ++ b ++ [newline] = l
      cases hp : parse l <;> simp [orFail, Except.toOption, hp]
    · exact not_mem_nil

theorem Reads.step {t : List Bytes} {a : Reader.Action} (h : Reads parse s t)
    (hs : s.step parse a = some s') : ∃ t, Reads parse s' t := by
  cases a with
  | turn =>
    obtain ⟨-, ⟨⟩⟩ := Option.ite_none_right_eq_some.mp hs
    exact h.turn
  | arrive c =>
    obtain ⟨hw, ⟨⟩⟩ := Option.ite_none_right_eq_some.mp hs
    have hempty : s.buffered = [] := by simp_all [waits]
    refine ⟨t, ?_, h.whole, h.short, h.values, h.partly, h.bounded⟩
    simp [h.arrived, hempty]
  | call wait | cancel =>
    obtain ⟨-, ⟨⟩⟩ := Option.ite_none_right_eq_some.mp hs
    exact ⟨t, h.arrived, h.whole, h.short, h.values, h.partly, h.bounded⟩
  | timedOut | readFailed | exited =>
    obtain ⟨-, ⟨⟩⟩ := Option.ite_none_right_eq_some.mp hs
    exact ⟨t, h.failed⟩

/-- The line that comes next is what a turn returns, unless it is too long: then it stays where it
is.  Without a line nothing can be taken. -/
theorem Reads.next {t : List Bytes} (h : Reads parse s t) :
    ∃ rest left, lines.decode (s.frame ++ s.buffered) = .ok (rest, left) ∧
      (s.buffered = [] → rest = []) ∧
      ∀ l m, rest = l :: m → if l.length ≤ maxFrame then
        (s.turn parse).returned = s.returned ++ [orFail (parse l) "invalid CLI JSON"]
      else s.turn parse = s.finish (.error (failure "oversized CLI frame")) := by
  by_cases hmem : newline ∈ s.buffered
  · obtain ⟨b, r, hbuf, hb⟩ := eq_append_cons_of_mem hmem
    have hline : newline ∉ s.frame ++ b := by simp [h.partly, hb]
    have hfront : lines.front (s.frame ++ s.buffered) = .frame (s.frame ++ b ++ [newline]) r := by
      rw [hbuf, ← append_assoc]
      exact lineFront_append hline r
    rw [Format.decode_frame hfront]
    cases hdec : lines.decode r with
    | error e => exact e.elim
    | ok d =>
      refine ⟨_, _, rfl, fun hnil => absurd hmem (hnil ▸ not_mem_nil), ?_⟩
      rintro l m ⟨⟩
      simp only [length_append, length_singleton]
      split_ifs with hle
      · rw [turn_line parse hb hbuf (by omega)]
        rfl
      · rw [Reader.turn, hbuf, lineLength_append hb, if_pos (by omega)]
  · have hfront : lines.front (s.frame ++ s.buffered) = .incomplete :=
      if_neg (by simp [h.partly, hmem])
    exact ⟨[], _, Format.decode_incomplete hfront, fun _ => rfl, nofun⟩

/-- **However the bytes arrive and whatever reads are cancelled, the values returned are those of
the first lines, in their order, none of them too long.  A read waits only when every line has been
taken, and otherwise the next turn returns the next line; if that is too long, it fails and takes
nothing.** -/
theorem run_reads {acts : List Reader.Action} (h : Machine.run (step parse) new acts = some s) :
    s.frame.length ≤ maxFrame ∧ ∃ taken rest left,
      lines.decode s.arrived = .ok (taken ++ rest, left) ∧ s.values = taken.filterMap parse ∧
      (∀ line ∈ taken, line.length ≤ maxFrame) ∧ (s.waits → rest = []) ∧
      ∀ line more, rest = line :: more → if line.length ≤ maxFrame then
        (s.turn parse).returned = s.returned ++ [orFail (parse line) "invalid CLI JSON"]
      else s.turn parse = s.finish (.error (failure "oversized CLI frame")) := by
  have hnew : ∃ taken, Reads parse new taken := ⟨[], rfl, nofun, nofun, rfl, nofun, Nat.zero_le _⟩
  obtain ⟨taken, hr⟩ := Machine.run_keeps (fun s => ∃ taken, Reads parse s taken)
    (fun s a s' h hs => h.elim fun _ h => h.step hs) acts hnew h
  obtain ⟨rest, left, hdec, hwait, hnext⟩ := hr.next
  refine ⟨hr.bounded, taken, rest, left, ?_, hr.values, hr.short,
    fun hw => hwait (by simp_all [waits]), hnext⟩
  rw [hr.arrived, ← flatMap_id, Format.decode_flatMap _ hr.whole, hdec]
  rfl

def parseOne (bs : Bytes) : Option Json :=
  if bs = [49, newline] then some (.int 1) else none

theorem run_reads_cancelled :
    ∃ s, Machine.run (step parseOne) new [.call .providerActivity, .arrive [49], .turn, .cancel,
      .call .nativeToolResult, .arrive [newline, 50], .turn] = some s ∧ s.values = [.int 1] ∧
      s.frame.length ≤ maxFrame := by
  obtain ⟨s, hrun⟩ : ∃ s, Machine.run (step parseOne) new [.call .providerActivity, .arrive [49],
    .turn, .cancel, .call .nativeToolResult, .arrive [newline, 50], .turn] = some s := ⟨_, rfl⟩
  refine ⟨s, hrun, ?_, (run_reads hrun).1⟩
  cases hrun
  decide

/-- A read with this line and the digit one behind it in the reader. -/
def holding (line : Bytes) : Reader :=
  ⟨[], line ++ newline :: [49, newline], some .nativeToolResult,
    line ++ newline :: [49, newline], []⟩

theorem oversized_stays (hb : newline ∉ b) (hlong : maxFrame ≤ b.length) :
    Machine.run (step parseOne) new [.call .nativeToolResult, .arrive (holding b).buffered] =
        some (holding b) ∧
      lines.decode (holding b).arrived = .ok ([b ++ [newline], [49, newline]], []) ∧
      (holding b).turn parseOne = (holding b).finish (.error (failure "oversized CLI frame")) := by
  refine ⟨by simp [Machine.run, step, new, waits, holding], ?_, if_pos ?_⟩
  · rw [holding, Format.decode_frame (lineFront_append hb _),
      Format.decode_frame (lineFront_append (b := [49]) (by decide) []),
      Format.decode_incomplete (rfl : lineFront [] = .incomplete)]
    rfl
  · rw [holding, lineLength_append hb]
    exact Nat.lt_add_left _ (Nat.lt_succ_of_le hlong)

/-- A line that is too long is not taken, and so nothing behind it is. -/
theorem oversized_line_stays :
    let long := replicate maxFrame 0
    Machine.run (step parseOne) new [.call .nativeToolResult, .arrive (holding long).buffered] =
        some (holding long) ∧
      lines.decode (holding long).arrived = .ok ([long ++ [newline], [49, newline]], []) ∧
      (holding long).turn parseOne =
        (holding long).finish (.error (failure "oversized CLI frame")) :=
  oversized_stays (fun h => by cases eq_of_mem_replicate h) length_replicate.ge

end SushiGpt.ClaudeTransport
