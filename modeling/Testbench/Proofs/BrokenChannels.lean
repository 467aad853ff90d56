import Testbench.Proofs.RoundTrip

/-!
# Broken Channels

A byte channel may break at any byte, and it may stop carrying out flushes. What it has taken by
then is not lost, and what a failed line has left in it is not taken back. So it matters that
nothing else gets in: what the channel holds in the end is the beginning of the stream of all
lines, up to the byte at which it broke, whatever the parts were in which it took them and
however often it was interrupted. This is so although whoever writes does not mind the failures
and writes every line.

A line that is broken in the middle leaves the channel full, and then no line gets through, as
each of them has a byte at least. A line that was taken as a whole fails only if it is not
flushed, and then no later one is.

## Main definitions

* `Writer.writeEach`: Lines written in order, whatever becomes of them.
* `Writer.Breaks`: A channel that breaks after a number of bytes and of flushes.
* `Writer.Fills`: As much has been taken as there was room for.

## Theorems

* `Writer.Breaks.attempt_cases`: One offer of bytes.
* `Writer.Breaks.writeAll`: Offers of all bytes.
* `Writer.Breaks.writeLine`: A line.
* `Writer.Breaks.takes_a_prefix`: All lines, and which of them get through.
-/

namespace Testbench

namespace Writer

open Text

/-- Lines are written in order, each of them whatever became of those before it. -/
def writeEach : List String → Writer → List (Except IoFailure Unit) × Writer
  | [], w => ([], w)
  | line :: rest, w =>
    let (result, next) := w.writeLine line
    let (results, last) := writeEach rest next
    (result :: results, last)

/-- The channel takes at least one byte of each attempt, but only so many bytes in all, and it
    carries out only so many flushes. -/
structure Breaks (capacity flushes : Nat) (w : Writer) : Prop where
  share : ∀ n, 0 < w.share n
  capacity : w.capacity = some capacity
  flushes : w.flushes = some flushes

/-- Of the bytes, as many have been taken as there was room for. -/
structure Fills (capacity flushes : Nat) (w : Writer) (bytes : List UInt8) (next : Writer) :
    Prop where
  taken : next.taken = w.taken ++ bytes.take (capacity - w.taken.length)
  flushed : next.flushed = w.flushed
  breaks : next.Breaks capacity flushes

variable {capacity flushes : Nat} {w : Writer}

theorem Fills.refl (h : w.Breaks capacity flushes) : Fills capacity flushes w [] w :=
  ⟨by rw [List.take_nil, List.append_nil], rfl, h⟩

theorem Fills.length {bytes : List UInt8} {next : Writer} (h : Fills capacity flushes w bytes next) :
    next.taken.length = w.taken.length + min (capacity - w.taken.length) bytes.length := by
  rw [h.taken, List.length_append, List.length_take]

/-- Bytes that are taken one after the other are taken together. -/
theorem Fills.append {bytes more : List UInt8} {mid next : Writer}
    (h : Fills capacity flushes w bytes mid) (h' : Fills capacity flushes mid more next) :
    Fills capacity flushes w (bytes ++ more) next := by
  refine ⟨?_, h'.flushed.trans h.flushed, h'.breaks⟩
  have hroom : capacity - mid.taken.length = capacity - w.taken.length - bytes.length := by
    rw [h.length]
    omega
  rw [h'.taken, hroom, h.taken, List.append_assoc, List.take_append]

/-- Nor does it matter what comes behind a full channel. -/
theorem Fills.of_full {bytes : List UInt8} {next : Writer} (h : Fills capacity flushes w bytes next)
    (hfull : capacity - w.taken.length ≤ bytes.length) (more : List UInt8) :
    Fills capacity flushes w (bytes ++ more) next := by
  refine ⟨?_, h.flushed, h.breaks⟩
  rw [List.take_append_of_le_length hfull]
  exact h.taken

/-- An attempt is interrupted, or gets on within the capacity, or comes upon a full channel. -/
theorem Breaks.attempt_cases (h : w.Breaks capacity flushes) {bytes : List UInt8}
    (hbytes : bytes ≠ []) :
    (∃ next, w.attempt bytes = (.interrupted, next) ∧ next.taken = w.taken ∧
      next.flushed = w.flushed ∧ next.Breaks capacity flushes) ∨
    (∃ count next, w.attempt bytes = (.took (count + 1), next) ∧
      count < capacity - w.taken.length ∧ count < bytes.length ∧
      Fills capacity flushes w (bytes.take (count + 1)) next) ∨
    (capacity ≤ w.taken.length ∧ ∃ next, Fills capacity flushes w bytes next ∧
      ∃ outcome, w.attempt bytes = (outcome, next) ∧
        (outcome = .took 0 ∨ ∃ cause, outcome = .failed cause)) := by
  have hroom : w.room bytes.length
      = min (min (w.share w.attempts) bytes.length) (capacity - w.taken.length) := by
    rw [room, h.capacity]
  have hfull : w.isFull = decide (capacity ≤ w.taken.length) := by
    rw [isFull, h.capacity]
    rfl
  unfold attempt
  split
  · exact .inl ⟨_, rfl, rfl, rfl, h.share, h.capacity, h.flushes⟩
  · refine .inr ?_
    by_cases hover : capacity ≤ w.taken.length
    · have hnothing : capacity - w.taken.length = 0 := Nat.sub_eq_zero_of_le hover
      have hkept : ∀ failure attempts pending, Fills capacity flushes w bytes
          { w with taken := w.taken ++ bytes.take 0, failure, attempts, pending } :=
        fun _ _ _ => ⟨by rw [hnothing], rfl, h.share, h.capacity, h.flushes⟩
      rw [hnothing, Nat.min_zero] at hroom
      rw [decide_eq_true hover] at hfull
      simp only [hfull, hroom]
      rcases w.failure with _ | cause
      · exact .inr ⟨hover, _, hkept _ _ _, _, rfl, .inl rfl⟩
      · exact .inr ⟨hover, _, hkept _ _ _, _, rfl, .inr ⟨cause, rfl⟩⟩
    · rw [decide_eq_false hover] at hfull
      have hshare := h.share w.attempts
      have hlength := List.length_pos_iff.mpr hbytes
      simp only [hfull]
      rcases hcount : w.room bytes.length with _ | count
      · omega
      · refine .inl ⟨count, _, rfl, by omega, by omega, ?_, rfl, h.share, h.capacity, h.flushes⟩
        rw [List.take_take, Nat.min_eq_right (by omega)]

theorem writeAll_of_failed {next : Writer} {bytes : List UInt8} {outcome : Attempt}
    (hbytes : bytes ≠ []) (h : w.attempt bytes = (outcome, next))
    (hfailed : outcome = .took 0 ∨ ∃ cause, outcome = .failed cause) :
    ∃ cause, w.writeAll bytes = (.error cause, next) := by
  unfold Writer.writeAll
  rw [dif_neg hbytes]
  split
  case h_2 next' hattempt =>
    rcases Prod.mk.inj (h.symm.trans hattempt) with ⟨-, rfl⟩
    exact ⟨_, rfl⟩
  case h_4 next' cause hattempt =>
    rcases Prod.mk.inj (h.symm.trans hattempt) with ⟨-, rfl⟩
    exact ⟨_, rfl⟩
  all_goals
    next hattempt =>
      rcases (Prod.mk.inj (h.symm.trans hattempt)).1
      rcases hfailed with heq | ⟨cause, heq⟩ <;> cases heq

/-- All bytes are offered, by the bytes that are left and then by the interruptions. -/
theorem Breaks.writeAll {w : Writer} (h : w.Breaks capacity flushes) (bytes : List UInt8) :
    Fills capacity flushes w bytes (w.writeAll bytes).2 ∧
      ((w.writeAll bytes).1 = .ok () ↔ bytes.length ≤ capacity - w.taken.length) := by
  by_cases hbytes : bytes = []
  · subst hbytes
    unfold Writer.writeAll
    exact ⟨.refl h, iff_of_true rfl (Nat.zero_le _)⟩
  rcases h.attempt_cases hbytes with ⟨next, hattempt, htaken, hflushed, hnext⟩ |
    ⟨count, next, hattempt, hroom, hcount, hfills⟩ |
    ⟨hfull, next, hfills, outcome, hattempt, hfailed⟩
  · have hlower : next.pending < w.pending := pending_lt_of_interrupted hattempt
    rcases hnext.writeAll bytes with ⟨hfills, hok⟩
    rw [htaken] at hok
    rw [writeAll_of_interrupted hbytes hattempt]
    exact ⟨⟨by rw [hfills.taken, htaken], hfills.flushed.trans hflushed, hfills.breaks⟩, hok⟩
  · have hlower : (bytes.drop (count + 1)).length < bytes.length := by
      rw [List.length_drop]
      omega
    rcases hfills.breaks.writeAll (bytes.drop (count + 1)) with ⟨hmore, hok⟩
    have hall := hfills.append hmore
    rw [List.take_append_drop] at hall
    rw [writeAll_of_took hbytes hattempt]
    refine ⟨hall, hok.trans ?_⟩
    rw [hfills.length, List.length_take, List.length_drop]
    omega
  · rcases writeAll_of_failed hbytes hattempt hfailed with ⟨cause, hwrite⟩
    have hlength := List.length_pos_iff.mpr hbytes
    rw [hwrite]
    exact ⟨hfills, iff_of_false nofun (by omega)⟩
termination_by (bytes.length, w.pending)
decreasing_by
  · exact Prod.Lex.right _ hlower
  · exact Prod.Lex.left _ _ hlower

/-- What becomes of a line: how much is taken of it, whether it is flushed, and what is said. -/
structure Puts (capacity flushes : Nat) (w : Writer) (line : String)
    (outcome : Except IoFailure Unit × Writer) : Prop where
  taken : outcome.2.taken = w.taken ++ (encode line ++ [10]).take (capacity - w.taken.length)
  ok_iff : outcome.1 = .ok () ↔
    (encode line ++ [10]).length ≤ capacity - w.taken.length ∧ w.flushed < flushes
  flushed : outcome.2.flushed = if (encode line ++ [10]).length ≤ capacity - w.taken.length ∧
    w.flushed < flushes then w.flushed + 1 else w.flushed
  breaks : outcome.2.Breaks capacity flushes

theorem Breaks.flush (h : w.Breaks capacity flushes) :
    (w.flushed < flushes ∧ w.flush = (.ok (), { w with flushed := w.flushed + 1 })) ∨
    (flushes ≤ w.flushed ∧ w.flush = (.error w.flushFailure, w)) := by
  unfold Writer.flush
  rw [h.flushes]
  rcases Nat.lt_or_ge w.flushed flushes with hmore | hnone
  · exact .inl ⟨hmore, if_pos hmore⟩
  · exact .inr ⟨hnone, if_neg (Nat.not_lt_of_le hnone)⟩

/-- A line that breaks off is not flushed, and its failure is that of the channel. -/
theorem Fills.puts_of_broken {line : String} {next : Writer} {cause : IoFailure}
    (h : Fills capacity flushes w (encode line ++ [10]) next)
    (hlong : ¬ (encode line ++ [10]).length ≤ capacity - w.taken.length) :
    Puts capacity flushes w line (.error cause, next) :=
  ⟨h.taken, iff_of_false nofun fun hfits => hlong hfits.1,
    h.flushed.trans (if_neg fun hfits => hlong hfits.1).symm, h.breaks⟩

theorem Breaks.writeLine (h : w.Breaks capacity flushes) (line : String) :
    Puts capacity flushes w line (w.writeLine line) := by
  rcases h.writeAll (encode line) with ⟨hfills, hok⟩
  unfold Writer.writeLine
  rcases hfirst : w.writeAll (encode line) with ⟨cause | _, mid⟩ <;> rw [hfirst] at hfills hok
  · have hlong : ¬ (encode line).length ≤ capacity - w.taken.length :=
      fun hfits => absurd (hok.mpr hfits) nofun
    refine (hfills.of_full (Nat.le_of_not_le hlong) [10]).puts_of_broken fun hfits => hlong ?_
    rw [List.length_append] at hfits
    omega
  · rcases hfills.breaks.writeAll [10] with ⟨hmore, hok'⟩
    have hshort : (encode line).length ≤ capacity - w.taken.length := hok.mp rfl
    -- The newline fits if the whole line does.
    have hroom : ([10] : List UInt8).length ≤ capacity - mid.taken.length
        ↔ (encode line ++ [10]).length ≤ capacity - w.taken.length := by
      rw [hfills.length, List.length_append]
      omega
    rw [hroom] at hok'
    have hall := hfills.append hmore
    rcases hsecond : mid.writeAll [10] with ⟨cause | _, next⟩ <;> rw [hsecond] at hall hok' <;>
      simp only [hsecond]
    · exact hall.puts_of_broken fun hfits => absurd (hok'.mpr hfits) nofun
    · have hfits := hok'.mp rfl
      have hflush := hall.breaks.flush
      rw [hall.flushed] at hflush
      rcases hflush with ⟨hflush, hlast⟩ | ⟨hflush, hlast⟩
      · rw [hlast]
        exact ⟨hall.taken, iff_of_true rfl ⟨hfits, hflush⟩, (if_pos ⟨hfits, hflush⟩).symm,
          hall.breaks.share, hall.breaks.capacity, hall.breaks.flushes⟩
      · have hnot : ¬ ((encode line ++ [10]).length ≤ capacity - w.taken.length ∧
            w.flushed < flushes) := fun hboth => Nat.not_lt_of_le hflush hboth.2
        rw [hlast]
        exact ⟨hall.taken, iff_of_false nofun hnot, hall.flushed.trans (if_neg hnot).symm,
          hall.breaks⟩

theorem stream_cons (line : String) (rest : List String) :
    stream (line :: rest) = (encode line ++ [10]) ++ stream rest := List.flatMap_cons

/-- Each line has a byte at least. -/
theorem length_stream_pos {lines : List String} (h : lines ≠ []) : 0 < (stream lines).length := by
  cases lines with
  | nil => exact absurd rfl h
  | cons line rest =>
    rw [stream_cons, List.length_append, List.length_append, List.length_singleton]
    omega

theorem length_writeEach (lines : List String) (w : Writer) :
    (w.writeEach lines).1.length = lines.length := by
  induction lines generalizing w with
  | nil => rfl
  | cons line rest ih => exact congrArg (· + 1) (ih _)

/-- As much is taken of the stream as there is room for. -/
theorem Breaks.taken_writeEach {w : Writer} (h : w.Breaks capacity flushes) (lines : List String) :
    (w.writeEach lines).2.taken
      = w.taken ++ (stream lines).take (capacity - w.taken.length) := by
  induction lines generalizing w with
  | nil =>
    change w.taken = w.taken ++ List.take _ []
    rw [List.take_nil, List.append_nil]
  | cons line rest ih =>
    have hputs := h.writeLine line
    have hroom : capacity - (w.writeLine line).2.taken.length
        = capacity - w.taken.length - (encode line ++ [10]).length := by
      rw [hputs.taken, List.length_append, List.length_take]
      omega
    rw [stream_cons, List.take_append, ← hroom, ← List.append_assoc, ← hputs.taken]
    exact ih hputs.breaks

/-- A line gets through if all lines up to it fit and are flushed. -/
theorem Breaks.getElem?_writeEach {w : Writer} (h : w.Breaks capacity flushes)
    (lines : List String) {i : Nat} (hi : i < lines.length) :
    (w.writeEach lines).1[i]? = some (.ok ()) ↔
      (stream (lines.take (i + 1))).length ≤ capacity - w.taken.length ∧
        w.flushed + i < flushes := by
  induction lines generalizing w i with
  | nil => exact absurd hi (Nat.not_lt_zero i)
  | cons line rest ih =>
    have hputs := h.writeLine line
    have hlength := congrArg List.length hputs.taken
    rw [List.length_append, List.length_take] at hlength
    rw [List.take_succ_cons, stream_cons, List.length_append]
    rcases i with _ | i
    · exact Option.some_inj.trans hputs.ok_iff
    · have hi' : i < rest.length := Nat.lt_of_succ_lt_succ hi
      have hsome : rest.take (i + 1) ≠ [] := by
        rw [ne_eq, List.take_eq_nil_iff]
        rintro (hzero | hnil)
        · cases hzero
        · rw [hnil] at hi'
          cases hi'
      have hlater := length_stream_pos hsome
      have hflushed := hputs.flushed
      refine (ih hputs.breaks hi').trans ?_
      -- If the line did not fit then the channel is full, and no later line is empty.
      split at hflushed
      · omega
      · omega

/-- Whatever the parts in which a channel takes its bytes, the interruptions, and the byte and
    the flush at which it breaks: of the lines that are written, each with a newline and each
    whatever became of those before it, it has taken the beginning of their stream, as much as
    it takes in all. A line is reported as written if and only if all lines up to it lie within
    what the channel takes and it still carries out as many flushes. -/
theorem Breaks.takes_a_prefix (h : w.Breaks capacity flushes) (htaken : w.taken = [])
    (hflushed : w.flushed = 0) (lines : List String) :
    (w.writeEach lines).2.taken = (stream lines).take (min capacity (stream lines).length) ∧
      (w.writeEach lines).1.length = lines.length ∧
      ∀ i < lines.length, (w.writeEach lines).1[i]? = some (.ok ()) ↔
        (stream (lines.take (i + 1))).length ≤ capacity ∧ i + 1 ≤ flushes := by
  have hroom : capacity - w.taken.length = capacity := by
    rw [htaken]
    rfl
  refine ⟨?_, length_writeEach lines w, fun i hi => ?_⟩
  · rw [h.taken_writeEach lines, hroom, htaken, List.nil_append, List.take_eq_take_iff]
    omega
  · rw [h.getElem?_writeEach lines hi, hroom, hflushed, Nat.zero_add]
    exact Iff.rfl

/-- A channel that takes up to three bytes at a time and five in all, and carries out four
    flushes. -/
def breaking : Writer :=
  .fresh (fun n => n % 3 + 1) (fun n => n % 2) (some 5) none (some 4) .nothingAccepted

/-- It breaks inside a character, after the second line. -/
theorem takes_a_prefix_breaking :
    (breaking.writeEach ["a", "", "€", ""]).2.taken = [97, 10, 10, 226, 130] ∧
      ∀ i < 4, (breaking.writeEach ["a", "", "€", ""]).1[i]? = some (.ok ()) ↔ i < 2 := by
  have hbreaks : breaking.Breaks 5 4 := ⟨fun n => Nat.succ_pos _, rfl, rfl⟩
  rcases hbreaks.takes_a_prefix rfl rfl ["a", "", "€", ""] with ⟨htaken, -, hresults⟩
  refine ⟨htaken.trans (by decide +kernel), fun i hi => (hresults i hi).trans ?_⟩
  revert i
  decide +kernel

end Writer

end Testbench
