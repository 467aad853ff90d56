import Testbench.Proofs.Clocks
import Testbench.Proofs.Units

/-!
# Clocks over the Whole Range of Time

A time is counted in nanoseconds here, but it is stored as whole seconds in a signed word
and the nanoseconds beyond them in another, and so is a duration. What is calculated with
them has to carry and to borrow between the two words, at the ends of the range too, where
the difference of two times does not fit a signed word.

These calculations are not part of the bench. It relies on three of them, and on what is
promised of them: times are ordered, a duration is added exactly unless the sum is out of
range, and what is subtracted is a duration that can be added again. A subtraction may panic
if its result is negative, which is why a clock compares before it subtracts. From this
alone it follows that its readings are exact, and that none of them panics.

## Main definitions

* `StoredTime`, `StoredSpan`: A time and a duration, in two words each.
* `Calculation`, `Calculation.IsLawful`: What is calculated, and what is promised of it.
* `Calculation.elapsed`, `Calculation.value`: What a clock reads.
* `Calculation.byWords`: A calculation that carries and borrows.

## Theorems

* `StoredTime.exists_time`: Every time can be stored.
* `Calculation.IsLawful.exists_elapsed`: What a clock reads is what has elapsed.
* `Calculation.isLawful_byWords`: Carrying and borrowing keeps what is promised.
* `Calculation.readings_are_exact`: Readings are exact, from any time to any other.
-/

namespace Testbench

theorem Timestamp.add?_eq_none {t : Timestamp} {d : Duration} :
    t.add? d = none ↔ 9223372036854775808 * 1000000000 ≤ t.nanos + d.nanos := by
  have hfirst := t.first_le
  unfold add? ofNanos?
  rw [dite_eq_right_iff]
  constructor
  · intro hnone
    by_contra hlt
    exact absurd (hnone ⟨by omega, by omega⟩) nofun
  · intro hle hrange
    omega

theorem Anchor.millis_eq_iff {x : Anchor} {now : Timestamp} {k : Nat} (h : x.moment ≤ now) :
    (x.elapsed now).millis = k ↔ x.moment.nanos + (k : Int) * 1000000 ≤ now.nanos ∧
      now.nanos < x.moment.nanos + ((k : Int) + 1) * 1000000 := by
  change x.moment.nanos ≤ now.nanos at h
  unfold elapsed Timestamp.since Duration.millis
  simp only
  omega

namespace SimulatedTime

/-- A clock counts `k` whole milliseconds. It reads them as a float, which is the number itself
    as long as it fits a mantissa. -/
structure Counts (s : SimulatedTime) (x : Anchor) (k : Nat) : Prop where
  le : x.moment.nanos + (k : Int) * 1000000 ≤ s.now.nanos
  lt : s.now.nanos < x.moment.nanos + ((k : Int) + 1) * 1000000
  value : s.value x = Float.ofNat k
  number : k ≤ 2 ^ 53 → Rounding.number? (s.value x) = some (k : ℚ)

variable {s next : SimulatedTime} {x : Anchor} {k : Nat}

theorem exists_counts (h : x.moment ≤ s.now) : ∃ k, s.Counts x k := by
  obtain ⟨hle, hlt⟩ := (Anchor.millis_eq_iff h).mp rfl
  exact ⟨_, hle, hlt, rfl, Rounding.number?_ofNat⟩

theorem Counts.tick (h : s.Counts x k) (htick : s.tick? = some next) : next.Counts x (k + 1) := by
  rcases tick?_cases htick with ⟨now, rfl, hnow⟩
  have hle := h.le
  have hlt := h.lt
  have hmillis : (x.elapsed now).millis = k + 1 := by
    refine (Anchor.millis_eq_iff ?_).mpr ⟨by omega, by omega⟩
    change x.moment.nanos ≤ now.nanos
    omega
  have hvalue : SimulatedTime.value { s with now } x = Float.ofNat (k + 1) :=
    congrArg Float.ofNat hmillis
  exact ⟨by simp only; omega, by simp only; omega, hvalue,
    fun hsmall => hvalue ▸ Rounding.number?_ofNat hsmall⟩

end SimulatedTime

/-! ### Words -/

/-- A time as it is stored. -/
structure StoredTime where
  seconds : Int64
  /-- Nanoseconds beyond the last whole second. -/
  subsec : UInt32
  lt : subsec.toNat < 1000000000
  deriving DecidableEq

/-- A duration as it is stored. -/
structure StoredSpan where
  seconds : UInt64
  /-- Nanoseconds beyond the last whole second. -/
  subsec : UInt32
  lt : subsec.toNat < 1000000000
  deriving DecidableEq

namespace StoredTime

def time (t : StoredTime) : Timestamp where
  nanos := t.seconds.toInt * 1000000000 + t.subsec.toNat
  first_le := by
    have hseconds := t.seconds.le_toInt
    omega
  lt_end := by
    have hseconds := t.seconds.toInt_lt
    have hsubsec := t.lt
    omega

def first : StoredTime := ⟨Int64.minValue, 0, by decide⟩

def last : StoredTime := ⟨Int64.maxValue, 999999999, by decide⟩

theorem ext_time {s t : StoredTime} (h : s.time = t.time) : s = t := by
  have hnanos : s.seconds.toInt * 1000000000 + s.subsec.toNat
      = t.seconds.toInt * 1000000000 + t.subsec.toNat := congrArg Timestamp.nanos h
  rcases s with ⟨seconds, subsec, hs⟩
  rcases t with ⟨seconds', subsec', ht⟩
  simp only at hnanos
  obtain rfl : seconds = seconds' := Int64.toInt_inj.mp (by omega)
  obtain rfl : subsec = subsec' := UInt32.toNat_inj.mp (by omega)
  rfl

/-- Every time can be stored. -/
theorem exists_time (t : Timestamp) : ∃ s : StoredTime, s.time = t := by
  have hfirst := t.first_le
  have hend := t.lt_end
  have hseconds : (Int64.ofInt t.seconds).toInt = t.seconds := by
    refine Int64.toInt_ofInt_of_le ?_ ?_
    · unfold Timestamp.seconds
      omega
    · unfold Timestamp.seconds
      omega
  have hlt : t.subsec < 1000000000 := by
    unfold Timestamp.subsec
    omega
  have hsubsec : (UInt32.ofNat t.subsec).toNat = t.subsec :=
    UInt32.toNat_ofNat_of_lt' (Nat.lt_trans hlt (by decide))
  refine ⟨⟨.ofInt t.seconds, .ofNat t.subsec, by rwa [hsubsec]⟩, Timestamp.ext_nanos ?_⟩
  simp only [time, hseconds, hsubsec]
  unfold Timestamp.seconds Timestamp.subsec
  omega

end StoredTime

namespace StoredSpan

def length (d : StoredSpan) : Duration := .ofParts d.seconds.toNat d.subsec.toNat

def zero : StoredSpan := ⟨0, 0, by decide⟩

/-- A millisecond. -/
def tick : StoredSpan := ⟨0, 1000000, by decide⟩

theorem ext_length {d e : StoredSpan} (h : d.length = e.length) : d = e := by
  have hnanos : d.seconds.toNat * 1000000000 + d.subsec.toNat
      = e.seconds.toNat * 1000000000 + e.subsec.toNat := congrArg Duration.nanos h
  rcases d with ⟨seconds, subsec, hd⟩
  rcases e with ⟨seconds', subsec', he⟩
  simp only at hnanos
  obtain rfl : seconds = seconds' := UInt64.toNat_inj.mp (by omega)
  obtain rfl : subsec = subsec' := UInt32.toNat_inj.mp (by omega)
  rfl

theorem length_zero : zero.length = ⟨0⟩ := rfl

theorem length_tick : tick.length = SimulatedTime.tick := rfl

end StoredSpan

/-! ### What is calculated -/

/-- What is calculated with stored times. There is no result where the calculation panics. -/
structure Calculation where
  isAfter : StoredTime → StoredTime → Bool
  /-- The time to the first from the second. -/
  since : StoredTime → StoredTime → Option StoredSpan
  add : StoredTime → StoredSpan → Option StoredTime

namespace Calculation

/-- What is promised of a calculation. -/
structure IsLawful (c : Calculation) : Prop where
  isAfter_iff {s t : StoredTime} : c.isAfter s t = true ↔ t.time < s.time
  add_eq_some_iff {t later : StoredTime} {d : StoredSpan} :
    c.add t d = some later ↔ t.time.add? d.length = some later.time
  /-- Only a time from the future cannot be subtracted. -/
  since_eq_none {t earlier : StoredTime} : c.since t earlier = none → t.time < earlier.time
  add_of_since {t earlier : StoredTime} {d : StoredSpan} :
    c.since t earlier = some d → c.add earlier d = some t

/-- What has elapsed on a clock that was reset at `anchor`. -/
def elapsed (c : Calculation) (anchor now : StoredTime) : Option StoredSpan :=
  if c.isAfter now anchor then c.since now anchor else some .zero

/-- What the clock reads in simulated time. -/
def value (c : Calculation) (anchor now : StoredTime) : Option Float :=
  (c.elapsed anchor now).map fun d => Float.ofNat d.length.millis

namespace IsLawful

variable {c : Calculation}

/-- What a clock reads is what has elapsed. The comparison is what rules out a panic. -/
theorem exists_elapsed (h : c.IsLawful) (anchor now : StoredTime) :
    ∃ d, c.elapsed anchor now = some d ∧ d.length = (Anchor.mk anchor.time).elapsed now.time := by
  unfold elapsed
  by_cases hafter : c.isAfter now anchor = true
  · have hlt := h.isAfter_iff.mp hafter
    rw [if_pos hafter]
    rcases hsince : c.since now anchor with _ | d
    · exact absurd (h.since_eq_none hsince) (Int.lt_asymm hlt)
    · exact ⟨d, rfl, (Timestamp.since_of_add? (h.add_eq_some_iff.mp (h.add_of_since hsince))).symm⟩
  · have hle : ¬ anchor.time.nanos < now.time.nanos := fun hlt => hafter (h.isAfter_iff.mpr hlt)
    rw [if_neg hafter]
    refine ⟨_, rfl, ?_⟩
    rw [StoredSpan.length_zero, Anchor.elapsed, Timestamp.since,
      Int.toNat_of_nonpos (Int.sub_nonpos_of_le (Int.not_lt.mp hle))]

theorem elapsed_add (h : c.IsLawful) {anchor later : StoredTime} {d : StoredSpan}
    (hadd : c.add anchor d = some later) : c.elapsed anchor later = some d := by
  rcases h.exists_elapsed anchor later with ⟨e, he, hlength⟩
  rw [Anchor.elapsed, Timestamp.since_of_add? (h.add_eq_some_iff.mp hadd)] at hlength
  rw [he, StoredSpan.ext_length hlength]

theorem value_eq (h : c.IsLawful) (anchor now : StoredTime) {s : SimulatedTime}
    (hnow : s.now = now.time) : c.value anchor now = some (s.value ⟨anchor.time⟩) := by
  rcases h.exists_elapsed anchor now with ⟨d, hd, hlength⟩
  rw [value, hd, Option.map_some, hlength, SimulatedTime.value, hnow]

theorem tick_iff (h : c.IsLawful) {now next : StoredTime} {s : SimulatedTime}
    (hnow : s.now = now.time) :
    c.add now .tick = some next ↔ s.tick? = some { s with now := next.time } := by
  rw [h.add_eq_some_iff, SimulatedTime.tick?, hnow, StoredSpan.length_tick,
    Option.map_eq_some_iff]
  simp only [SimulatedTime.mk.injEq, and_true, exists_eq_right]

end IsLawful

/-! ### Carrying and borrowing -/

/-- Seconds wrap around when a duration is added. They do so just if the sum is less. -/
theorem toInt_add_cases (s : Int64) (n : UInt64) :
    (s + n.toInt64 < s ∧ 2 ^ 63 ≤ s.toInt + n.toNat) ∨
    (¬ s + n.toInt64 < s ∧ (s + n.toInt64).toInt = s.toInt + n.toNat) := by
  have hn : n.toInt64.toInt = (n.toNat : Int).bmod (2 ^ 64) := BitVec.toInt_eq_toNat_bmod _
  have hlt := n.toNat_lt
  have hfirst := s.le_toInt
  have hend := s.toInt_lt
  rw [Int64.lt_iff_toInt_lt, Int64.toInt_add, hn, Int.add_bmod_bmod, Int.bmod_def]
  split <;> omega

/-- Seconds do not wrap around when a unit is added or subtracted, apart from the two ends. -/
theorem toInt_succ {s : Int64} (h : s ≠ Int64.maxValue) : (s + 1).toInt = s.toInt + 1 := by
  have hlast : s.toInt ≠ 2 ^ 63 - 1 := fun heq => h (Int64.toInt_inj.mp heq)
  have hfirst := s.le_toInt
  have hend := s.toInt_lt
  rw [Int64.toInt_add, Int64.toInt_one, Int.bmod_eq_of_le] <;> omega

theorem toInt_pred {s : Int64} (h : s ≠ Int64.minValue) : (s - 1).toInt = s.toInt - 1 := by
  have hleast : s.toInt ≠ -2 ^ 63 := fun heq => h (Int64.toInt_inj.mp heq)
  have hfirst := s.le_toInt
  have hend := s.toInt_lt
  rw [Int64.toInt_sub, Int64.toInt_one, Int.bmod_eq_of_le] <;> omega

/-- The difference of two signed words is right as an unsigned one, even if it wraps around. -/
theorem toNat_sub {s t : Int64} (h : ¬ s < t) :
    ((s - t).toUInt64.toNat : Int) = s.toInt - t.toInt := by
  have hsame : (s - t).toInt = ((s - t).toUInt64.toNat : Int).bmod (2 ^ 64) :=
    BitVec.toInt_eq_toNat_bmod _
  rw [Int64.toInt_sub] at hsame
  have hrest := congrArg (· % ((2 ^ 64 : Nat) : Int)) hsame
  simp only [Int.bmod_emod] at hrest
  rw [Int64.lt_iff_toInt_lt] at h
  have hlt := (s - t).toUInt64.toNat_lt
  have hs := s.toInt_lt
  have ht := t.le_toInt
  omega

theorem toNat_second : (1000000000 : UInt32).toNat = 1000000000 := rfl

theorem subsec_sub {s t : UInt32} (h : t ≤ s) (hs : s.toNat < 1000000000) :
    (s - t).toNat = s.toNat - t.toNat ∧ (s - t).toNat < 1000000000 := by
  have hsub := UInt32.toNat_sub_of_le s t h
  omega

/-- A second is borrowed. -/
theorem subsec_borrow {s t : UInt32} (h : s < t) (ht : t.toNat < 1000000000) :
    (s + 1000000000 - t).toNat = s.toNat + 1000000000 - t.toNat ∧
      (s + 1000000000 - t).toNat < 1000000000 := by
  rw [UInt32.lt_iff_toNat_lt] at h
  have hadd : (s + 1000000000).toNat = s.toNat + 1000000000 := by
    rw [UInt32.toNat_add, toNat_second]
    omega
  have hsub := UInt32.toNat_sub_of_le (s + 1000000000) t (by
    rw [UInt32.le_iff_toNat_le]
    omega)
  omega

theorem subsec_add {s t : UInt32} (hs : s.toNat < 1000000000) (ht : t.toNat < 1000000000) :
    (s + t).toNat = s.toNat + t.toNat := by
  rw [UInt32.toNat_add]
  omega

/-- A second is carried over. -/
theorem subsec_carry {s t : UInt32} (hs : s.toNat < 1000000000) (ht : t.toNat < 1000000000)
    (h : ¬ s + t < 1000000000) :
    (s + t - 1000000000).toNat = s.toNat + t.toNat - 1000000000 ∧
      (s + t - 1000000000).toNat < 1000000000 := by
  have hadd := subsec_add hs ht
  have hsub := UInt32.toNat_sub_of_le (s + t) 1000000000 (UInt32.not_lt.mp h)
  rw [toNat_second] at hsub
  rw [UInt32.lt_iff_toNat_lt, toNat_second] at h
  omega

/-- Seconds are subtracted from seconds, if they are not more. -/
def sinceSeconds (seconds earlier : Int64) (subsec : UInt32) (h : subsec.toNat < 1000000000) :
    Option StoredSpan :=
  if seconds < earlier then none else some ⟨(seconds - earlier).toUInt64, subsec, h⟩

/-- A calculation on the words, which carries from one to the other and borrows from it. -/
def byWords : Calculation where
  isAfter s t := decide (t.seconds < s.seconds ∨ t.seconds = s.seconds ∧ t.subsec < s.subsec)
  since t earlier :=
    if h : t.subsec < earlier.subsec then
      if t.seconds = Int64.minValue then none
      else
        sinceSeconds (t.seconds - 1) earlier.seconds (t.subsec + 1000000000 - earlier.subsec)
          (subsec_borrow h earlier.lt).2
    else
      sinceSeconds t.seconds earlier.seconds (t.subsec - earlier.subsec)
        (subsec_sub (UInt32.not_lt.mp h) t.lt).2
  add t d :=
    let seconds := t.seconds + d.seconds.toInt64
    if seconds < t.seconds then none
    else if h : t.subsec + d.subsec < 1000000000 then some ⟨seconds, t.subsec + d.subsec, h⟩
    else if seconds = Int64.maxValue then none
    else some ⟨seconds + 1, t.subsec + d.subsec - 1000000000, (subsec_carry t.lt d.lt h).2⟩

theorem sinceSeconds_cases (seconds earlier : Int64) (subsec : UInt32)
    (h : subsec.toNat < 1000000000) :
    (sinceSeconds seconds earlier subsec h = none ∧ seconds.toInt < earlier.toInt) ∨
    ∃ d, sinceSeconds seconds earlier subsec h = some d ∧
      (d.length.nanos : Int) = (seconds.toInt - earlier.toInt) * 1000000000 + subsec.toNat := by
  unfold sinceSeconds
  split
  · next hlt => exact .inl ⟨rfl, Int64.lt_iff_toInt_lt.mp hlt⟩
  · next hle =>
    refine .inr ⟨_, rfl, ?_⟩
    have hseconds := toNat_sub hle
    simp only [StoredSpan.length, Duration.ofParts]
    omega

/-- What is subtracted is the difference, if it is not negative. -/
theorem since_byWords (t earlier : StoredTime) :
    (byWords.since t earlier = none ∧ t.time < earlier.time) ∨
    ∃ d, byWords.since t earlier = some d ∧ earlier.time.add? d.length = some t.time := by
  change (_ ∧ t.time.nanos < earlier.time.nanos) ∨ _
  simp only [Timestamp.add?_eq_some, byWords, StoredTime.time]
  have ht := t.lt
  have hearlier := earlier.lt
  split
  · next hborrow =>
    have hsubsec := (subsec_borrow hborrow earlier.lt).1
    rw [UInt32.lt_iff_toNat_lt] at hborrow
    split
    · next hfirst =>
      have hle := earlier.seconds.le_toInt
      rw [hfirst, Int64.toInt_minValue]
      exact .inl ⟨rfl, by omega⟩
    · next hmore =>
      have hseconds := toInt_pred hmore
      rcases sinceSeconds_cases (t.seconds - 1) earlier.seconds _
        (subsec_borrow hborrow earlier.lt).2 with ⟨hnone, hlt⟩ | ⟨d, hd, hlength⟩
      · exact .inl ⟨hnone, by omega⟩
      · exact .inr ⟨d, hd, by omega⟩
  · next hle =>
    have hsubsec := (subsec_sub (UInt32.not_lt.mp hle) t.lt).1
    rw [UInt32.lt_iff_toNat_lt] at hle
    rcases sinceSeconds_cases t.seconds earlier.seconds _
      (subsec_sub (UInt32.not_lt.mp hle) t.lt).2 with ⟨hnone, hlt⟩ | ⟨d, hd, hlength⟩
    · exact .inl ⟨hnone, by omega⟩
    · exact .inr ⟨d, hd, by omega⟩

/-- What is added is the sum, if it is in range. -/
theorem add_byWords (t : StoredTime) (d : StoredSpan) :
    (byWords.add t d = none ∧ t.time.add? d.length = none) ∨
    ∃ later, byWords.add t d = some later ∧ t.time.add? d.length = some later.time := by
  have hsubsec := subsec_add t.lt d.lt
  have ht := t.lt
  have hd := d.lt
  simp only [byWords, Timestamp.add?_eq_some, Timestamp.add?_eq_none, StoredTime.time,
    StoredSpan.length, Duration.ofParts]
  rcases toInt_add_cases t.seconds d.seconds with ⟨hwrapped, hmore⟩ | ⟨hexact, hseconds⟩
  · rw [if_pos hwrapped]
    exact .inl ⟨rfl, by omega⟩
  rw [if_neg hexact]
  split
  · exact .inr ⟨_, rfl, by simp only; omega⟩
  · next hcarry =>
    have hrest := (subsec_carry t.lt d.lt hcarry).1
    rw [UInt32.lt_iff_toNat_lt, toNat_second] at hcarry
    split
    · next hlast =>
      rw [hlast, Int64.toInt_maxValue] at hseconds
      exact .inl ⟨rfl, by omega⟩
    · next hroom =>
      have hnext := toInt_succ hroom
      exact .inr ⟨_, rfl, by simp only; omega⟩

theorem isLawful_byWords : byWords.IsLawful where
  isAfter_iff {s t} := by
    change _ ↔ t.time.nanos < s.time.nanos
    have hs := s.lt
    have ht := t.lt
    simp only [byWords, decide_eq_true_eq, StoredTime.time, Int64.lt_iff_toInt_lt,
      ← Int64.toInt_inj, UInt32.lt_iff_toNat_lt]
    omega
  add_eq_some_iff {t later d} := by
    rcases add_byWords t d with ⟨hadd, hsum⟩ | ⟨sum, hadd, hsum⟩
    · rw [hadd, hsum]
      exact iff_of_false (Option.some_ne_none _).symm (Option.some_ne_none _).symm
    · rw [hadd, hsum, Option.some.injEq, Option.some.injEq]
      exact ⟨congrArg StoredTime.time, StoredTime.ext_time⟩
  since_eq_none {t earlier} hnone := by
    rcases since_byWords t earlier with ⟨-, hlt⟩ | ⟨d, hd, -⟩
    · exact hlt
    · exact absurd (hnone.symm.trans hd) (Option.some_ne_none d).symm
  add_of_since {t earlier d} hsince := by
    rcases since_byWords t earlier with ⟨hnone, -⟩ | ⟨d', hd, hsum⟩
    · exact absurd (hnone.symm.trans hsince) (Option.some_ne_none d).symm
    · rcases Option.some.inj (hd.symm.trans hsince) with rfl
      rcases add_byWords earlier d' with ⟨-, hover⟩ | ⟨sum, hadd, hsum'⟩
      · exact absurd (hover.symm.trans hsum) (Option.some_ne_none _).symm
      · rw [hadd, StoredTime.ext_time (Option.some.inj (hsum'.symm.trans hsum))]

/-! ### Readings -/

/-- Readings are exact, from any time to any other. -/
structure IsExact (c : Calculation) : Prop where
  /-- No reading panics. It is the difference of the times if the clock was reset before, and
      zero if it was not. -/
  elapsed (anchor now : StoredTime) : ∃ d, c.elapsed anchor now = some d ∧
    (d.length.nanos : Int) =
      if anchor.time < now.time then now.time.nanos - anchor.time.nanos else 0
  /-- A duration that can be added is what has elapsed then. -/
  elapsed_add (anchor later : StoredTime) (d : StoredSpan) :
    anchor.time.add? d.length = some later.time →
      c.add anchor d = some later ∧ c.elapsed anchor later = some d
  elapsed_mono (anchor now later : StoredTime) : now.time ≤ later.time →
    ∃ d e, c.elapsed anchor now = some d ∧ c.elapsed anchor later = some e ∧
      d.length.nanos ≤ e.length.nanos
  /-- What simulated time does with times, it does with stored times. -/
  simulated (s : SimulatedTime) (anchor now : StoredTime) : s.now = now.time →
    c.value anchor now = some (s.value ⟨anchor.time⟩) ∧
    ∀ next, c.add now .tick = some next ↔ s.tick? = some { s with now := next.time }
  /-- With each tick a clock that was reset before counts one more millisecond. -/
  tick (s next : SimulatedTime) (x : Anchor) : s.tick? = some next → x.moment ≤ s.now →
    ∃ k, s.Counts x k ∧ next.Counts x (k + 1)

theorem readings_are_exact {c : Calculation} (h : c.IsLawful) : c.IsExact where
  elapsed anchor now := by
    rcases h.exists_elapsed anchor now with ⟨d, hd, hlength⟩
    refine ⟨d, hd, ?_⟩
    rw [hlength]
    change ((now.time.nanos - anchor.time.nanos).toNat : Int) =
      if anchor.time.nanos < now.time.nanos then _ else _
    split <;> omega
  elapsed_add anchor later d hsum := by
    have hadd := h.add_eq_some_iff.mpr hsum
    exact ⟨hadd, h.elapsed_add hadd⟩
  elapsed_mono anchor now later hle := by
    rcases h.exists_elapsed anchor now with ⟨d, hd, hlength⟩
    rcases h.exists_elapsed anchor later with ⟨e, he, hlength'⟩
    refine ⟨d, e, hd, he, ?_⟩
    rw [hlength, hlength']
    exact Int.toNat_le_toNat (Int.sub_le_sub_right hle _)
  simulated s anchor now hnow := ⟨h.value_eq anchor now hnow, fun _ => h.tick_iff hnow⟩
  tick s next x htick hle := by
    rcases SimulatedTime.exists_counts hle with ⟨k, hk⟩
    exact ⟨k, hk, hk.tick htick⟩

theorem readings_are_exact_byWords : byWords.IsLawful ∧ byWords.IsExact ∧
    byWords.elapsed .first .last = some ⟨18446744073709551615, 999999999, by decide⟩ :=
  ⟨isLawful_byWords, readings_are_exact isLawful_byWords,
    ((readings_are_exact isLawful_byWords).elapsed_add .first .last
      ⟨18446744073709551615, 999999999, by decide⟩
      (isLawful_byWords.add_eq_some_iff.mp (by decide +kernel))).2⟩

end Calculation

end Testbench
