import Mathlib.Data.List.Basic
import Testbench.Time.Published

/-!
# Reading Stamps

A stamp can be read back. After the year everything in it has a fixed width, so the year is
what is left when twenty characters are taken off the end, however many digits it has. The
date is then turned into a number of days, and the time of day is added to it. What is lost
is what is beyond the last whole millisecond, and nothing else: fractions are cut off, also
before the epoch, so each stamp is that of one millisecond.

## Main definitions

* `readStamp`: The seconds and the milliseconds beyond them that a stamp tells.

## Theorems

* `length_padded`, `ofDigitChars_padded`: A number of a fixed width.
* `Date.ofDays_lt`: Months and days have two digits at most.
* `Timestamp.readStamp_stamp`: What is read is what was written.
* `Timestamp.stamp_eq_iff`: Two moments have the same stamp just if they are in the same
  millisecond.
-/

namespace Testbench

/-! ### Numbers -/

theorem toList_padded (width n : Nat) :
    (padded width n).toList
      = List.replicate (width - (Nat.toDigits 10 n).length) '0' ++ Nat.toDigits 10 n := by
  rw [padded, String.toList_ofList, List.leftpad]

theorem length_padded {width n : Nat} (h : (Nat.toDigits 10 n).length ≤ width) :
    (padded width n).toList.length = width := by
  rw [toList_padded, List.length_append, List.length_replicate]
  omega

theorem ofDigitChars_padded (width n : Nat) :
    Nat.ofDigitChars 10 (padded width n).toList 0 = n := by
  rw [toList_padded, Nat.ofDigitChars_append, Nat.ofDigitChars_replicate_zero, Nat.mul_zero]
  exact Nat.ofDigitChars_toDigits (by decide) (by decide)

theorem isDigit_of_mem_padded {width n : Nat} {c : Char} (h : c ∈ (padded width n).toList) :
    c.isDigit = true := by
  rw [toList_padded] at h
  rcases List.mem_append.mp h with hzero | hdigit
  · rw [List.eq_of_mem_replicate hzero]
    rfl
  · exact Nat.isDigit_of_mem_toDigits (by decide) (by decide) hdigit

/-- Two characters, and three. -/
theorem exists_padded_two {n : Nat} (hn : n < 100) :
    ∃ a b, (padded 2 n).toList = [a, b] ∧ Nat.ofDigitChars 10 [a, b] 0 = n := by
  have hlength : (Nat.toDigits 10 n).length ≤ 2 :=
    (Nat.length_toDigits_le_iff (by decide) (by decide)).mpr hn
  rcases List.length_eq_two.mp (length_padded hlength) with ⟨a, b, hab⟩
  exact ⟨a, b, hab, hab ▸ ofDigitChars_padded 2 n⟩

theorem exists_padded_three {n : Nat} (hn : n < 1000) :
    ∃ a b c, (padded 3 n).toList = [a, b, c] ∧ Nat.ofDigitChars 10 [a, b, c] 0 = n := by
  have hlength : (Nat.toDigits 10 n).length ≤ 3 :=
    (Nat.length_toDigits_le_iff (by decide) (by decide)).mpr hn
  rcases List.length_eq_three.mp (length_padded hlength) with ⟨a, b, c, habc⟩
  exact ⟨a, b, c, habc, habc ▸ ofDigitChars_padded 3 n⟩

/-! ### Years and dates -/

def readYear : List Char → Int
  | '-' :: digits => -(Nat.ofDigitChars 10 digits 0 : Int)
  | digits => Nat.ofDigitChars 10 digits 0

theorem readYear_yearText (year : Int) :
    readYear (Timestamp.yearText year).toList = year := by
  have hdigits := ofDigitChars_padded 4 year.natAbs
  unfold Timestamp.yearText
  rw [String.toList_append]
  by_cases hneg : year < 0
  · rw [if_pos hneg]
    change -((Nat.ofDigitChars 10 (padded 4 year.natAbs).toList 0 : Nat) : Int) = year
    omega
  · rw [if_neg hneg]
    change readYear (padded 4 year.natAbs).toList = year
    unfold readYear
    split
    · next digits hsign =>
      have hsign' := isDigit_of_mem_padded (hsign ▸ List.mem_cons_self : '-' ∈ _)
      exact absurd hsign' (by decide)
    · omega

namespace Date

theorem ofDayOfYear_lt (year : Int) {day : Nat} (h : day < 366) :
    (ofDayOfYear year day).month < 100 ∧ (ofDayOfYear year day).day < 100 := by
  have hmonth : (5 * day + 2) / 153 < 12 := by omega
  simp only [ofDayOfYear]
  split
  · exact ⟨by simp only; omega, by simp only; omega⟩
  · exact ⟨by simp only; omega, by simp only; omega⟩

theorem ofDays_lt (days : Int) : (ofDays days).month < 100 ∧ (ofDays days).day < 100 := by
  unfold ofDays
  exact ofDayOfYear_lt _ (by omega)

end Date

/-! ### Stamps -/

/-- The number that some characters at a fixed place are the digits of. -/
def numberAt (text : List Char) (start width : Nat) : Nat :=
  Nat.ofDigitChars 10 ((text.drop start).take width) 0

/-- The seconds that the parts of a stamp tell, and the milliseconds beyond them. -/
def readParts (year rest : List Char) : Int × Nat :=
  let date : Date := ⟨readYear year, numberAt rest 1 2, numberAt rest 4 2⟩
  (date.toDays * 86400 + numberAt rest 7 2 * 3600 + numberAt rest 10 2 * 60 + numberAt rest 13 2,
    numberAt rest 16 3)

/-- A stamp begins with a blank and a bracket. All that follows the year has a fixed width. -/
def readStamp (stamp : String) : Int × Nat :=
  let text := stamp.toList.drop 2
  readParts (text.take (text.length - 20)) (text.drop (text.length - 20))

theorem readStamp_of_toList {stamp : String} {year rest : List Char}
    (h : stamp.toList = ' ' :: '[' :: (year ++ rest)) (hrest : rest.length = 20) :
    readStamp stamp = readParts year rest := by
  unfold readStamp
  rw [h]
  simp only [List.drop_succ_cons, List.drop_zero, List.length_append, hrest, Nat.add_sub_cancel,
    List.take_left, List.drop_left]

namespace Timestamp

theorem subsec_lt (t : Timestamp) : t.subsec < 1000000000 := by
  unfold subsec
  omega

/-- What is read is what was written. -/
theorem readStamp_stamp (t : Timestamp) :
    readStamp t.stamp = (t.seconds, t.subsec / 1000000) := by
  have hsubsec := t.subsec_lt
  have hday : t.secondOfDay < 86400 := by
    unfold secondOfDay
    omega
  rcases exists_padded_two (Date.ofDays_lt (t.seconds / 86400)).1 with ⟨m₁, m₂, hmonth, hmonth'⟩
  rcases exists_padded_two (Date.ofDays_lt (t.seconds / 86400)).2 with ⟨d₁, d₂, hdate, hdate'⟩
  rcases exists_padded_two (n := t.secondOfDay / 3600) (by omega) with ⟨h₁, h₂, hhour, hhour'⟩
  rcases exists_padded_two (n := t.secondOfDay / 60 % 60) (by omega) with ⟨n₁, n₂, hmin, hmin'⟩
  rcases exists_padded_two (n := t.secondOfDay % 60) (by omega) with ⟨s₁, s₂, hsec, hsec'⟩
  rcases exists_padded_three (n := t.subsec / 1000000) (by omega) with
    ⟨f₁, f₂, f₃, hmilli, hmilli'⟩
  have htext : t.stamp.toList = ' ' :: '[' :: ((yearText t.date.year).toList ++
      ['-', m₁, m₂, '-', d₁, d₂, ' ', h₁, h₂, ':', n₁, n₂, ':', s₁, s₂, '.', f₁, f₂, f₃, ']']) := by
    simp only [stamp, clockText, String.toList_append, date, hmonth, hdate, hhour, hmin, hsec,
      hmilli, List.append_assoc]
    rfl
  have hdays : (⟨t.date.year, t.date.month, t.date.day⟩ : Date).toDays = t.seconds / 86400 :=
    Date.toDays_ofDays _
  rw [readStamp_of_toList htext rfl]
  simp only [readParts, numberAt, List.drop_succ_cons, List.drop_zero, List.take_succ_cons,
    List.take_zero, readYear_yearText, hmonth', hdate', hhour', hmin', hsec', hmilli']
  rw [Prod.mk.injEq]
  refine ⟨?_, rfl⟩
  change Date.toDays ⟨t.date.year, t.date.month, t.date.day⟩ * 86400 + _ + _ + _ = _
  rw [hdays]
  unfold secondOfDay
  omega

/-- A stamp depends on whole seconds and milliseconds only. -/
theorem stamp_congr {s t : Timestamp} (hseconds : s.seconds = t.seconds)
    (hmillis : s.subsec / 1000000 = t.subsec / 1000000) : s.stamp = t.stamp := by
  simp only [stamp, clockText, date, secondOfDay, hseconds, hmillis]

/-- Two moments have the same stamp just if they are in the same millisecond. -/
theorem stamp_eq_iff {s t : Timestamp} :
    s.stamp = t.stamp ↔ s.nanos / 1000000 = t.nanos / 1000000 := by
  have hparts : (s.seconds = t.seconds ∧ s.subsec / 1000000 = t.subsec / 1000000) ↔
      s.nanos / 1000000 = t.nanos / 1000000 := by
    unfold seconds subsec
    omega
  rw [← hparts]
  constructor
  · intro h
    have hread := congrArg readStamp h
    rw [readStamp_stamp, readStamp_stamp, Prod.mk.injEq] at hread
    exact hread
  · rintro ⟨hseconds, hmillis⟩
    exact stamp_congr hseconds hmillis

/-- A stamp from before a millisecond is not one from after it. -/
theorem stamp_ne_of_lt {s t : Timestamp} (h : s.nanos + 1000000 ≤ t.nanos) : s.stamp ≠ t.stamp := by
  rw [ne_eq, stamp_eq_iff]
  omega

end Timestamp

end Testbench
