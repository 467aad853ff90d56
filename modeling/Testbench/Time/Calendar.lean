/-!
# The Calendar

The proleptic Gregorian calendar with a year zero, over all days before and
after 1970-01-01.

A year is taken to begin on 1 March. The leap day is then the last day of its
year, so every cycle of the calendar (400 years, a century, four years, one year)
is a whole number of shorter cycles with at most one day appended at the very
end. `ofDays` peels the cycles off from the longest to the shortest; the appended
day is the only case in which the plain quotient would run one too far, and
`min` is what holds it back.

## Main definitions

* `Date`: A day by year, month and day of the month.
* `Date.ofDays`: The date a number of days after 1970-01-01.
* `Date.toDays`: The number of days from 1970-01-01 to a date.

## Theorems

* `Date.toDays_ofDays`: A date determines its day number.
-/

namespace Testbench

structure Date where
  year : Int
  month : Nat
  day : Nat
  deriving DecidableEq, Repr

namespace Date

/-- Days from 0000-03-01, the start of a 400-year cycle, to 1970-01-01. -/
def cycleOffset : Int := 719468

/-- The date in the year beginning on 1 March of `year`, by the day within it. -/
def ofDayOfYear (year : Int) (day : Nat) : Date :=
  let month := (5 * day + 2) / 153
  let dayOfMonth := day - (153 * month + 2) / 5 + 1
  if month < 10 then ⟨year, month + 3, dayOfMonth⟩ else ⟨year + 1, month - 9, dayOfMonth⟩

def ofDays (days : Int) : Date :=
  let cycle := (days + cycleOffset) / 146097
  let inCycle := ((days + cycleOffset) % 146097).toNat
  let century := min (inCycle / 36524) 3
  let inCentury := inCycle - century * 36524
  let four := inCentury / 1461
  let inFour := inCentury % 1461
  let year := min (inFour / 365) 3
  ofDayOfYear (cycle * 400 + century * 100 + four * 4 + year) (inFour - year * 365)

def toDays (d : Date) : Int :=
  let month := if d.month < 3 then d.month + 9 else d.month - 3
  let year := if d.month < 3 then d.year - 1 else d.year
  365 * year + year / 4 - year / 100 + year / 400
    + ((153 * month + 2) / 5 : Nat) + (d.day - 1 : Nat) - cycleOffset

theorem toDays_ofDayOfYear (year : Int) (day : Nat) (h : day < 366) :
    (ofDayOfYear year day).toDays
      = 365 * year + year / 4 - year / 100 + year / 400 + day - cycleOffset := by
  have hmonth : (153 * ((5 * day + 2) / 153) + 2) / 5 ≤ day := by omega
  by_cases hm : (5 * day + 2) / 153 < 10
  · rw [ofDayOfYear]
    simp only [hm, if_true, toDays]
    rw [if_neg (by omega), if_neg (by omega)]
    omega
  · have hlt : (5 * day + 2) / 153 < 12 := by omega
    rw [ofDayOfYear]
    simp only [hm, if_false, toDays]
    rw [if_pos (by omega), if_pos (by omega)]
    have hback : (5 * day + 2) / 153 - 9 + 9 = (5 * day + 2) / 153 := by omega
    rw [hback]
    omega

/-- Quotients of a year by the shorter cycles count the whole cycles in it. -/
theorem cycle_quotients (cycle : Int) (century four year : Nat) (hcentury : century ≤ 3)
    (hfour : four ≤ 24) (hyear : year ≤ 3) :
    (cycle * 400 + century * 100 + four * 4 + year) / 4 = cycle * 100 + century * 25 + four ∧
    (cycle * 400 + century * 100 + four * 4 + year) / 100 = cycle * 4 + century ∧
    (cycle * 400 + century * 100 + four * 4 + year) / 400 = cycle := by
  refine ⟨?_, ?_, ?_⟩ <;> omega

theorem toDays_ofDays (days : Int) : (ofDays days).toDays = days := by
  simp only [ofDays]
  generalize hcycle : (days + cycleOffset) / 146097 = cycle
  generalize hin : ((days + cycleOffset) % 146097).toNat = inCycle
  have hdays : days = cycle * 146097 + inCycle - cycleOffset := by
    simp only [cycleOffset] at hcycle hin ⊢
    omega
  have hlt : inCycle < 146097 := by omega
  have hcentury : min (inCycle / 36524) 3 ≤ 3 := Nat.min_le_right _ _
  have hcenturyLe : min (inCycle / 36524) 3 * 36524 ≤ inCycle :=
    Nat.le_trans (Nat.mul_le_mul_right _ (Nat.min_le_left _ _)) (Nat.div_mul_le_self _ _)
  have hcenturyRest : inCycle - min (inCycle / 36524) 3 * 36524 < 36525 := by omega
  generalize min (inCycle / 36524) 3 = century at *
  generalize hrest : inCycle - century * 36524 = inCentury at *
  have hfour : inCentury / 1461 ≤ 24 := by omega
  have hsplit : inCentury = inCentury / 1461 * 1461 + inCentury % 1461 := by omega
  have hfourLt : inCentury % 1461 < 1461 := by omega
  generalize inCentury / 1461 = four at *
  generalize inCentury % 1461 = inFour at *
  have hyear : min (inFour / 365) 3 ≤ 3 := Nat.min_le_right _ _
  have hyearLe : min (inFour / 365) 3 * 365 ≤ inFour :=
    Nat.le_trans (Nat.mul_le_mul_right _ (Nat.min_le_left _ _)) (Nat.div_mul_le_self _ _)
  have hyearRest : inFour - min (inFour / 365) 3 * 365 < 366 := by omega
  generalize min (inFour / 365) 3 = year at *
  rcases cycle_quotients cycle century four year hcentury hfour hyear with ⟨h4, h100, h400⟩
  rw [toDays_ofDayOfYear _ _ hyearRest, h4, h100, h400, hdays]
  omega

end Date

end Testbench
