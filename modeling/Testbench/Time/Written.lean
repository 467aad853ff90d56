import Testbench.Decimal.Number
import Testbench.Time
import Testbench.Time.Calendar

/-!
# Written Times

How durations and moments are written.

A duration is written in the largest unit of which it has at least one, with as
many decimal places as it needs. A moment is written as a date and a time of day.
In full, its fraction of a second has as many places as it needs; in a log stamp
it always has three, and further places are cut off, not rounded, so that a stamp
never lies in the future. Leap seconds do not occur.

## Main definitions

* `Timestamp.written`: A moment in full.
* `Timestamp.stamp`: A moment as the stamp of a log line.
-/

namespace Testbench

/-- A natural number with zeros in front up to a least width. -/
def padded (width n : Nat) : String :=
  String.ofList ((Nat.toDigits 10 n).leftpad width '0')

/-- A fraction of `10 ^ width`, after its point and without trailing zeros; nothing
    at all for zero. -/
def fraction (width n : Nat) : String :=
  let places := (((Nat.toDigits 10 n).leftpad width '0').reverse.dropWhile (· == '0')).reverse
  if places = [] then "" else String.ofList ('.' :: places)

instance : Inspect Duration where
  inspect d :=
    if 1000000000 ≤ d.nanos then
      Nat.repr (d.nanos / 1000000000) ++ fraction 9 (d.nanos % 1000000000) ++ "s"
    else if 1000000 ≤ d.nanos then
      Nat.repr (d.nanos / 1000000) ++ fraction 6 (d.nanos % 1000000) ++ "ms"
    else if 1000 ≤ d.nanos then
      Nat.repr (d.nanos / 1000) ++ fraction 3 (d.nanos % 1000) ++ "µs"
    else Nat.repr d.nanos ++ "ns"

namespace Timestamp

def date (t : Timestamp) : Date := Date.ofDays (t.seconds / 86400)

/-- Seconds since midnight. -/
def secondOfDay (t : Timestamp) : Nat := (t.seconds % 86400).toNat

/-- The year with at least four digits, after a minus sign before year zero. -/
def yearText (year : Int) : String :=
  (if year < 0 then "-" else "") ++ padded 4 year.natAbs

/-- Date and time of day up to whole seconds. -/
def clockText (t : Timestamp) : String :=
  yearText t.date.year ++ "-" ++ padded 2 t.date.month ++ "-" ++ padded 2 t.date.day ++ " "
    ++ padded 2 (t.secondOfDay / 3600) ++ ":" ++ padded 2 (t.secondOfDay / 60 % 60) ++ ":"
    ++ padded 2 (t.secondOfDay % 60)

def written (t : Timestamp) : String := t.clockText ++ fraction 9 t.subsec

def stamp (t : Timestamp) : String :=
  " [" ++ t.clockText ++ "." ++ padded 3 (t.subsec / 1000000) ++ "]"

instance : Inspect Timestamp where
  inspect t :=
    Inspect.record "TaiTime" [("secs", toString t.seconds), ("nanos", Nat.repr t.subsec)]

end Timestamp

instance : Inspect Anchor := ⟨fun x => Inspect.wrapped "Clock" (inspect x.moment)⟩

end Testbench
