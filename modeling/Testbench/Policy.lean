import Testbench.Failure
import Testbench.Time.Written

/-!
# Time Policies

How time passes between the steps of a bench.

In real time, wall-clock time passes. A time unit lasts a given number of
milliseconds, and a quarter of it passes between steps.

In simulated time, a virtual time passes, in whole milliseconds and only within
windows that the test environment grants. A window is the moment it was opened and
the moment up to which it was granted. One time unit is one virtual millisecond.

## Main definitions

* `RealTime.pollPeriod`: The time between two steps.
* `SimulatedTime.tick?`: One millisecond of virtual time.
* `SimulatedTime.grant`: The opening of a window.
* `Policy`: Either of the two.
-/

namespace Testbench

structure RealTime where
  /-- Milliseconds in a time unit. -/
  unit : Float

namespace RealTime

/-- A quarter of a time unit. The unit and the quarter are both rounded down to
    whole milliseconds. -/
def pollPeriod (r : RealTime) : Duration := Duration.ofMillis (r.unit.toUInt64.toNat / 4)

/-- The reading of a clock in time units. Parts of a millisecond do not count. -/
def value (r : RealTime) (now : Timestamp) (clock : Anchor) : Float :=
  Float.ofNat (clock.elapsed now).millis / r.unit

instance : Inspect RealTime where
  inspect r := Inspect.excerpt "RealTime"
    [("time_unit", inspect r.unit), ("poll_period", inspect r.pollPeriod)]

end RealTime

structure SimulatedTime where
  now : Timestamp
  /-- The moment at which the last window was opened. -/
  opened : Timestamp
  /-- The moment up to which the last window was granted. -/
  limit : Timestamp
  deriving DecidableEq

namespace SimulatedTime

/-- No window has been granted yet. -/
def startingAt (t : Timestamp) : SimulatedTime := ⟨t, t, t⟩

def tick : Duration := Duration.ofMillis 1

def tick? (s : SimulatedTime) : Option SimulatedTime :=
  (s.now.add? tick).map fun now => { s with now }

/-- Opens a window of the given length, if its end can be represented. The moment
    of opening is noted in either case. -/
def grant (s : SimulatedTime) (delay : Duration) : Except Fault Unit × SimulatedTime :=
  match s.now.add? delay with
  | some limit => (.ok (), { s with opened := s.now, limit })
  | none => (.error .timeOverflow, { s with opened := s.now })

def isExhausted (s : SimulatedTime) : Bool := s.limit ≤ s.now

/-- The virtual time that has passed in the window. -/
def delayed (s : SimulatedTime) : Duration := s.now.since s.opened

/-- What the test environment is told when a window closes. -/
def report (s : SimulatedTime) : String := "Delayed: " ++ Nat.repr s.delayed.millis

def value (s : SimulatedTime) (clock : Anchor) : Float :=
  Float.ofNat (clock.elapsed s.now).millis

instance : Inspect SimulatedTime where
  inspect s := Inspect.excerpt "SimulatedTime"
    [("time", inspect s.now), ("delay_start", inspect s.opened), ("max_time", inspect s.limit)]

end SimulatedTime

inductive Policy
  | realTime (policy : RealTime)
  | simulated (policy : SimulatedTime)

end Testbench
