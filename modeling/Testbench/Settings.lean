import Testbench.Bench

/-!
# Settings

What a bench is set up with: the length of a time unit and which policy time
follows. A time unit has to be a positive, finite number of milliseconds, also when
time is simulated and nothing depends on it.

A bench starts with its virtual time at the epoch. Its system under test starts
with a clock that is reset at that moment, in the time that the policy measures.

## Main definitions

* `Settings`: The two choices.
* `Settings.isValid`: The time unit can be used.
* `Settings.setUp`: A bench, unless the settings are invalid.
-/

namespace Testbench

/-- The usual length of a time unit, in milliseconds. -/
def defaultTimeUnit : Float := 1000.0

structure Settings where
  /-- Milliseconds in a time unit. -/
  timeUnit : Float := defaultTimeUnit
  simulate : Bool := false

namespace Settings

def isValid (settings : Settings) : Bool := settings.timeUnit.isFinite && settings.timeUnit > 0.0

/-- The virtual time of a bench that has not been started. -/
def virtualStart : Timestamp := Timestamp.epoch

def policy (settings : Settings) : Policy :=
  if settings.simulate then .simulated (.startingAt virtualStart)
  else .realTime ⟨settings.timeUnit⟩

/-- A bench around an inbox, an environment and a wall clock. -/
def setUp {ε σ : Type} (settings : Settings) (inbox : Inbox Unit) (wall : Timestamp)
    (environment : ε) (journal : Journal) (initial : Anchor → σ) : Except InitError (Bench ε σ) :=
  if settings.isValid then
    let start := if settings.simulate then virtualStart else wall
    let bench : Bench ε σ :=
      { inbox, hasOutput := false, policy := settings.policy, phase := .running
        virtualTime := virtualStart, wall, wake := .asleep, environment
        system := initial ⟨start⟩, written := [], journal }
    .ok (bench.note (.initialized settings.simulate settings.timeUnit))
  else .error (.invalidTimeUnit settings.timeUnit)

instance : Inspect Settings where
  inspect settings := Inspect.excerpt "DriverInit"
    [("time_unit", inspect settings.timeUnit), ("simulate", inspect settings.simulate)]

end Settings

end Testbench
