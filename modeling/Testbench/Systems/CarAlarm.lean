import Testbench.Program
import Testbench.Time.Written

/-!
# The Car Alarm

An alarm that arms itself twenty time units after the car was closed and locked.
Opening an armed car sets off the sound for thirty time units and the flash for
three hundred, unless the car is unlocked in the meantime. When the alarm has run
its course, closing the car arms it again at once; if nothing happens for four
hundred time units after that, it disarms itself.

The inputs are `close`, `open`, `lock` and `unlock`, and each location accepts only
those that change the door or the lock. There is one clock. The outputs come in
pairs of on and off for armed, flash and sound.

The automaton reads its input before it decides, so an input that a location does
not accept is consumed and reported. Locations that owe an output give it before
they look at any input.

## Main definitions

* `CarAlarm.Location`: The locations of the automaton.
* `CarAlarm`: A location, the clock, and whether the alarm was armed a second time.
* `CarAlarm.next`: The location after at most one transition.
* `CarAlarm.system`: The alarm as a system under test.
-/

namespace Testbench

inductive CarAlarm.Location
  | openUnlocked
  | closedUnlocked
  | openLocked
  /-- Closed and locked, until the alarm is armed. -/
  | arming
  | armed
  /-- Unlocked while armed; the alarm is about to disarm. -/
  | disarming
  /-- Opened while armed; the alarm is about to go off. -/
  | triggered
  | sounding
  /-- Unlocked while the alarm was on; it is about to stop. -/
  | stopping
  /-- Flashing without sound. -/
  | flashing
  /-- The alarm has run its course. -/
  | silent
  /-- Closed after the alarm; about to be armed again. -/
  | rearming
  deriving DecidableEq, Repr, Inhabited

namespace CarAlarm

instance : Inspect Location where
  inspect
    | .openUnlocked => "L0"
    | .closedUnlocked => "L1"
    | .openLocked => "L2"
    | .arming => "L3"
    | .armed => "L4"
    | .disarming => "L5"
    | .triggered => "L6"
    | .sounding => "L9"
    | .stopping => "L10"
    | .flashing => "L11"
    | .silent => "L12"
    | .rearming => "L13"

end CarAlarm

structure CarAlarm where
  location : CarAlarm.Location
  x : Anchor
  /-- The alarm was armed again after it had gone off. -/
  alarmLocked : Bool
  deriving DecidableEq

instance : Inspect CarAlarm where
  inspect a := Inspect.record "CarAlarm"
    [("location", inspect a.location), ("x", inspect a.x), ("alarm_locked", inspect a.alarmLocked)]

namespace CarAlarm

open Location Procedure

def armingDelay : Float := 20.0

def soundDuration : Float := 30.0

def flashDuration : Float := 300.0

def rearmingDelay : Float := 400.0

def resetClock : Procedure CarAlarm Unit := do
  let x ← resetTime
  modify fun a => { a with x }

def clock : Procedure CarAlarm Float := do value (← get).x

def refuse (input : Line) : Procedure CarAlarm (Option Location) := do
  throw (.unexpected (← get).location input)

/-- The next location, or none if the alarm is quiescent. -/
def next : Procedure CarAlarm (Option Location) := do
  match (← get).location with
  | openUnlocked =>
    match ← nextInput? with
    | none => return none
    | some ⟨"close"⟩ => return closedUnlocked
    | some ⟨"lock"⟩ => return openLocked
    | some input => refuse input
  | closedUnlocked =>
    match ← nextInput? with
    | none => return none
    | some ⟨"open"⟩ => return openUnlocked
    | some ⟨"lock"⟩ =>
      resetClock
      return arming
    | some input => refuse input
  | openLocked =>
    match ← nextInput? with
    | none => return none
    | some ⟨"unlock"⟩ => return openUnlocked
    | some ⟨"close"⟩ =>
      resetClock
      return arming
    | some input => refuse input
  | arming =>
    if (← clock) ≥ armingDelay then
      write "armedOn"
      modify fun a => { a with alarmLocked := false }
      return armed
    else
      match ← nextInput? with
      | none => return none
      | some ⟨"unlock"⟩ => return closedUnlocked
      | some ⟨"open"⟩ => return openLocked
      | some input => refuse input
  | armed =>
    match ← nextInput? with
    | none =>
      if !(← get).alarmLocked then return none
      if (← clock) > rearmingDelay then
        resetClock
        write "armedOff"
        return closedUnlocked
      else return none
    | some ⟨"unlock"⟩ =>
      resetClock
      return disarming
    | some ⟨"open"⟩ =>
      resetClock
      return triggered
    | some input => refuse input
  | disarming =>
    write "armedOff"
    return closedUnlocked
  | triggered =>
    writeAll ["armedOff", "flashOn", "soundOn"]
    return sounding
  | sounding =>
    if (← clock) > soundDuration then
      write "soundOff"
      return flashing
    else
      match ← nextInput? with
      | none => return none
      | some ⟨"unlock"⟩ =>
        resetClock
        return stopping
      | some input => refuse input
  | stopping =>
    writeAll ["soundOff", "flashOff"]
    return openUnlocked
  | flashing =>
    if (← clock) > flashDuration then
      writeAll ["soundOff", "flashOff"]
      return silent
    else
      match ← nextInput? with
      | none => return none
      | some ⟨"unlock"⟩ =>
        resetClock
        return stopping
      | some input => refuse input
  | silent =>
    match ← nextInput? with
    | none => return none
    | some ⟨"close"⟩ =>
      resetClock
      return rearming
    | some ⟨"unlock"⟩ => return openUnlocked
    | some input => refuse input
  | rearming =>
    write "armedOn"
    modify fun a => { a with alarmLocked := true }
    return armed

def update : Procedure CarAlarm Progress := do
  match ← next with
  | none => return .quiescent
  | some location =>
    note "car alarm" [("from", inspect (← get).location), ("to", inspect location)]
    modify fun a => { a with location }
    return .transitioned

def system : System CarAlarm := ⟨fun x => ⟨openUnlocked, x, false⟩, update⟩

end CarAlarm

end Testbench
