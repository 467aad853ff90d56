import Testbench.Bench.Waiting

/-!
# Running

The step loop. A step updates the system under test until it is quiescent. Then
the policy settles when the next step begins: in real time after a sleep, in
simulated time at once or in the next window.

In simulated time a window closes as soon as a step has written something or the
granted time is used up. The time that passed in the window is reported, and the
bench waits for the next one before it takes another step. Otherwise virtual time
advances by a millisecond. So no clock threshold is ever stepped over, and time
stands still while the bench waits.

A run goes on until something stops it. The regular end of a simulated run is that
the bench waits for a window and the input is closed; every other stop is passed on
unchanged. As neither the updates in a step nor the steps in a run are bounded, both
loops take the greatest number that is allowed.

## Main definitions

* `Bench.start`: Waits until the first step may begin.
* `Bench.runStep`: One step.
* `Bench.settle`: Waits until the next step may begin.
* `Bench.drive`: Steps until something stops the bench.
* `Bench.run`: A whole test execution.
-/

namespace Testbench

namespace Bench

variable {ε σ : Type} [Environment ε]

def setPhase (phase : Phase) : BenchM ε σ Unit := modify fun b => { b with phase }

def start : BenchM ε σ Unit := do
  match (← get).policy with
  | .realTime _ => pure ()
  | .simulated s => waitForDelay s
  setPhase .running

/-- Updates up to the first quiescent one, after `count` transitions so far. -/
def transitions (update : BenchM ε σ Progress) :
    Nat → Nat → Bench ε σ → Except Halt Nat × Bench ε σ
  | 0, _, b => (.error .exhausted, b)
  | limit + 1, count, b =>
    match update b with
    | (.ok .transitioned, b) => transitions update limit (count + 1) b
    | (.ok .quiescent, b) => (.ok count, b)
    | (.error halt, b) => (.error halt, b)

/-- Answers with the number of transitions taken. -/
def runStep (update : BenchM ε σ Progress) (limit : Nat) : BenchM ε σ Nat := do
  setPhase .running
  let count ← transitions update limit 0
  setPhase .quiescent
  modify (note (.stepDone count))
  return count

def sleep (duration : Duration) : BenchM ε σ Unit := fun b =>
  match b.wall.add? duration with
  | some wall => (.ok (), { b with wall }.turn .slept)
  | none => (.error (.fault .timeOverflow), b)

/-- Closes the window: the report, and the wait for the next one. -/
def closeWindow (s : SimulatedTime) : BenchM ε σ Unit := do
  raising (deliver s.report)
  modify fun b => { b with hasOutput := false }.note (.windowClosed s.delayed)
  waitForDelay s

/-- Lets a millisecond of virtual time pass and publishes the new time. -/
def advance (s : SimulatedTime) : BenchM ε σ Unit := fun b =>
  match s.tick? with
  | some s => (.ok (),
      { b with policy := .simulated s, virtualTime := s.now }.note (.timeAdvanced s.now))
  | none => (.error (.fault .timeOverflow), b)

def settle : BenchM ε σ Unit := do
  setPhase .awaitingNextStep
  let b ← get
  match b.policy with
  | .realTime r => sleep r.pollPeriod
  | .simulated s => if b.hasOutput || s.isExhausted then closeWindow s else advance s
  setPhase .running

/-- A step and the wait after it. -/
def cycle (update : BenchM ε σ Progress) (limit : Nat) : BenchM ε σ Nat := do
  let count ← runStep update limit
  settle
  return count

/-- Cycles until something stops the bench, but no more than the given number. -/
def drive (update : BenchM ε σ Progress) (limit : Nat) : Nat → Bench ε σ → Halt × Bench ε σ
  | 0, b => (.exhausted, b)
  | steps + 1, b =>
    match cycle update limit b with
    | (.ok _, b) => drive update limit steps b
    | (.error halt, b) => (halt, b)

/-- A test execution of at most `steps` steps with at most `limit` updates each. -/
def run (update : BenchM ε σ Progress) (limit steps : Nat) : BenchM ε σ Unit := fun b =>
  let (halt, b) := match start b with
    | (.ok (), b) => drive update limit steps b
    | (.error halt, b) => (halt, b)
  match halt with
  | .error .inputClosed => (.ok (), b.note .inputEnded)
  | halt => (.error halt, b)

end Bench

end Testbench
