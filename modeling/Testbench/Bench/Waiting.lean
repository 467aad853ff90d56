import Testbench.Bench

/-!
# Waiting for a Window

How a bench in simulated time gets a new window. It takes every directive out of
the inbox, wherever it is, and the earliest one decides; the others are dropped,
and all other lines keep their order. A malformed earliest directive is an error.

If there is no directive, the bench registers a listener for one and waits. Between
the search and the registration lines may arrive, so the registration looks once
more; from then on the listener cannot miss one. When it is called, a directive is
in the inbox and stays there, because only the bench takes lines out. When it is
given up, the inbox was closed without one, and the input has ended.

## Main definitions

* `Bench.openWindow`: Opens the window of the earliest directive, if there is one.
* `Bench.listen`: Waits for a directive to arrive.
* `Bench.waitForDelay`: Both, until a window is open.
-/

namespace Testbench

namespace Bench

variable {ε σ : Type} [Environment ε]

/-- The test for directives, which no line can break. -/
def wantsDirective : Predicate := fun line => .ok line.isDirective

/-- Grants a window and publishes it, unless its end cannot be represented. -/
def grant (s : SimulatedTime) (delay : Duration) : BenchM ε σ Unit := fun b =>
  match s.grant delay with
  | (.ok (), s) => (.ok (), { b with policy := .simulated s }.note (.windowOpened delay))
  | (.error fault, s) => (.error (.fault fault), { b with policy := .simulated s })

/-- Whether there was a directive to open a window with. -/
def openWindow (s : SimulatedTime) : BenchM ε σ Bool := do
  match ← extract wantsDirective with
  | [] => return false
  | directive :: superseded =>
    if superseded ≠ [] then
      modify (note (.directivesDiscarded superseded.length))
    match directive.delay? with
    | none => throw (.error (.malformedDelay directive))
    | some delay =>
      grant s delay
      return true

/-- Ends when the listener has been called, and with an error when it was given up. -/
def listen : BenchM ε σ Unit := fun b =>
  let b := { b.turn .access with wake := .asleep }
  match b.inbox.register ⟨wantsDirective, ()⟩ with
  | .error fault => (.error (.fault fault), b)
  | .ok (.satisfied, _) => (.ok (), b)
  | .ok (.refused, _) => (.error (.error .inputClosed), b)
  | .ok (.pending, inbox) =>
    let b := { b with inbox }.turn .waiting
    match b.wake with
    | .rung => (.ok (), b)
    | .released => (.error (.error .inputClosed), b)
    | .asleep => (.error .blocked, b)

def waitForDelay (s : SimulatedTime) : BenchM ε σ Unit := do
  if ← openWindow s then return
  listen
  -- The directive that ended the wait is still there.
  if ← openWindow s then return
  throw .blocked

end Bench

end Testbench
