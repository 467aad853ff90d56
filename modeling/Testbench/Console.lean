import Testbench.Bench.Running
import Testbench.Environment.Scripted

/-!
# The Console

Working a bench by hand, one order at a time, to look into it between any two
operations. An order that fails leaves the bench in the state it had reached, and
the next order goes on from there.

The requests that concern lines and clocks can also be written down in advance as a
plan, which is then a system under test: each update carries out the next entry and
ends as the entry says. A plan that has come to its end is quiescent.

Anchors handed out by a reset are kept in the order of the resets and are referred
to by number.

## Main definitions

* `Request`, `Response`: A single operation and what it answers.
* `Plan`: A system that follows a written plan.
* `Order`: A request, or control of the step loop.
* `Session`: A bench at the console.
* `Session.obey`: Carries out an order.
-/

namespace Testbench

inductive Request
  | push (line : Line)
  | close
  | write (text : String)
  | writeAll (texts : List String)
  | extract (wants : Predicate)
  | ready
  | read
  | reset
  | value (clock : Nat)
  | phase
  | virtualTime
  /-- A request that the console does not know. -/
  | unknown

/-- How many steps of a series became quiescent, how many transitions they took in
    all and in the last one, and what ended the series early. -/
structure Tally where
  steps : Nat
  transitions : Nat
  last : Option Nat
  ending : Option ExecutionError

inductive Response
  | done
  | lines (lines : List Line)
  | flag (flag : Bool)
  | line (line : Line)
  | number (number : Float)
  | phase (phase : Phase)
  | moment (moment : Option Timestamp)
  | count (count : Nat)
  | progress (progress : Progress)
  | tally (tally : Tally)
  | text (text : String)
  /-- The execution has come to its regular end, or the wait is over. -/
  | completed
  | unknown

namespace Bench

variable {ε σ : Type} [Environment ε]

/-- Work that always succeeds. -/
private def observing {α : Type} (work : Bench ε σ → α × Bench ε σ) : BenchM ε σ α := fun b =>
  let (a, b) := work b
  (.ok a, b)

/-- Answers a request, given the anchors handed out so far. -/
def respond (clocks : List Anchor) : Request → BenchM ε σ (Response × List Anchor)
  | .push line => do
    modify fun b => b.receive true (.push line)
    return (.done, clocks)
  | .close => do
    modify fun b => b.receive true .close
    return (.done, clocks)
  | .write text => do
    raising (write text)
    return (.done, clocks)
  | .writeAll texts => do
    raising (writeAll texts)
    return (.done, clocks)
  | .extract wants => return (.lines (← extract wants), clocks)
  | .ready => return (.flag (← observing inputReady), clocks)
  | .read => return (.line (← raising read), clocks)
  | .reset => return (.done, clocks ++ [← observing reset])
  | .value clock =>
    match clocks[clock]? with
    | some x => return (.number (← observing (value x)), clocks)
    | none => throw (.fault .unknownClock)
  | .phase => return (.phase (← get).phase, clocks)
  | .virtualTime => return (.moment (← get).virtualTime?, clocks)
  | .unknown => return (.unknown, clocks)

end Bench

/-! ### Plans -/

/-- How an entry of a plan ends. -/
inductive Plan.Ending
  | transitioned
  | quiescent
  | unexpected (location : String) (input : Line)

structure Plan.Entry where
  requests : List Request
  ending : Plan.Ending

structure Plan where
  entries : List Plan.Entry
  clocks : List Anchor
  /-- The answers to the requests so far, newest first. -/
  seen : List Response

namespace Plan

variable {ε : Type} [Environment ε]

/-- Carries out requests up to the first that fails. -/
def follow : List Request → BenchM ε Plan Unit
  | [] => return
  | request :: rest => do
    let (response, clocks) ← Bench.respond (← get).system.clocks request
    modify fun b =>
      { b with system := { b.system with clocks, seen := response :: b.system.seen } }
    follow rest

/-- An entry is used up even if one of its requests fails. -/
def update : BenchM ε Plan Progress := do
  match (← get).system.entries with
  | [] => return .quiescent
  | entry :: rest =>
    modify fun b => { b with system := { b.system with entries := rest } }
    follow entry.requests
    match entry.ending with
    | .transitioned => return .transitioned
    | .quiescent => return .quiescent
    | .unexpected location input => throw (.error (.unexpected location input))

end Plan

/-! ### Orders -/

/-- Orders that may make the bench wait name what the environment does meanwhile. -/
inductive Order
  | request (request : Request)
  | pushAll (lines : List Line)
  | start (meanwhile : List Act)
  | settle (meanwhile : List Act)
  | run (meanwhile : List Act)
  | step
  | update
  | cycles (count : Nat)
  | elapse (duration : Duration)
  | wall
  | inspect

structure Session (τ σ : Type) where
  bench : Bench (Scripted τ) σ
  clocks : List Anchor

namespace Session

variable {τ σ : Type} [Sink τ]

/-- The steps and the updates in a step that an order may take. -/
def patience : Nat := 1000000000000000000

/-- Steps and the waits after them, up to a number or the first failure. A fault is
    no regular ending of a series. -/
def cycles (update : BenchM (Scripted τ) σ Progress) :
    Nat → Tally → BenchM (Scripted τ) σ Tally
  | 0, tally => return tally
  | count + 1, tally => fun b =>
    match Bench.runStep update patience b with
    | (.error (.error cause), b) => (.ok { tally with ending := some cause }, b)
    | (.error halt, b) => (.error halt, b)
    | (.ok n, b) =>
      let tally := { tally with
        steps := tally.steps + 1, transitions := tally.transitions + n, last := some n }
      match Bench.settle b with
      | (.error (.error cause), b) => (.ok { tally with ending := some cause }, b)
      | (.error halt, b) => (.error halt, b)
      | (.ok (), b) => cycles update count tally b

/-- Carries out work while the environment has something to do as soon as the bench
    waits. What it has not done by the end of the work, it does then. -/
def during (meanwhile : List Act) (work : BenchM (Scripted τ) σ Unit) :
    BenchM (Scripted τ) σ Response := fun b =>
  let (result, b) := work { b with environment := { b.environment with whileWaiting := meanwhile } }
  let (result, b) := (result.map fun _ => Response.completed,
    b.environment.whileWaiting.foldl (Bench.receive false) b)
  (result, { b with environment := { b.environment with whileWaiting := [] } })

def carryOut (update : BenchM (Scripted τ) σ Progress) (clocks : List Anchor) :
    Order → BenchM (Scripted τ) σ (Response × List Anchor)
  | .request request => Bench.respond clocks request
  | .pushAll lines => do
    modify fun b => lines.foldl (fun b line => b.receive true (.push line)) b
    return (.done, clocks)
  | .start meanwhile => return (← during meanwhile Bench.start, clocks)
  | .settle meanwhile => return (← during meanwhile Bench.settle, clocks)
  | .run meanwhile => return (← during meanwhile (Bench.run update patience patience), clocks)
  | .step => return (.count (← Bench.runStep update patience), clocks)
  | .update => return (.progress (← update), clocks)
  | .cycles count => return (.tally (← cycles update count ⟨0, 0, none, none⟩), clocks)
  | .elapse duration => fun b =>
    match b.wall.add? duration with
    | some wall => (.ok (.done, clocks), { b with wall })
    | none => (.error (.fault .timeOverflow), b)
  | .wall => return (.moment (some (← get).wall), clocks)
  | .inspect => return (.text (Testbench.inspect (← get)), clocks)

def obey (update : BenchM (Scripted τ) σ Progress) (s : Session τ σ) (order : Order) :
    Except Halt Response × Session τ σ :=
  match carryOut update s.clocks order s.bench with
  | (.ok (response, clocks), bench) => (.ok response, ⟨bench, clocks⟩)
  | (.error halt, bench) => (.error halt, { s with bench })

end Session

end Testbench
