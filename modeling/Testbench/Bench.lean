import Testbench.Environment
import Testbench.Inbox
import Testbench.Journal
import Testbench.Policy
import Testbench.Program

/-!
# The Bench

A system under test, the channels between it and its test environment, and the
policy by which time passes. This module holds the state of a bench and the single
operations on it; how a bench waits and how it runs is built from them elsewhere.

Before every look at the inbox or at a clock the environment gets a turn, and after
every written line and every sleep another one. Nothing else changes the inbox
behind the bench's back.

The virtual time is published apart from the policy that makes it pass, because
the stamps of the journal are read from there. Without a simulated policy it stays
where it started.

## Main definitions

* `Bench`: The state.
* `Halt`: Why work on a bench stops.
* `Bench.turn`: The environment acts.
* `Bench.inputReady`, `Bench.read`, `Bench.write`, `Bench.reset`, `Bench.value`: What a
  system under test can ask for.
* `Program.runOn`: Carries out a program.
-/

namespace Testbench

/-- The phase of the step loop. -/
inductive Phase
  | running
  | quiescent
  | awaitingNextStep
  deriving DecidableEq, Repr, Inhabited

instance : Inspect Phase where
  inspect
    | .running => "Running"
    | .quiescent => "Quiescent"
    | .awaitingNextStep => "AwaitingNextStep"

/-- What has become of the bench's own listener since it was registered. -/
inductive Wake
  /-- It is pending, or there is none. -/
  | asleep
  /-- It has been called. -/
  | rung
  /-- It was given up, because the inbox was closed. -/
  | released
  deriving DecidableEq, Repr, Inhabited

namespace Wake

/-- A listener is called or given up only once, so only the first event counts. -/
def first : Wake → Wake → Wake
  | asleep, event => event
  | earlier, _ => earlier

end Wake

structure Bench (ε σ : Type) where
  inbox : Inbox Unit
  /-- A line has been written since the last window was closed. -/
  hasOutput : Bool
  policy : Policy
  phase : Phase
  /-- The published virtual time. -/
  virtualTime : Timestamp
  /-- The wall-clock time. -/
  wall : Timestamp
  wake : Wake
  environment : ε
  system : σ
  /-- The lines that the output channel has taken, newest first. -/
  written : List String
  journal : Journal

/-- Why work on a bench stops before it is done. -/
inductive Halt
  | error (cause : ExecutionError)
  | fault (cause : Fault)
  /-- The bench waits for a directive, and the environment does nothing about it. -/
  | blocked
  /-- The number of steps allowed has been used up. -/
  | exhausted
  deriving DecidableEq

/-- Work on a bench that may stop early, in whatever state it has reached. -/
abbrev BenchM (ε σ α : Type) := ExceptT Halt (StateM (Bench ε σ)) α

namespace Bench

variable {ε σ : Type}

/-- Work on a bench that stops at an execution error. -/
def raising {α : Type} (work : Bench ε σ → Except ExecutionError α × Bench ε σ) :
    BenchM ε σ α := fun b =>
  match work b with
  | (.ok a, b) => (.ok a, b)
  | (.error cause, b) => (.error (.error cause), b)

def note (event : Event) (b : Bench ε σ) : Bench ε σ :=
  { b with journal := b.journal.note b.virtualTime event }

/-! ### The environment -/

/-- Carries out an act of the environment. The journal sees it only if it happens
    from within a call of the bench. -/
def receive (inCall : Bool) (b : Bench ε σ) : Act → Bench ε σ
  | .push line =>
    match b.inbox.push line with
    | .ok (.discarded, _) => if inCall then b.note (.lineDiscarded line) else b
    | .ok (.held due, inbox) =>
      { b with inbox, wake := if due.isEmpty then b.wake else b.wake.first .rung }
    -- The only listener of a bench asks for directives, which it can of any line.
    | .error _ => b
  | .close =>
    let (givenUp, inbox) := b.inbox.close
    { b with inbox, wake := if givenUp.isEmpty then b.wake else b.wake.first .released }
  | .elapse duration =>
    match b.wall.add? duration with
    | some wall => { b with wall }
    | none => b

def turn [Environment ε] (moment : Moment) (b : Bench ε σ) : Bench ε σ :=
  let (acts, environment) := Environment.acts moment b.environment
  acts.foldl (receive moment.isInCall) { b with environment }

/-! ### Lines -/

def inputReady [Environment ε] (b : Bench ε σ) : Bool × Bench ε σ :=
  let b := b.turn .access
  (b.inbox.isReady, b)

def read [Environment ε] (b : Bench ε σ) : Except ExecutionError Line × Bench ε σ :=
  let b := b.turn .access
  match b.inbox.read? with
  | none => (.error .noInput, b)
  | some (line, inbox) => (.ok line, { b with inbox }.note (.inputConsumed line))

/-- Takes all lines of some kind out of the inbox. -/
def extract [Environment ε] (wants : Predicate) : BenchM ε σ (List Line) := fun b =>
  let b := b.turn .access
  match b.inbox.extract wants with
  | (.ok lines, inbox) => (.ok lines, { b with inbox })
  | (.error fault, inbox) => (.error (.fault fault), { b with inbox })

/-- Passes a line to the output channel and remembers that there was output. -/
def deliver [Environment ε] (text : String) (b : Bench ε σ) :
    Except ExecutionError Unit × Bench ε σ :=
  match Environment.accept text b.environment with
  | (.error cause, environment) => (.error (.output cause), { b with environment })
  | (.ok (), environment) =>
    let b := turn (.wrote text) { b with environment, written := text :: b.written }
    (.ok (), { b with hasOutput := true })

/-- Writes a line on behalf of the system under test. -/
def write [Environment ε] (text : String) (b : Bench ε σ) :
    Except ExecutionError Unit × Bench ε σ :=
  (b.note (.outputEmitted text)).deliver text

/-- Writes lines in order, up to the first that cannot be written. -/
def writeAll [Environment ε] : List String → Bench ε σ → Except ExecutionError Unit × Bench ε σ
  | [], b => (.ok (), b)
  | text :: rest, b =>
    match b.write text with
    | (.ok (), b) => writeAll rest b
    | (.error cause, b) => (.error cause, b)

/-! ### Clocks -/

/-- The time that clocks are measured by. -/
def now (b : Bench ε σ) : Timestamp :=
  match b.policy with
  | .realTime _ => b.wall
  | .simulated s => s.now

def reset [Environment ε] (b : Bench ε σ) : Anchor × Bench ε σ :=
  let b := b.turn .access
  (⟨b.now⟩, b)

def value [Environment ε] (clock : Anchor) (b : Bench ε σ) : Float × Bench ε σ :=
  let b := b.turn .access
  (match b.policy with
    | .realTime r => r.value b.wall clock
    | .simulated s => s.value clock, b)

/-- The published virtual time, if time is simulated. -/
def virtualTime? (b : Bench ε σ) : Option Timestamp :=
  match b.policy with
  | .realTime _ => none
  | .simulated _ => some b.virtualTime

/-! ### Programs -/

def answer [Environment ε] (b : Bench ε σ) : (c : Call) → c.Answer × Bench ε σ
  | .inputReady => b.inputReady
  | .read => b.read
  | .write text => b.write text
  | .resetTime => b.reset
  | .value clock => b.value clock
  | .note system fields => ((), b.note (.transition system fields))

instance : Inspect (Bench ε σ) where
  inspect b := Inspect.excerpt "TestDriver"
    [("io", Inspect.excerpt "DriverIo"
        [("input", inspect b.inbox), ("has_outputted", inspect b.hasOutput)]),
      ("state", inspect b.phase)]

end Bench

/-- Carries out a program, one call after another. -/
def Program.runOn {ε σ α : Type} [Environment ε] : Program α → Bench ε σ → α × Bench ε σ
  | .pure a, b => (a, b)
  | .call c next, b =>
    let (answer, b) := b.answer c
    (next answer).runOn b

/-- One update of the system under test. Its state is kept also when it fails. -/
def System.updateOn {ε σ : Type} [Environment ε] (system : System σ) : BenchM ε σ Progress :=
  fun b =>
    let ((result, state), b) := (system.update.run.run b.system).runOn b
    let b := { b with system := state }
    match result with
    | .ok progress => (.ok progress, b)
    | .error cause => (.error (.error cause), b)

end Testbench
