import Testbench.Bench.Running
import Testbench.Decimal.Reading
import Testbench.Settings
import Testbench.Systems.CarAlarm
import Testbench.Systems.FishRetailer

/-!
# The Command Line

Each system under test is also a program that talks to its test environment line by
line. This module holds what such a program does with its arguments and its input;
only the reading and printing itself is left to the outside.

The arguments choose the time unit and the policy. An argument may be given once,
and the two policies exclude each other. A value may follow its option as an
argument of its own, but not one that starts with a dash, or after an equals sign.
Two dashes end the options, and nothing may follow them.

A conversation is a bench between two inputs. In simulated time it goes on whenever
the bench no longer waits; in real time it takes one step each time it is resumed.

## Main definitions

* `Arguments.parse`: What the arguments ask for.
* `Tool`: A system under test as a program.
* `Conversation`: A program that is running or has ended.
* `Tool.session`: A whole conversation, given all input in advance.
-/

namespace Testbench

structure Arguments where
  timeUnit : Option Float := none
  simulate : Bool := false
  realTime : Bool := false

inductive Arguments.Reading
  | refused
  | help
  | given (arguments : Arguments)

namespace Arguments

/-- The end of the arguments. -/
def complete (a : Arguments) : Reading :=
  if a.simulate && a.realTime then .refused else .given a

/-- The value of the time unit, which may be given once. -/
def withTimeUnit? (a : Arguments) (text : String) : Option Arguments :=
  if a.timeUnit.isSome then none
  else (readNumber? text).map fun unit => { a with timeUnit := some unit }

def withSimulate? (a : Arguments) : Option Arguments :=
  if a.simulate then none else some { a with simulate := true }

def withRealTime? (a : Arguments) : Option Arguments :=
  if a.realTime then none else some { a with realTime := true }

/-- An option in a single argument. -/
def withOption? (a : Arguments) (argument : String) : Option Arguments :=
  if argument = "--simulate" then a.withSimulate?
  else if argument = "--real-time" then a.withRealTime?
  else match "--time-unit=".toList.isPrefixOf? argument.toList with
    | some text => a.withTimeUnit? (String.ofList text)
    | none => none

def parseFrom (a : Arguments) : List String → Reading
  | [] => a.complete
  | "--" :: rest => if rest = [] then a.complete else .refused
  | "--help" :: _ | "-h" :: _ => .help
  | "--time-unit" :: [] => .refused
  | "--time-unit" :: text :: rest =>
    if text.toList.head? = some '-' then .refused
    else match a.withTimeUnit? text with
      | some a => a.parseFrom rest
      | none => .refused
  | argument :: rest =>
    match a.withOption? argument with
    | some a => a.parseFrom rest
    | none => .refused

def parse (arguments : List String) : Reading := parseFrom {} arguments

end Arguments

structure Tool (σ : Type) where
  defaultTimeUnit : Float
  /-- Time is simulated unless real time is asked for. -/
  simulatesByDefault : Bool
  system : System σ

def carAlarmTool : Tool CarAlarm := ⟨100.0, true, CarAlarm.system⟩

def fishRetailerTool : Tool FishRetailer := ⟨200.0, false, FishRetailer.system⟩

/-- The exit status of a program that has ended. -/
inductive ExitStatus
  | success
  | failure
  | usage
  deriving DecidableEq, Repr

def ExitStatus.code : ExitStatus → Nat
  | success => 0
  | failure => 1
  | usage => 2

structure Conversation (σ : Type) where
  bench : Bench Passive σ
  ended : Option ExitStatus

namespace Conversation

variable {σ : Type}

/-- Time in a conversation ends long before its steps do. -/
def patience : Nat := 1000000000000000000

def hear (c : Conversation σ) (act : Act) : Conversation σ :=
  { c with bench := c.bench.receive false act }

private def endedBy : Halt → Option ExitStatus
  | .blocked => none
  | _ => some .failure

/-- In simulated time, runs the bench until it waits or ends. -/
def run (system : System σ) (c : Conversation σ) : Conversation σ :=
  match Bench.run system.updateOn patience patience c.bench with
  | (.ok (), bench) => ⟨bench, some .success⟩
  | (.error halt, bench) => ⟨bench, endedBy halt⟩

/-- In real time, takes one step and lets the time until the next one pass. -/
def poll (system : System σ) (c : Conversation σ) : Conversation σ :=
  match Bench.cycle system.updateOn patience c.bench with
  | (.ok _, bench) => ⟨bench, none⟩
  | (.error halt, bench) => ⟨bench, endedBy halt⟩

/-- Goes on if there is anything to go on with. -/
def resume (system : System σ) (c : Conversation σ) : Conversation σ :=
  match c.ended, c.bench.policy, c.bench.wake with
  | some _, _, _ => c
  | none, .realTime _, _ => c.poll system
  | none, .simulated _, .asleep => c
  | none, .simulated _, _ => c.run system

end Conversation

namespace Tool

variable {σ : Type}

def settings (tool : Tool σ) (a : Arguments) : Settings where
  timeUnit := a.timeUnit.getD tool.defaultTimeUnit
  simulate := if tool.simulatesByDefault then !a.realTime else a.simulate

/-- The conversation up to its first wait. -/
def begin (tool : Tool σ) (settings : Settings) : Except InitError (Conversation σ) := do
  let bench ← settings.setUp .empty .epoch ({} : Passive) (.empty none) tool.system.initial
  let c : Conversation σ := ⟨bench, none⟩
  return if settings.simulate then c.run tool.system else c

/-- Hears the chunks one after the other and resumes after each, then hears that
    there is no more input. -/
def converse (tool : Tool σ) (c : Conversation σ) (chunks : List (List Line)) : Conversation σ :=
  let c := chunks.foldl
    (fun c chunk => (chunk.foldl (fun c line => c.hear (.push line)) c).resume tool.system) c
  (c.hear .close).resume tool.system

/-- The exit status, if the program ends, and the lines that it writes. -/
def session (tool : Tool σ) (arguments : List String) (chunks : List (List Line)) :
    Option ExitStatus × List String :=
  match Arguments.parse arguments with
  | .refused => (some .usage, [])
  | .help => (some .success, [])
  | .given a =>
    match tool.begin (tool.settings a) with
    | .error _ => (some .failure, [])
    | .ok c =>
      let c := tool.converse c chunks
      (c.ended, c.bench.written.reverse)

end Tool

end Testbench
