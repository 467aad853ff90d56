import Testbench.CommandLine

/-!
# Entry Point

Reading the standard input and writing the standard output for the programs of the
command line. The first argument names the system under test.
-/

open Testbench

namespace Testbench.Main

/-- A line as read, without its terminator. -/
def withoutTerminator (text : String) : Line :=
  match text.toList.reverse with
  | '\n' :: '\r' :: rest => ⟨String.ofList rest.reverse⟩
  | '\n' :: rest => ⟨String.ofList rest.reverse⟩
  | _ => ⟨text⟩

/-- The next line of the standard input. A failed read ends the input. -/
def nextLine? : IO (Option Line) := do
  try
    let text ← (← IO.getStdin).getLine
    return if text.isEmpty then none else some (withoutTerminator text)
  catch _ => return none

/-- Prints the lines written so far and forgets them. -/
def flushed {σ : Type} (c : Conversation σ) : IO (Conversation σ) := do
  let out ← IO.getStdout
  for text in c.bench.written.reverse do
    out.putStrLn text
  out.flush
  return { c with bench := { c.bench with written := [] } }

partial def simulate {σ : Type} (tool : Tool σ) (c : Conversation σ) : IO UInt32 := do
  let c ← flushed c
  match c.ended with
  | some status => return status.code.toUInt32
  | none =>
    match ← nextLine? with
    | some line => simulate tool ((c.hear (.push line)).resume tool.system)
    | none => simulate tool ((c.hear .close).resume tool.system)

/-- Collects the lines of the standard input until it ends. -/
partial def collect (arrived : IO.Ref (List Act)) : IO Unit := do
  match ← nextLine? with
  | some line =>
    arrived.modify (.push line :: ·)
    collect arrived
  | none => arrived.modify (.close :: ·)

/-- Steps at the pace of the wall clock, which has read zero at `origin`. -/
partial def keepPace {σ : Type} (tool : Tool σ) (origin : Nat) (arrived : IO.Ref (List Act))
    (c : Conversation σ) : IO UInt32 := do
  let passed : Duration := ⟨(← IO.monoNanosNow) - origin⟩
  let known := c.bench.wall.since .epoch
  let acts ← arrived.modifyGet fun acts => (acts.reverse, [])
  let c := (acts.foldl Conversation.hear (c.hear (.elapse ⟨passed.nanos - known.nanos⟩)))
  let c ← flushed (c.resume tool.system)
  match c.ended, c.bench.policy with
  | some status, _ => return status.code.toUInt32
  | none, .realTime r =>
    IO.sleep r.pollPeriod.millis.toUInt32
    keepPace tool origin arrived c
  | none, .simulated _ => simulate tool c

def start {σ : Type} (tool : Tool σ) (arguments : List String) : IO UInt32 := do
  match Arguments.parse arguments with
  | .refused =>
    IO.eprintln "usage: [--time-unit MS] [--simulate | --real-time]"
    return ExitStatus.usage.code.toUInt32
  | .help =>
    IO.println "options: [--time-unit MS] [--simulate | --real-time]"
    return ExitStatus.success.code.toUInt32
  | .given a =>
    match tool.begin (tool.settings a) with
    | .error cause =>
      IO.eprintln cause.message
      return ExitStatus.failure.code.toUInt32
    | .ok c =>
      if (tool.settings a).simulate then simulate tool c
      else
        let arrived ← IO.mkRef []
        let _ ← IO.asTask (collect arrived)
        keepPace tool (← IO.monoNanosNow) arrived c

end Testbench.Main

def main (arguments : List String) : IO UInt32 := do
  match arguments with
  | "car_alarm" :: rest => Main.start carAlarmTool rest
  | "fish_retailer" :: rest => Main.start fishRetailerTool rest
  | _ =>
    IO.eprintln "usage: (car_alarm | fish_retailer) [--time-unit MS] [--simulate | --real-time]"
    return ExitStatus.usage.code.toUInt32
