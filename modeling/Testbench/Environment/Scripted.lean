import Testbench.Environment
import Testbench.Sink

/-!
# Scripted Environments

A test environment that follows a script of chunks of lines. It sends the first
chunk before anything else happens, and one more each time the bench has written a
line with a given beginning, which is normally the report that a window of virtual
time has closed. When no chunk is left it closes the input.

Besides the script it can have chunks to send after each sleep, and acts to carry
out while the bench waits. Written lines go to a sink.

## Main definitions

* `Scripted`: The state of such an environment.
* `Scripted.sendNext`: The next chunk of the script.
-/

namespace Testbench

structure Scripted (τ : Type) where
  sink : τ
  /-- The chunks still to be sent, if there is a script at all. -/
  script : Option (List (List Line))
  /-- How a written line begins that calls for the next chunk. -/
  trigger : String
  afterSleep : List (List Line)
  whileWaiting : List Act

namespace Scripted

variable {τ : Type}

def sendNext (e : Scripted τ) : List Act × Scripted τ :=
  match e.script with
  | none => ([], e)
  | some [] => ([.close], e)
  | some (chunk :: rest) => (chunk.map .push, { e with script := some rest })

def acts (moment : Moment) (e : Scripted τ) : List Act × Scripted τ :=
  match moment with
  | .access => ([], e)
  | .wrote text => if e.trigger.toList.isPrefixOf text.toList then e.sendNext else ([], e)
  | .slept =>
    match e.afterSleep with
    | [] => ([], e)
    | chunk :: rest => (chunk.map .push, { e with afterSleep := rest })
  | .waiting => (e.whileWaiting, { e with whileWaiting := [] })

instance [Sink τ] : Environment (Scripted τ) where
  accept text e :=
    let (result, sink) := Sink.writeLine text e.sink
    (result, { e with sink })
  acts := acts

end Scripted

end Testbench
