import Testbench.Line
import Testbench.Text.Disarmed
import Testbench.Time.Written

/-!
# The Journal

What a bench tells about its own work. Every noteworthy happening is an `Event`
with a fixed level; its wording and the order of its fields are determined here
and nowhere else. An entry of the journal pairs an event with the virtual time
at which it happened.

A journal keeps only events at or above its own least level, so a run that nobody
watches costs no memory. The text protocol itself never passes through here.

## Main definitions

* `Level`: How noteworthy an event is.
* `Event`: What can happen.
* `Event.text`: The wording of an event.
* `Journal.note`: Adds an event, if the journal keeps its level.
* `Entry.lines`: The log lines of an entry.
-/

namespace Testbench

inductive Level
  | trace
  | debug
  | info
  | warn
  deriving DecidableEq, Repr, Inhabited

namespace Level

def rank : Level → Nat
  | trace => 0
  | debug => 1
  | info => 2
  | warn => 3

/-- The name, right-aligned in five columns. -/
def label : Level → String
  | trace => "TRACE"
  | debug => "DEBUG"
  | info => " INFO"
  | warn => " WARN"

end Level

/-- The part of the library that an event comes from. -/
inductive Origin
  | inbox
  | feed
  | setup
  | driver
  | simulatedTime
  /-- A system under test, by name. -/
  | system (name : String)
  deriving DecidableEq, Repr, Inhabited

inductive Event
  /-- A line arrived after the inbox had been closed. -/
  | lineDiscarded (line : Line)
  | lineReceived (line : Line)
  | readFailed (cause : String)
  | channelClosed
  | initialized (simulate : Bool) (timeUnit : Float)
  | inputConsumed (line : Line)
  | outputEmitted (text : String)
  /-- A step ended after a number of transitions. -/
  | stepDone (transitions : Nat)
  /-- Directives behind the one that opens a window were thrown away. -/
  | directivesDiscarded (count : Nat)
  | windowOpened (delay : Duration)
  | windowClosed (delayed : Duration)
  | timeAdvanced (time : Timestamp)
  /-- The input is closed and the test execution ends regularly. -/
  | inputEnded
  /-- A system under test took a transition, described by named values. -/
  | transition (system : String) (fields : List (String × String))

namespace Event

def level : Event → Level
  | lineDiscarded _ | lineReceived _ | inputConsumed _ | outputEmitted _ | stepDone _
  | timeAdvanced _ | transition _ _ => .trace
  | channelClosed | directivesDiscarded _ | windowOpened _ | windowClosed _ | inputEnded => .debug
  | initialized _ _ => .info
  | readFailed _ => .warn

def origin : Event → Origin
  | lineDiscarded _ => .inbox
  | lineReceived _ | readFailed _ | channelClosed => .feed
  | initialized _ _ => .setup
  | inputConsumed _ | outputEmitted _ | stepDone _ | inputEnded => .driver
  | directivesDiscarded _ | windowOpened _ | windowClosed _ | timeAdvanced _ => .simulatedTime
  | transition system _ => .system system

private def withFields (message : String) (fields : List (String × String)) : String :=
  message ++ String.join (fields.map fun f => " " ++ f.1 ++ "=" ++ f.2)

def text : Event → String
  | lineDiscarded line => withFields "line discarded by closed input buffer" [("line", line.text)]
  | lineReceived line => withFields "input received" [("line", line.text)]
  | readFailed cause => withFields "failed to read from the input channel" [("error", cause)]
  | channelClosed => "input channel closed"
  | initialized simulate timeUnit => withFields "test driver initialized"
      [("simulate", inspect simulate), ("time_unit", inspect timeUnit)]
  | inputConsumed line => withFields "input consumed" [("line", line.text)]
  -- An emitted text has no name in front of it and is disarmed.
  | outputEmitted text => "output emitted " ++ Text.disarmed text
  | stepDone transitions => withFields "step done" [("transitions", inspect transitions)]
  | directivesDiscarded count =>
    withFields "superseded delay directives discarded" [("discarded", inspect count)]
  | windowOpened delay => withFields "delay window opened" [("delay", inspect delay)]
  | windowClosed delayed => withFields "delay window closed" [("delayed", inspect delayed)]
  | timeAdvanced time => withFields "virtual time advanced" [("time", time.written)]
  | inputEnded => "input closed, test execution finished"
  | transition system fields => withFields (system ++ " transition") fields

end Event

structure Entry where
  stamp : Timestamp
  event : Event

/-- The log lines of an entry, with the name of its origin given by `target`. Text
    taken from outside may hold line breaks, which end a line here as well. -/
def Entry.lines (target : Origin → String) (entry : Entry) : List String :=
  let whole := entry.stamp.stamp ++ " " ++ entry.event.level.label ++ " "
    ++ target entry.event.origin ++ ": " ++ entry.event.text ++ "\n"
  (whole.splitOn "\n").dropLast

/-- Entries are held newest first. With no least level nothing is kept. -/
structure Journal where
  least : Option Level
  newestFirst : List Entry

namespace Journal

def empty (least : Option Level) : Journal := ⟨least, []⟩

def keeps (journal : Journal) (level : Level) : Bool :=
  journal.least.any fun least => least.rank ≤ level.rank

def note (journal : Journal) (stamp : Timestamp) (event : Event) : Journal :=
  if journal.keeps event.level then
    { journal with newestFirst := ⟨stamp, event⟩ :: journal.newestFirst }
  else journal

/-- The entries in the order in which they were made. -/
def entries (journal : Journal) : List Entry := journal.newestFirst.reverse

/-- The same journal without its entries. -/
def cleared (journal : Journal) : Journal := { journal with newestFirst := [] }

end Journal

end Testbench
