import Testbench.Feed.Framing
import Testbench.Inbox.Exchange

/-!
# Feeds

A feed moves the lines of an input stream into an inbox, one at a time, and closes
the inbox when the stream has ended, whether regularly or not. The inbox may have
listeners with programs of their own, so each push is an exchange.

Only a fault in such an exchange keeps a feed from closing its inbox: the feed
breaks off where it is and the inbox stays open.

## Main definitions

* `Feed.Outcome`: What a finished feed leaves behind.
* `Feed.run`: Moves a stream into an inbox.
-/

namespace Testbench

namespace Feed

structure Outcome where
  inbox : Inbox Callback
  /-- Newest first. -/
  notices : List Notice
  journal : Journal
  /-- The fault that broke the feed off, if one did. -/
  fault : Option Fault

def Outcome.note (o : Outcome) (event : Event) : Outcome :=
  { o with journal := o.journal.note Timestamp.epoch event }

/-- Performs an action on the inbox, unless the feed has broken off. -/
def Outcome.act (o : Outcome) (action : Action) : Outcome :=
  match o.fault with
  | some _ => o
  | none =>
    let x := Exchange.ask o.inbox o.journal action
    let fault := match x.answer with
      | some (.error fault) => some fault
      | _ => none
    ⟨x.inbox, x.notices ++ o.notices, x.journal, fault⟩

def Outcome.receive (o : Outcome) (line : Line) : Outcome :=
  match o.fault with
  | some _ => o
  | none => (o.note (.lineReceived line)).act (.push line)

/-- The end of the stream, after a failed read if there was one. -/
def Outcome.finish (o : Outcome) (failure : Option IoFailure) : Outcome :=
  match o.fault with
  | some _ => o
  | none =>
    let warned := match failure with
      | some cause => o.note (.readFailed cause.message)
      | none => o
    (warned.note .channelClosed).act .close

def run (inbox : Inbox Callback) (journal : Journal) (reads : List Read) : Outcome :=
  let (lines, failure) := framed [] reads
  (lines.foldl Outcome.receive ⟨inbox, [], journal, none⟩).finish failure

end Feed

/-- A reader that is started in the background and has come to its end. -/
structure Feed.Reader where
  isFinished : Bool

instance : Inspect Feed.Reader where
  inspect reader := Inspect.record "LineSource" [("is_finished", inspect reader.isFinished)]

end Testbench
