import Testbench.Inbox
import Testbench.Journal

/-!
# Exchanges with an Inbox

Callbacks that use the inbox themselves. A callback is a finite program of
actions, and registering a listener, whose callback is again such a program, is
one of the actions. Running one action may therefore set off others, to any depth.

The run is a machine with an explicit stack of tasks. What an action still owes
(the callbacks due after a push, then its reply) is put on top of the stack, so
callbacks run after the change that made them due and before the action replies,
and the callbacks of an inner push come before the rest of an outer one.

Every step shortens what is left to do, if one counts the programs of pending
listeners as well: a listener is taken out before its callback runs, so no action
is performed twice. `weight` is that count, and it bounds the run.

A fault ends the whole exchange, be it that of a predicate or of a callback.
Callbacks that were due and had not been called are given up, innermost first.

## Main definitions

* `Action`: What can be asked of an inbox.
* `Callback`: A named program of actions.
* `Notice`: What an exchange lets an observer see.
* `Exchange.step`: One task.
* `Exchange.run`: All tasks.
* `Exchange.weight`: A bound on the number of steps.
-/

namespace Testbench

inductive Action
  | push (line : Line)
  | pushAll (lines : List Line)
  | close
  | read
  | ready
  | extract (wants : Predicate)
  | inspect
  /-- An action that no inbox knows. It changes nothing. -/
  | unknown
  /-- Not an action on the inbox: the callback fails at this point of its program. -/
  | fail
  /-- Registers a listener whose callback has the given name and program. -/
  | register (name : String) (wants : Predicate) (program : List Action)
  deriving Inhabited

structure Callback where
  name : String
  program : List Action

inductive Reply
  | done
  | line (line : Line)
  | noInput
  | ready (isReady isEmpty : Bool)
  | lines (lines : List Line)
  | text (text : String)
  /-- Whether a registered listener is pending. -/
  | registered (isPending : Bool)
  /-- The action is not known. -/
  | unknown

inductive Notice
  | fired (name : String)
  | dropped (name : String)
  /-- An action in the program of the named callback has been answered. -/
  | replied (name : String) (reply : Reply)

/-- The owner of a task is the callback in whose program it stands, or nobody for
    an action asked from outside. -/
inductive Task
  | perform (owner : Option String) (action : Action)
  | push (line : Line)
  | call (callback : Callback)
  | reply (owner : Option String) (reply : Reply)

structure Exchange where
  inbox : Inbox Callback
  tasks : List Task
  /-- Newest first. -/
  notices : List Notice
  journal : Journal
  /-- The answer to the action asked from outside, once there is one. -/
  answer : Option (Except Fault Reply)

/-! ### The weight of what is left to do -/

/-- The sum of a measure over a list. -/
def total {α : Type} (measure : α → Nat) : List α → Nat
  | [] => 0
  | a :: rest => measure a + total measure rest

mutual

/-- An action counts itself, its reply and every task it may put on the stack. -/
def Action.weight : Action → Nat
  | .push _ => 3
  | .pushAll lines => lines.length + 2
  | .close | .read | .ready | .extract _ | .inspect | .unknown | .fail => 2
  | .register _ _ program => programWeight program + 3

def programWeight : List Action → Nat
  | [] => 0
  | action :: rest => action.weight + programWeight rest

end

def Callback.weight (callback : Callback) : Nat := programWeight callback.program + 1

def Task.weight : Task → Nat
  | perform _ action => action.weight
  | push _ => 1
  | call callback => callback.weight
  | reply _ _ => 1

namespace Exchange

def pendingWeight (inbox : Inbox Callback) : Nat :=
  total (fun listener => listener.callback.weight) inbox.listeners.values

def weight (x : Exchange) : Nat := total Task.weight x.tasks + pendingWeight x.inbox

/-! ### Running -/

/-- Logs of a bare inbox carry no virtual time of their own. -/
def note (x : Exchange) (event : Event) : Exchange :=
  { x with journal := x.journal.note Timestamp.epoch event }

def notice (x : Exchange) (notice : Notice) : Exchange := { x with notices := notice :: x.notices }

/-- Gives up everything that was still to be done. -/
def abort (x : Exchange) (fault : Fault) : Exchange :=
  let givenUp := x.tasks.filterMap fun
    | .call callback => some (Notice.dropped callback.name)
    | _ => none
  { x with tasks := [], notices := givenUp.reverse ++ x.notices, answer := some (.error fault) }

/-- Puts tasks on top of the stack. -/
def owe (x : Exchange) (tasks : List Task) : Exchange := { x with tasks := tasks ++ x.tasks }

def push (x : Exchange) (line : Line) : Exchange :=
  match x.inbox.push line with
  | .ok (.discarded, _) => x.note (.lineDiscarded line)
  | .ok (.held due, inbox) => { x with inbox }.owe (due.map .call)
  | .error fault => x.abort fault

def extract (x : Exchange) (owner : Option String) (wants : Predicate) : Exchange :=
  match x.inbox.extract wants with
  | (.ok lines, inbox) => { x with inbox }.owe [.reply owner (.lines lines)]
  | (.error fault, inbox) => { x with inbox }.abort fault

def close (x : Exchange) : Exchange :=
  let (givenUp, inbox) := x.inbox.close
  { x with inbox, notices := (givenUp.map fun c => Notice.dropped c.name).reverse ++ x.notices }

def register (x : Exchange) (owner : Option String) (wants : Predicate) (callback : Callback) :
    Exchange :=
  match x.inbox.register ⟨wants, callback⟩ with
  | .ok (.satisfied, _) => x.owe [.call callback, .reply owner (.registered false)]
  | .ok (.refused, _) =>
    (x.notice (.dropped callback.name)).owe [.reply owner (.registered false)]
  | .ok (.pending, inbox) => { x with inbox }.owe [.reply owner (.registered true)]
  | .error fault => (x.notice (.dropped callback.name)).abort fault

def perform (x : Exchange) (owner : Option String) : Action → Exchange
  | .push line => x.owe [.push line, .reply owner .done]
  | .pushAll lines => x.owe (lines.map .push ++ [.reply owner .done])
  | .close => x.close.owe [.reply owner .done]
  | .read =>
    match x.inbox.read? with
    | some (line, inbox) => { x with inbox }.owe [.reply owner (.line line)]
    | none => x.owe [.reply owner .noInput]
  | .ready => x.owe [.reply owner (.ready x.inbox.isReady x.inbox.lines.isEmpty)]
  | .extract wants => x.extract owner wants
  | .inspect => x.owe [.reply owner (.text (Testbench.inspect x.inbox))]
  | .unknown => x.owe [.reply owner .unknown]
  | .fail => x.abort .failedCallback
  | .register name wants program => x.register owner wants ⟨name, program⟩

def answered (x : Exchange) (reply : Reply) : Option String → Exchange
  | some name => x.notice (.replied name reply)
  | none => { x with answer := some (.ok reply) }

def step (x : Exchange) : Exchange :=
  match x.tasks with
  | [] => x
  | task :: rest =>
    let y := { x with tasks := rest }
    match task with
    | .perform owner action => y.perform owner action
    | .push line => y.push line
    | .call callback =>
      (y.notice (.fired callback.name)).owe (callback.program.map (.perform (some callback.name)))
    | .reply owner reply => y.answered reply owner

def stepFor : Nat → Exchange → Exchange
  | 0, x => x
  | n + 1, x => stepFor n x.step

def run (x : Exchange) : Exchange := stepFor x.weight x

/-- An action asked from outside. -/
def ask (inbox : Inbox Callback) (journal : Journal) (action : Action) : Exchange :=
  run ⟨inbox, [.perform none action], [], journal, none⟩

end Exchange

end Testbench
