import Testbench.Failure

/-!
# Programs

What a system under test may do in one update. A system never holds the bench: it
makes calls, one after another, and each answer decides how it goes on. A program
is the tree of all these possibilities, so it is data, and a statement about every
system is a statement about every tree.

The calls are all there is. A system can ask whether an input is ready, read it,
write a line, and read or reset a clock. It can also let the journal know that it
took a transition, which nothing else depends on.

Calls that can fail answer with the failure, and a system is free to carry on after
one. The systems in this library do not: a `Procedure` stops at the first failure
and keeps the state that the system had reached by then.

## Main definitions

* `Call`: What a system can ask for, and `Call.Answer`, what it gets.
* `Program`: A tree of calls.
* `Procedure`: A program with a state that stops at a failure.
* `System`: A system under test.

## Theorems

* `Program.bind_assoc`, `Program.bind_pure`: Programs form a lawful monad.
-/

namespace Testbench

inductive Call
  | inputReady
  | read
  | write (text : String)
  | resetTime
  | value (clock : Anchor)
  | note (system : String) (fields : List (String × String))

/-- The type of the answers to a call. -/
abbrev Call.Answer : Call → Type
  | .inputReady => Bool
  | .read => Except ExecutionError Line
  | .write _ => Except ExecutionError Unit
  | .resetTime => Anchor
  | .value _ => Float
  | .note _ _ => Unit

inductive Program (α : Type) : Type
  | pure (a : α)
  | call (c : Call) (next : c.Answer → Program α)

namespace Program

variable {α β γ : Type}

def bind : Program α → (α → Program β) → Program β
  | .pure a, f => f a
  | .call c next, f => .call c fun answer => (next answer).bind f

instance : Monad Program where
  pure := .pure
  bind := bind

theorem bind_pure (p : Program α) : p.bind .pure = p := by
  induction p with
  | pure a => rfl
  | call c next ih => simp only [bind, ih]

theorem bind_assoc (p : Program α) (f : α → Program β) (g : β → Program γ) :
    (p.bind f).bind g = p.bind fun a => (f a).bind g := by
  induction p with
  | pure a => rfl
  | call c next ih => simp only [bind, ih]

instance : LawfulMonad Program :=
  LawfulMonad.mk' Program (fun p => bind_pure p) (fun _ _ => rfl) (fun p f g => bind_assoc p f g)

def ask (c : Call) : Program c.Answer := .call c .pure

end Program

/-- The outcome of one update of a system. -/
inductive Progress
  /-- A transition was taken, and there may be another one. -/
  | transitioned
  /-- Nothing can be done until an input arrives or time passes. -/
  | quiescent
  deriving DecidableEq, Repr, Inhabited

abbrev Procedure (σ α : Type) := ExceptT ExecutionError (StateT σ Program) α

namespace Procedure

variable {σ : Type}

private def asked (c : Call) : Procedure σ c.Answer := liftM (Program.ask c)

def inputReady : Procedure σ Bool := asked .inputReady

def read : Procedure σ Line := do
  match ← asked .read with
  | .ok line => return line
  | .error failure => throw failure

def write (text : String) : Procedure σ Unit := do
  match ← asked (.write text) with
  | .ok () => return
  | .error failure => throw failure

/-- Writes lines in order, up to the first that cannot be written. -/
def writeAll : List String → Procedure σ Unit
  | [] => return
  | text :: rest => do
    write text
    writeAll rest

def resetTime : Procedure σ Anchor := asked .resetTime

def value (clock : Anchor) : Procedure σ Float := asked (.value clock)

/-- The next input, if one is ready. -/
def nextInput? : Procedure σ (Option Line) := do
  if ← inputReady then return some (← read) else return none

def note (system : String) (fields : List (String × String)) : Procedure σ Unit :=
  asked (.note system fields)

end Procedure

/-- A system under test. Its initial state is made with a clock that has just been
    reset, and an update takes at most one transition. -/
structure System (σ : Type) where
  initial : Anchor → σ
  update : Procedure σ Progress

end Testbench
