import Testbench.Failure

/-!
# Environments

Everything around a bench that acts of its own accord: whoever sends it lines,
whoever takes the lines that it writes, and the passage of wall-clock time.

An environment is a type of states with two functions on them. One takes or
refuses a written line. The other says what the environment does at a given moment
of the bench's work; it may do anything, in any number of acts, and go on from a
new state. Since every point at which the bench touches shared state is such a
moment, an arbitrary environment stands for every way in which other threads could
interleave with the bench.

At some moments the environment acts from within the bench's own call, while it
writes a line or sleeps. At all others it acts on a thread of its own, and the
bench's journal does not see it.

## Main definitions

* `Act`: What an environment can do.
* `Moment`: When it can do so.
* `Environment`: Types of environment states.
-/

namespace Testbench

inductive Act
  | push (line : Line)
  | close
  /-- Wall-clock time passes. -/
  | elapse (duration : Duration)
  deriving DecidableEq

inductive Moment
  /-- The bench is about to look at its inbox or at the wall clock. -/
  | access
  /-- A line has just been taken by the output channel. -/
  | wrote (text : String)
  /-- The bench has just slept. -/
  | slept
  /-- The bench has nothing to do until a directive arrives. -/
  | waiting
  deriving DecidableEq

/-- The environment is acting from within a call of the bench. -/
def Moment.isInCall : Moment → Bool
  | .wrote _ | .slept => true
  | .access | .waiting => false

class Environment (ε : Type) where
  /-- Takes or refuses a line on the output channel. -/
  accept : String → ε → Except IoFailure Unit × ε
  acts : Moment → ε → List Act × ε

/-- An environment that takes every line and does nothing. -/
structure Passive where
  deriving DecidableEq, Inhabited

instance : Environment Passive where
  accept _ e := (.ok (), e)
  acts _ e := ([], e)

end Testbench
