import Testbench.Decimal.Number
import Testbench.Line

/-!
# Failures

What can go wrong, as causes. The wording of each is in one place, so that two
reports of the same cause read the same.

An `ExecutionError` ends a test execution. One of them, `inputClosed`, is the
regular end of a simulated run. Three of the others mean that the test sequence
and the system under test no longer agree; those are protocol violations.

A `Fault` is a defect outside the protocol: a time that cannot be represented, a
predicate that gives no answer, or a callback that fails. It aborts whatever was being
done, and says nothing about the test.

## Main definitions

* `IoFailure`: Why a channel to the outside failed.
* `ExecutionError`: Why a test execution ended.
* `InitError`: Why a bench could not be set up.
* `Fault`: A defect that aborts an operation.
* `ExecutionError.isViolation`: The error is a protocol violation.
-/

namespace Testbench

inductive IoFailure
  | brokenPipe
  | notFound
  | permissionDenied
  | timedOut
  | interrupted
  | wouldBlock
  | invalidData
  | unexpectedEnd
  | writeZero
  | other
  /-- The channel took no byte of a non-empty piece. -/
  | nothingAccepted
  /-- A line was not valid UTF-8. -/
  | notText
  | custom (text : String)
  deriving DecidableEq, Inhabited

namespace IoFailure

def message : IoFailure → String
  | brokenPipe => "broken pipe"
  | notFound => "entity not found"
  | permissionDenied => "permission denied"
  | timedOut => "timed out"
  | interrupted => "operation interrupted"
  | wouldBlock => "operation would block"
  | invalidData => "invalid data"
  | unexpectedEnd => "unexpected end of file"
  | writeZero => "write zero"
  | other => "other error"
  | nothingAccepted => "failed to write whole buffer"
  | notText => "stream did not contain valid UTF-8"
  | custom text => text

private def stated (kind message : String) : String :=
  Inspect.record "Error" [("kind", kind), ("message", inspect message)]

instance : Inspect IoFailure where
  inspect
    | brokenPipe => Inspect.wrapped "Kind" "BrokenPipe"
    | notFound => Inspect.wrapped "Kind" "NotFound"
    | permissionDenied => Inspect.wrapped "Kind" "PermissionDenied"
    | timedOut => Inspect.wrapped "Kind" "TimedOut"
    | interrupted => Inspect.wrapped "Kind" "Interrupted"
    | wouldBlock => Inspect.wrapped "Kind" "WouldBlock"
    | invalidData => Inspect.wrapped "Kind" "InvalidData"
    | unexpectedEnd => Inspect.wrapped "Kind" "UnexpectedEof"
    | writeZero => Inspect.wrapped "Kind" "WriteZero"
    | other => Inspect.wrapped "Kind" "Other"
    | nothingAccepted => stated "WriteZero" nothingAccepted.message
    | notText => stated "InvalidData" notText.message
    | custom text => Inspect.record "Custom" [("kind", "Other"), ("error", inspect text)]

end IoFailure

inductive ExecutionError
  /-- The system under test does not accept the input where it is. The location is
      given by its inspection text. -/
  | unexpectedInput (location : String) (input : Line)
  | noInput
  | malformedDelay (directive : Line)
  | inputClosed
  | output (cause : IoFailure)
  deriving DecidableEq, Inhabited

namespace ExecutionError

def unexpected {α : Type} [Inspect α] (location : α) (input : Line) : ExecutionError :=
  unexpectedInput (inspect location) input

def message : ExecutionError → String
  | unexpectedInput location input =>
    "unexpected input `" ++ input.text ++ "` in location " ++ location
  | noInput => "no input is ready to be read"
  | malformedDelay directive => "malformed delay directive `" ++ directive.text ++ "`"
  | inputClosed => "the input channel was closed"
  | output cause => "failed to write to the output channel: " ++ cause.message

/-- The failure behind the error, if it has one. -/
def cause? : ExecutionError → Option IoFailure
  | output cause => some cause
  | _ => none

/-- The test sequence and the system under test went out of step. -/
def isViolation : ExecutionError → Bool
  | unexpectedInput _ _ | noInput | malformedDelay _ => true
  | inputClosed | output _ => false

instance : Inspect ExecutionError where
  inspect
    | unexpectedInput location input => Inspect.record "UnexpectedInput"
        [("location", inspect location), ("input", inspect input)]
    | noInput => "NoInput"
    | malformedDelay directive => Inspect.wrapped "MalformedDelay" (inspect directive)
    | inputClosed => "InputClosed"
    | output cause => Inspect.wrapped "Output" (inspect cause)

end ExecutionError

inductive InitError
  | invalidTimeUnit (unit : Float)
  | spawn (cause : IoFailure)

namespace InitError

def message : InitError → String
  | invalidTimeUnit unit =>
    "invalid time unit " ++ Layout.message.write unit
      ++ " (expected a positive number of milliseconds)"
  | spawn cause => "failed to spawn the line source: " ++ cause.message

def cause? : InitError → Option IoFailure
  | invalidTimeUnit _ => none
  | spawn cause => some cause

end InitError

inductive Fault
  /-- A moment past the end of the representable range. -/
  | timeOverflow
  /-- A predicate that has no answer for a line. -/
  | brokenPredicate
  /-- A callback that failed of its own accord. -/
  | failedCallback
  /-- A clock that was never handed out. -/
  | unknownClock
  deriving DecidableEq, Inhabited

end Testbench
