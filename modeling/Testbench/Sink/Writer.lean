import Testbench.Sink
import Testbench.Text.Utf8

/-!
# Writers

A sink over a byte channel that may be slow, interrupted, or broken. Each attempt
to write offers the bytes still to be written, and the channel takes some of them,
or is interrupted, or fails. An interruption is no failure: the attempt is
repeated. To take none of the bytes offered is a failure, since repeating the
attempt might go on for ever. The channel decides freely how many bytes it takes,
so all of this is a parameter here, as are the number of bytes after which the
channel has had enough and the number of flushes it carries out.

A line is written as its bytes, a newline, and a flush. Bytes taken before a
failure stay taken.

## Main definitions

* `Writer`: A byte channel and how it will behave.
* `Writer.attempt`: One offer of bytes.
* `Writer.writeAll`: Offers until all bytes are taken or the channel fails.
* `Writer.writeLine`: A whole line.
-/

namespace Testbench

structure Writer where
  /-- Attempt number `n`, interruptions not counted, takes at most `share n` bytes. -/
  share : Nat → Nat
  /-- The interruptions before attempt number `n`. -/
  interruptions : Nat → Nat
  /-- The bytes that are taken in all, if there is a limit. -/
  capacity : Option Nat
  /-- The failure beyond the capacity. Without one the channel then takes no bytes. -/
  failure : Option IoFailure
  /-- The flushes that succeed, if there is a limit, and the failure of later ones. -/
  flushes : Option Nat
  flushFailure : IoFailure
  /-- What the channel has taken so far, in order. -/
  taken : List UInt8
  attempts : Nat
  /-- Interruptions still to come before the next attempt. -/
  pending : Nat
  flushed : Nat

/-- The outcome of an offer. -/
inductive Attempt
  | interrupted
  | took (count : Nat)
  | failed (cause : IoFailure)

namespace Writer

/-- A channel in its initial state. -/
def fresh (share interruptions : Nat → Nat) (capacity : Option Nat) (failure : Option IoFailure)
    (flushes : Option Nat) (flushFailure : IoFailure) : Writer :=
  ⟨share, interruptions, capacity, failure, flushes, flushFailure, [], 0, interruptions 0, 0⟩

/-- The bytes of `size` offered ones that would be taken now. -/
def room (w : Writer) (size : Nat) : Nat :=
  let allowed := min (w.share w.attempts) size
  match w.capacity with
  | none => allowed
  | some capacity => min allowed (capacity - w.taken.length)

/-- Whether all bytes that will ever be taken have been taken. -/
def isFull (w : Writer) : Bool := w.capacity.any fun capacity => capacity ≤ w.taken.length

def attempt (w : Writer) (bytes : List UInt8) : Attempt × Writer :=
  if w.pending ≠ 0 then (.interrupted, { w with pending := w.pending - 1 })
  else
    let count := w.room bytes.length
    let next := { w with
      taken := w.taken ++ bytes.take count
      attempts := w.attempts + 1
      pending := w.interruptions (w.attempts + 1) }
    match w.isFull, w.failure with
    | true, some cause => (.failed cause, next)
    | _, _ => (.took count, next)

theorem pending_lt_of_interrupted {w next : Writer} {bytes : List UInt8}
    (h : w.attempt bytes = (.interrupted, next)) : next.pending < w.pending := by
  unfold attempt at h
  split at h
  · next hpending =>
    have hnext := (Prod.mk.inj h).2
    subst hnext
    simp only
    omega
  · rcases hfull : w.isFull with _ | _ <;>
      rcases hfailure : w.failure with _ | cause <;>
      simp only [hfull, hfailure, Prod.mk.injEq, reduceCtorEq, false_and] at h

def writeAll (w : Writer) (bytes : List UInt8) : Except IoFailure Unit × Writer :=
  if _ : bytes = [] then (.ok (), w)
  else match h : w.attempt bytes with
    | (.interrupted, next) => next.writeAll bytes
    | (.took 0, next) => (.error .nothingAccepted, next)
    | (.took (count + 1), next) => next.writeAll (bytes.drop (count + 1))
    | (.failed cause, next) => (.error cause, next)
  termination_by (bytes.length, w.pending)
  decreasing_by
    · exact Prod.Lex.right _ (pending_lt_of_interrupted h)
    · apply Prod.Lex.left
      have := List.length_pos_iff.mpr ‹¬bytes = []›
      simp only [List.length_drop]
      omega

def flush (w : Writer) : Except IoFailure Unit × Writer :=
  match w.flushes with
  | some limit =>
    if w.flushed < limit then (.ok (), { w with flushed := w.flushed + 1 })
    else (.error w.flushFailure, w)
  | none => (.ok (), { w with flushed := w.flushed + 1 })

def writeLine (line : String) (w : Writer) : Except IoFailure Unit × Writer :=
  match w.writeAll (Text.encode line) with
  | (.error cause, next) => (.error cause, next)
  | (.ok (), next) =>
    match next.writeAll [10] with
    | (.error cause, last) => (.error cause, last)
    | (.ok (), last) => last.flush

instance : Sink Writer := ⟨writeLine⟩

instance : Inspect Writer := ⟨fun _ => Inspect.excerpt "WriterSink" []⟩

end Writer

/-- The standard output as a sink. It has no state of its own. -/
structure StandardOutput where

instance : Inspect StandardOutput := ⟨fun _ => "StdoutSink"⟩

end Testbench
