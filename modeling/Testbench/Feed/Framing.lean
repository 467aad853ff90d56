import Testbench.Failure
import Testbench.Text.Utf8

/-!
# Framing

How a stream of bytes becomes lines. A line ends at a newline, and one carriage
return right before the newline belongs to the terminator. Bytes after the last
newline are a line too if there are any and the stream ends properly; they have
no terminator, so a carriage return at their end is part of the line.

A stream reaches the reader in pieces, cut anywhere, and a read may be interrupted
without consequence. Bytes of an unfinished line are carried over to the next
piece, so where the stream was cut cannot be told from the lines.

Reading stops for good at a line that is not valid UTF-8 or at a failed read. What
had been collected of an unfinished line is then lost.

## Main definitions

* `Read`: The outcome of one attempt to read.
* `pieces`: Bytes divided at newlines.
* `framed`: The lines of a stream, and why it broke off, if it did.

## Theorems

* `pieces_append`: Dividing a stream that comes in two parts.
-/

namespace Testbench

/-- The end of the stream is the end of the list of reads. -/
inductive Read
  | data (bytes : List UInt8)
  | interrupted
  | failed (cause : IoFailure)

namespace Framing

def newline : UInt8 := 10

def carriageReturn : UInt8 := 13

/-- The terminated pieces, and what follows the last newline. -/
def pieces : List UInt8 → List (List UInt8) × List UInt8
  | [] => ([], [])
  | b :: rest =>
    if b = newline then ([] :: (pieces rest).1, (pieces rest).2)
    else match pieces rest with
      | ([], unfinished) => ([], b :: unfinished)
      | (piece :: others, unfinished) => ((b :: piece) :: others, unfinished)

theorem pieces_append (front back : List UInt8) :
    pieces (front ++ back) =
      ((pieces front).1 ++ (pieces ((pieces front).2 ++ back)).1,
        (pieces ((pieces front).2 ++ back)).2) := by
  induction front with
  | nil => simp only [pieces, List.nil_append]
  | cons b front ih =>
    by_cases hb : b = newline
    · simp only [List.cons_append, pieces, hb, if_true, ih]
    · simp only [List.cons_append, pieces, hb, if_false, ih]
      rcases hfront : pieces front with ⟨_ | ⟨piece, others⟩, unfinished⟩
      · simp only [List.nil_append, List.cons_append, pieces, hb, if_false]
      · rfl

/-- A terminated piece without the carriage return of its terminator. -/
def stripped (piece : List UInt8) : List UInt8 :=
  if piece.getLast? = some carriageReturn then piece.dropLast else piece

/-- The lines of pieces up to the first that is not valid UTF-8, and whether there
    is such a piece. -/
def texts : List (List UInt8) → List Line × Bool
  | [] => ([], false)
  | piece :: rest =>
    match Text.decode? piece with
    | some text => (⟨text⟩ :: (texts rest).1, (texts rest).2)
    | none => ([], true)

end Framing

open Framing in
/-- The lines of a stream of which `unfinished` has been read already. -/
def framed (unfinished : List UInt8) : List Read → List Line × Option IoFailure
  | [] =>
    let (lines, spoilt) := texts (if unfinished = [] then [] else [unfinished])
    (lines, if spoilt then some .notText else none)
  | .interrupted :: reads => framed unfinished reads
  | .failed cause :: _ => ([], some cause)
  | .data bytes :: reads =>
    let (terminated, rest) := pieces (unfinished ++ bytes)
    let (lines, spoilt) := texts (terminated.map stripped)
    if spoilt then (lines, some .notText)
    else
      let (later, failure) := framed rest reads
      (lines ++ later, failure)

end Testbench
