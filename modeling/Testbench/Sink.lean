import Testbench.Failure

/-!
# Sinks

The destination of the lines that a bench writes. A sink takes one line at a time,
without its terminator, and either has taken all of it or reports why not.

## Main definitions

* `Sink`: Types that take lines.
* `Recorder`: A sink that keeps its lines for later inspection.
* `Limited`: A sink that fails after a number of lines.
-/

namespace Testbench

class Sink (τ : Type) where
  writeLine : String → τ → Except IoFailure Unit × τ

/-- Lines written and not yet taken out, oldest first. -/
structure Recorder where
  lines : List String
  deriving DecidableEq, Inhabited

namespace Recorder

def empty : Recorder := ⟨[]⟩

instance : Sink Recorder where
  writeLine line recorder := (.ok (), ⟨recorder.lines ++ [line]⟩)

def next (recorder : Recorder) : Option String × Recorder :=
  (recorder.lines.head?, ⟨recorder.lines.tail⟩)

def take (recorder : Recorder) (count : Nat) : List String × Recorder :=
  (recorder.lines.take count, ⟨recorder.lines.drop count⟩)

def drain (recorder : Recorder) : List String × Recorder := (recorder.lines, empty)

def size (recorder : Recorder) : Nat := recorder.lines.length

instance : Inspect Recorder where
  inspect recorder := Inspect.excerpt "LineBuffer" [("len", inspect recorder.size)]

end Recorder

/-- The sink `inner` for the next `remaining` lines that it takes, and a failed one
    from then on. Without a number it never fails by itself. -/
structure Limited (τ : Type) where
  inner : τ
  remaining : Option Nat
  failure : IoFailure

instance {τ : Type} [Sink τ] : Sink (Limited τ) where
  writeLine line limited :=
    match limited.remaining with
    | some 0 => (.error limited.failure, limited)
    | remaining =>
      match Sink.writeLine line limited.inner with
      | (.ok (), inner) => (.ok (), { limited with inner, remaining := remaining.map (· - 1) })
      | (.error failure, inner) => (.error failure, { limited with inner })

end Testbench
