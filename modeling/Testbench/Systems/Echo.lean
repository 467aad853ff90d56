import Testbench.Program

/-!
# The Echo

The simplest system under test: it writes back every input and is quiescent when
there is none.

## Main definitions

* `Echo.system`: The echo as a system under test.
-/

namespace Testbench

structure Echo where
  deriving DecidableEq, Inhabited

namespace Echo

open Procedure

def update : Procedure Echo Progress := do
  match ← nextInput? with
  | none => return .quiescent
  | some line =>
    write line.text
    return .transitioned

def system : System Echo := ⟨fun _ => {}, update⟩

end Echo

end Testbench
