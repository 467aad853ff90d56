import Testbench.Proofs.Waiting

/-!
# What Can Be Seen of a Run

A run leaves its lines behind, but not how they came about: which step wrote what,
and at which time a step was taken. This module reads both off a run. `starts`
follows a run cycle by cycle and keeps the bench at which each step began, so the
time of a step is the time of that bench, and `stepOutput` is what the step adds to
the lines that were there before it.

Both are definitions about any system under test and any environment, and neither
changes what a run does.

## Main definitions

* `Bench.driveStarts`: The benches at which the steps of a drive begin.
* `Bench.starts`: The same for a whole run.
* `Bench.stepOutput`: The lines that a step writes.
* `Bench.resultOf`: What a run answers with when it has been stopped.
* `isReport`: Lines that begin like the report of a window.
* `reportOf`: The report of a window that lasted some milliseconds.

## Theorems

* `Bench.stepOutput_eq`: The lines added by a step are its output.
* `Bench.drive_of_ok`, `Bench.drive_of_error`: A drive and the benches at which its steps
  begin, by its first cycle.
* `Bench.run_of_started`, `Bench.run_of_stopped`: The same of a run, by its first wait.
* `isReport_reportOf`: Reports begin like reports.
-/

namespace Testbench

/-! ### Reports -/

def reportMark : String := "Delayed:"

def isReport (text : String) : Bool := reportMark.toList.isPrefixOf text.toList

def reportOf (millis : Nat) : String := "Delayed: " ++ Nat.repr millis

theorem isReport_reportOf (millis : Nat) : isReport (reportOf millis) = true := by
  unfold isReport reportOf
  rw [List.isPrefixOf_iff_prefix, String.toList_append]
  exact ⟨' ' :: (Nat.repr millis).toList, rfl⟩

namespace Bench

variable {ε σ : Type}

/-! ### Steps in a run -/

/-- The lines that a step beginning at `b` writes, oldest first. -/
def stepOutput (update : BenchM ε σ Progress) (limit : Nat) (b : Bench ε σ) : List String :=
  let written := (runStep update limit b).2.written
  (written.take (written.length - b.written.length)).reverse

theorem stepOutput_eq {update : BenchM ε σ Progress} {limit : Nat} {b : Bench ε σ}
    {new : List String} (h : (runStep update limit b).2.written = new ++ b.written) :
    stepOutput update limit b = new.reverse := by
  -- Lines are kept newest first, so what a step adds stands in front.
  have hlength : (new ++ b.written).length - b.written.length = new.length := by
    rw [List.length_append, Nat.add_sub_cancel]
  simp only [stepOutput, h, hlength, List.take_left]

variable [Environment ε]

def driveStarts (update : BenchM ε σ Progress) (limit : Nat) :
    Nat → Bench ε σ → List (Bench ε σ)
  | 0, _ => []
  | steps + 1, b => b :: match cycle update limit b with
    | (.ok _, next) => driveStarts update limit steps next
    | (.error _, _) => []

def starts (update : BenchM ε σ Progress) (limit steps : Nat) (b : Bench ε σ) :
    List (Bench ε σ) :=
  match start b with
  | (.ok (), next) => driveStarts update limit steps next
  | (.error _, _) => []

theorem cycle_of_stopped {update : BenchM ε σ Progress} {limit : Nat} {b next : Bench ε σ}
    {halt : Halt} (h : runStep update limit b = (.error halt, next)) :
    cycle update limit b = (.error halt, next) := by
  unfold cycle
  exact bind_of_error h

theorem cycle_of_settled {update : BenchM ε σ Progress} {limit count : Nat}
    {b b₁ next : Bench ε σ} (h : runStep update limit b = (.ok count, b₁))
    (hsettle : settle b₁ = (.ok (), next)) : cycle update limit b = (.ok count, next) := by
  unfold cycle
  rw [bind_of_ok h, bind_of_ok hsettle]
  rfl

theorem cycle_of_unsettled {update : BenchM ε σ Progress} {limit count : Nat}
    {b b₁ next : Bench ε σ} {halt : Halt} (h : runStep update limit b = (.ok count, b₁))
    (hsettle : settle b₁ = (.error halt, next)) :
    cycle update limit b = (.error halt, next) := by
  unfold cycle
  rw [bind_of_ok h]
  exact bind_of_error hsettle

theorem drive_of_ok {update : BenchM ε σ Progress} {limit count : Nat} {b next : Bench ε σ}
    (steps : Nat) (h : cycle update limit b = (.ok count, next)) :
    drive update limit (steps + 1) b = drive update limit steps next ∧
      driveStarts update limit (steps + 1) b = b :: driveStarts update limit steps next := by
  simp only [drive, driveStarts, h, and_self]

theorem drive_of_error {update : BenchM ε σ Progress} {limit : Nat} {b next : Bench ε σ}
    {halt : Halt} (steps : Nat) (h : cycle update limit b = (.error halt, next)) :
    drive update limit (steps + 1) b = (halt, next) ∧
      driveStarts update limit (steps + 1) b = [b] := by
  simp only [drive, driveStarts, h, and_self]

/-- The end of the input is the regular end of a run. -/
def resultOf : Halt → Except Halt Unit
  | .error .inputClosed => .ok ()
  | halt => .error halt

theorem run_of_started {update : BenchM ε σ Progress} {limit : Nat} {b next : Bench ε σ}
    (steps : Nat) (h : start b = (.ok (), next)) :
    (run update limit steps b).1 = resultOf (drive update limit steps next).1 ∧
      (run update limit steps b).2.written = (drive update limit steps next).2.written ∧
      starts update limit steps b = driveStarts update limit steps next := by
  simp only [run, starts, h, and_true]
  -- Whether the drive ended with the end of the input is asked by `run` and `resultOf` alike.
  split
  · next hhalt =>
    rw [hhalt]
    exact ⟨rfl, rfl⟩
  · next hhalt =>
    refine ⟨?_, rfl⟩
    rw [resultOf]
    exact hhalt

theorem run_of_stopped {update : BenchM ε σ Progress} {limit : Nat} {b next : Bench ε σ}
    {halt : Halt} (steps : Nat) (h : start b = (.error halt, next)) :
    (run update limit steps b).1 = resultOf halt ∧
      (run update limit steps b).2.written = next.written ∧
      starts update limit steps b = [] := by
  simp only [run, starts, h, and_true]
  split
  · exact ⟨rfl, rfl⟩
  · next hhalt =>
    refine ⟨?_, rfl⟩
    rw [resultOf]
    exact hhalt

end Bench

end Testbench
