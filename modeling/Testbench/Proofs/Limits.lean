import Testbench.Proofs.Trace

/-!
# The Limits of a Run

Neither the updates in a step nor the steps in a run are bounded, so the loops take the
greatest number allowed. These limits are no part of what is modelled. Where they are not
what stopped the work, they could as well have been greater: the result is the same, and so
is the bench. It therefore makes sense to say that a run ends, without saying how soon.

## Main definitions

* `Bench.Ends`: A step that ends by itself.

## Theorems

* `Bench.runStep_ok`, `Bench.runStep_stopped`: A step is told by its updates.
* `Bench.runStep_mono`, `Bench.cycle_mono`, `Bench.drive_mono`, `Bench.run_mono`: Work that
  has ended ends so with greater limits as well.
* `Bench.mem_driveStarts_mono`: With greater limits, steps begin wherever they did.
* `Bench.runStep_error`: A step is stopped by a failed update or by its limit.
-/

namespace Testbench

namespace Bench

variable {ε σ : Type} {update : BenchM ε σ Progress} {limit limit' steps steps' : Nat}

/-- The step that begins at `b` ends, with whatever result. -/
def Ends (update : BenchM ε σ Progress) (b : Bench ε σ) : Prop :=
  ∃ limit, (runStep update limit b).1 ≠ .error .exhausted

theorem runStep_ok {count : Nat} {b next : Bench ε σ}
    (h : runStep update limit b = (.ok count, next)) :
    ∃ rested, transitions update limit 0 { b with phase := .running } = (.ok count, rested) ∧
      next = { rested with phase := .quiescent }.note (.stepDone count) := by
  rcases hmoves : transitions update limit 0 { b with phase := .running } with
    ⟨halt | n, rested⟩
  · rw [runStep_of_error hmoves] at h
    exact absurd (Prod.mk.inj h).1 nofun
  · rw [runStep_of_ok hmoves] at h
    rcases Prod.mk.inj h with ⟨hcount, hnext⟩
    rcases Except.ok.inj hcount with rfl
    exact ⟨rested, rfl, hnext.symm⟩

theorem runStep_stopped {b next : Bench ε σ} {halt : Halt}
    (h : runStep update limit b = (.error halt, next)) :
    transitions update limit 0 { b with phase := .running } = (.error halt, next) := by
  rcases hmoves : transitions update limit 0 { b with phase := .running } with
    ⟨halt' | n, rested⟩
  · exact (runStep_of_error hmoves).symm.trans h
  · rw [runStep_of_ok hmoves] at h
    exact absurd (Prod.mk.inj h).1 nofun

theorem transitions_mono (hlimit : limit ≤ limit') {count : Nat} {b : Bench ε σ}
    (h : (transitions update limit count b).1 ≠ .error .exhausted) :
    transitions update limit' count b = transitions update limit count b := by
  induction limit generalizing limit' count b with
  | zero => exact absurd rfl h
  | succ limit ih =>
    cases limit' with
    | zero => omega
    | succ limit' =>
      rcases hupdate : update b with ⟨halt | _ | _, next⟩
      · simp only [transitions, hupdate]
      · simp only [transitions, hupdate] at h ⊢
        exact ih (Nat.le_of_succ_le_succ hlimit) h
      · simp only [transitions, hupdate]

theorem runStep_mono (hlimit : limit ≤ limit') {b : Bench ε σ}
    (h : (runStep update limit b).1 ≠ .error .exhausted) :
    runStep update limit' b = runStep update limit b := by
  rcases hmoves : transitions update limit 0 { b with phase := .running } with
    ⟨halt | count, next⟩
  · rw [runStep_of_error hmoves] at h ⊢
    refine runStep_of_error ((transitions_mono hlimit ?_).trans hmoves)
    rw [hmoves]
    exact h
  · rw [runStep_of_ok hmoves]
    refine runStep_of_ok ((transitions_mono hlimit ?_).trans hmoves)
    rw [hmoves]
    exact nofun

variable [Environment ε]

theorem cycle_mono (hlimit : limit ≤ limit') {b : Bench ε σ}
    (h : (cycle update limit b).1 ≠ .error .exhausted) :
    cycle update limit' b = cycle update limit b := by
  rcases hstep : runStep update limit b with ⟨halt | count, b₁⟩
  · rw [cycle_of_stopped hstep] at h ⊢
    refine cycle_of_stopped ((runStep_mono hlimit ?_).trans hstep)
    rw [hstep]
    exact h
  · have hsame : runStep update limit' b = (.ok count, b₁) := by
      refine (runStep_mono hlimit ?_).trans hstep
      rw [hstep]
      exact nofun
    rcases hsettle : settle b₁ with ⟨halt | _, next⟩
    · rw [cycle_of_unsettled hstep hsettle, cycle_of_unsettled hsame hsettle]
    · rw [cycle_of_settled hstep hsettle, cycle_of_settled hsame hsettle]

theorem drive_mono (hlimit : limit ≤ limit') (hsteps : steps ≤ steps') {b : Bench ε σ}
    (h : (drive update limit steps b).1 ≠ .exhausted) :
    drive update limit' steps' b = drive update limit steps b := by
  induction steps generalizing steps' b with
  | zero => exact absurd rfl h
  | succ steps ih =>
    cases steps' with
    | zero => omega
    | succ steps' =>
      rcases hcycle : cycle update limit b with ⟨halt | count, next⟩
      · rw [(drive_of_error steps hcycle).1] at h ⊢
        refine (drive_of_error steps' ((cycle_mono hlimit ?_).trans hcycle)).1
        rw [hcycle]
        exact fun hspent => h (Except.error.inj hspent)
      · have hsame : cycle update limit' b = (.ok count, next) := by
          refine (cycle_mono hlimit ?_).trans hcycle
          rw [hcycle]
          exact nofun
        rw [(drive_of_ok steps hcycle).1] at h ⊢
        rw [(drive_of_ok steps' hsame).1]
        exact ih (Nat.le_of_succ_le_succ hsteps) h

/-- With greater limits, steps begin wherever they did. -/
theorem mem_driveStarts_mono (hlimit : limit ≤ limit') {a b : Bench ε σ}
    (h : a ∈ driveStarts update limit steps b) : a ∈ driveStarts update limit' steps b := by
  induction steps generalizing b with
  | zero => exact absurd h List.not_mem_nil
  | succ steps ih =>
    rcases hcycle : cycle update limit b with ⟨halt | count, next⟩
    · rw [(drive_of_error steps hcycle).2, List.mem_singleton] at h
      rw [h]
      exact List.mem_cons_self
    · rw [(drive_of_ok steps hcycle).2] at h
      have hsame : cycle update limit' b = (.ok count, next) := by
        refine (cycle_mono hlimit ?_).trans hcycle
        rw [hcycle]
        exact nofun
      rw [(drive_of_ok steps hsame).2]
      rcases List.mem_cons.mp h with rfl | hrest
      · exact List.mem_cons_self
      · exact List.mem_cons_of_mem b (ih hrest)

theorem run_mono (hlimit : limit ≤ limit') (hsteps : steps ≤ steps') {b : Bench ε σ}
    (h : (run update limit steps b).1 ≠ .error .exhausted) :
    run update limit' steps' b = run update limit steps b := by
  rcases hstart : start b with ⟨halt | _, next⟩
  · simp only [run, hstart]
  · have hdrive : (drive update limit steps next).1 ≠ .exhausted := by
      intro hspent
      rw [(run_of_started steps hstart).1, hspent] at h
      exact h rfl
    simp only [run, hstart, drive_mono hlimit hsteps hdrive]

/-! ### What stops a step -/

theorem updateOn_error (system : System σ) {b next : Bench ε σ} {halt : Halt}
    (h : system.updateOn b = (.error halt, next)) : ∃ cause, halt = .error cause := by
  rw [updateOn_eq] at h
  have hresult := (Prod.mk.inj h).1
  generalize ((system.update.run.run b.system).runOn b).1.1 = result at hresult
  rcases result with cause | progress
  · exact ⟨cause, (Except.error.inj hresult).symm⟩
  · exact absurd hresult nofun

theorem transitions_error (system : System σ) {count : Nat} {b next : Bench ε σ} {halt : Halt}
    (h : transitions system.updateOn limit count b = (.error halt, next)) :
    halt = .exhausted ∨ ∃ cause, halt = .error cause := by
  induction limit generalizing count b with
  | zero => exact .inl (Except.error.inj (Prod.mk.inj h).1).symm
  | succ limit ih =>
    rcases hupdate : system.updateOn b with ⟨halt' | _ | _, b₁⟩
    · simp only [transitions, hupdate] at h
      rw [← Except.error.inj (Prod.mk.inj h).1]
      exact .inr (updateOn_error system hupdate)
    · simp only [transitions, hupdate] at h
      exact ih h
    · simp only [transitions, hupdate] at h
      exact absurd (Prod.mk.inj h).1 nofun

/-- A step is stopped by a failed update or by its limit. -/
theorem runStep_error (system : System σ) {b next : Bench ε σ} {halt : Halt}
    (h : runStep system.updateOn limit b = (.error halt, next)) :
    halt = .exhausted ∨ ∃ cause, halt = .error cause := by
  exact transitions_error system (runStep_stopped h)

end Bench

end Testbench
