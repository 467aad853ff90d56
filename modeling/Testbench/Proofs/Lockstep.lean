import Testbench.Proofs.Work

/-!
# Two Benches in Lockstep

A system under test sees of a bench only the answers to its calls. If two benches
agree on these, and go on agreeing after each call, then a step does the same on
both, however different their environments are.

`Lockstep` collects what has to be shown of one call, about a relation between the
two benches of one's own choice. The rest is induction along the constructions of a
step: over the calls of a program, over the updates of a step. Some lines may be
known to be written never, so the relation need not survive them.

## Main definitions

* `Bench.Lockstep`: A relation that survives every call.

## Theorems

* `Bench.Lockstep.runOn`: A program on two benches.
* `Bench.Lockstep.updateOn`, `Bench.Lockstep.transitions`, `Bench.Lockstep.runStep`: An
  update and a step on two benches.
-/

namespace Testbench

namespace Bench

variable {ε ε' σ : Type}

/-- Lines written in two parts, the newer ones in front. -/
theorem eq_append_of_written {b b₁ b₂ : Bench ε σ} {first later new : List String}
    (hfirst : b₁.written = first ++ b.written) (hlater : b₂.written = later ++ b₁.written)
    (h : b₂.written = new ++ b.written) : new = later ++ first := by
  refine List.append_cancel_right (h.symm.trans ?_)
  rw [List.append_assoc, ← hfirst]
  exact hlater

variable [Environment ε] [Environment ε']

/-- The relation `R` survives every call that writes only lines in `W`, and then the
    answers agree. What a bench has to itself is part of the relation, and can be
    changed on both sides at once. -/
structure Lockstep (R : Bench ε σ → Bench ε' σ → Prop) (W : String → Prop) : Prop where
  own : ∀ {a c}, R a c → a.own = c.own
  answer : ∀ {a c} (call : Call) {new : List String}, R a c →
    (c.answer call).2.written = new ++ c.written → (∀ text ∈ new, W text) →
    (a.answer call).1 = (c.answer call).1 ∧ R (a.answer call).2 (c.answer call).2
  system : ∀ {a c} (system : σ), R a c → R { a with system } { c with system }
  phase : ∀ {a c} (phase : Phase), R a c → R { a with phase } { c with phase }
  note : ∀ {a c} (event : Event), R a c → R (a.note event) (c.note event)

namespace Lockstep

variable {R : Bench ε σ → Bench ε' σ → Prop} {W : String → Prop}

/-- A program does the same on both benches. -/
theorem runOn (hR : Lockstep R W) {α : Type} (p : Program α) {a : Bench ε σ} {c : Bench ε' σ}
    {new : List String} (hac : R a c) (h : (p.runOn c).2.written = new ++ c.written)
    (hnew : ∀ text ∈ new, W text) :
    (p.runOn a).1 = (p.runOn c).1 ∧ R (p.runOn a).2 (p.runOn c).2 := by
  induction p generalizing a c new with
  | pure value => exact ⟨rfl, hac⟩
  | call call next ih =>
    -- The lines of the whole program split into those of its first call and those of
    -- the rest, so what is known of all lines is known of either part.
    rcases own_answer c call with ⟨first, hcall⟩
    rcases own_runOn (next (c.answer call).1) (c.answer call).2 with ⟨later, hrest⟩
    have hfirst : (c.answer call).2.written = first ++ c.written := congrArg Own.written hcall
    have hlater : ((next (c.answer call).1).runOn (c.answer call).2).2.written
        = later ++ (c.answer call).2.written := congrArg Own.written hrest
    have hsplit := eq_append_of_written hfirst hlater h
    subst hsplit
    rcases hR.answer call hac hfirst fun text htext => hnew text (List.mem_append_right _ htext)
      with ⟨hanswer, hnext⟩
    have htail := ih (c.answer call).1 hnext hlater
      fun text htext => hnew text (List.mem_append_left _ htext)
    -- The answers agree, so both benches go on with the same rest of the program.
    have hstep : (Program.call call next).runOn a
        = (next (a.answer call).1).runOn (a.answer call).2 := rfl
    rw [hstep, hanswer]
    exact htail

theorem updateOn (hR : Lockstep R W) (system : System σ) {a : Bench ε σ} {c : Bench ε' σ}
    {new : List String} (hac : R a c) (h : (system.updateOn c).2.written = new ++ c.written)
    (hnew : ∀ text ∈ new, W text) :
    (system.updateOn a).1 = (system.updateOn c).1 ∧
      R (system.updateOn a).2 (system.updateOn c).2 := by
  -- Both updates start from the same state of the system, so they are the same program.
  have hsystem : a.system = c.system := congrArg Own.system (hR.own hac)
  have hprogram : _ = new ++ c.written → (∀ text ∈ new, W text) → _ :=
    hR.runOn (system.update.run.run c.system) hac
  unfold System.updateOn at h
  rw [System.updateOn, System.updateOn, hsystem]
  rcases hruna : (system.update.run.run c.system).runOn a with ⟨⟨result, state⟩, a'⟩
  rcases hrunc : (system.update.run.run c.system).runOn c with ⟨⟨result', state'⟩, c'⟩
  rw [hrunc] at h
  rw [hruna, hrunc] at hprogram
  have hwritten : c'.written = new ++ c.written := by
    rw [← h]
    cases result' <;> rfl
  rcases hprogram hwritten hnew with ⟨hsame, hnext⟩
  rcases Prod.mk.inj hsame with ⟨rfl, rfl⟩
  cases result with
  | ok progress => exact ⟨rfl, hR.system state hnext⟩
  | error cause => exact ⟨rfl, hR.system state hnext⟩

theorem transitions (hR : Lockstep R W) (system : System σ) (limit count : Nat) {a : Bench ε σ}
    {c : Bench ε' σ} {new : List String} (hac : R a c)
    (h : (Bench.transitions system.updateOn limit count c).2.written = new ++ c.written)
    (hnew : ∀ text ∈ new, W text) :
    (Bench.transitions system.updateOn limit count a).1
        = (Bench.transitions system.updateOn limit count c).1 ∧
      R (Bench.transitions system.updateOn limit count a).2
        (Bench.transitions system.updateOn limit count c).2 := by
  induction limit generalizing count a c new with
  | zero => exact ⟨rfl, hac⟩
  | succ limit ih =>
    have hupdate : ∀ {new}, _ = new ++ c.written → (∀ text ∈ new, W text) → _ :=
      hR.updateOn system hac
    unfold Bench.transitions at h
    rw [Bench.transitions, Bench.transitions]
    rcases hruna : system.updateOn a with ⟨result, a'⟩
    rcases hrunc : system.updateOn c with ⟨result', c'⟩
    rw [hrunc] at h
    rw [hruna, hrunc] at hupdate
    -- A failure and a rest end the step after this update, and nothing was written later.
    -- Progress leaves a shorter chain, with the lines split as in a program.
    rcases result' with halt | _ | _
    · rcases hupdate h hnew with ⟨hsame, hnext⟩
      subst hsame
      exact ⟨rfl, hnext⟩
    · rcases own_updateOn system c with ⟨first, _, hown⟩
      rcases own_transitions system limit (count + 1) c' with ⟨later, _, hrest⟩
      rw [hrunc] at hown
      have hfirst : c'.written = first ++ c.written := congrArg Own.written hown
      have hlater : (Bench.transitions system.updateOn limit (count + 1) c').2.written
          = later ++ c'.written := congrArg Own.written hrest
      have hsplit := eq_append_of_written hfirst hlater h
      subst hsplit
      rcases hupdate hfirst fun text htext => hnew text (List.mem_append_right _ htext)
        with ⟨hsame, hnext⟩
      subst hsame
      exact ih (count + 1) hnext hlater fun text htext => hnew text (List.mem_append_left _ htext)
    · rcases hupdate h hnew with ⟨hsame, hnext⟩
      subst hsame
      exact ⟨rfl, hnext⟩

/-- A step does the same on both benches. -/
theorem runStep (hR : Lockstep R W) (system : System σ) (limit : Nat) {a : Bench ε σ}
    {c : Bench ε' σ} {new : List String} (hac : R a c)
    (h : (Bench.runStep system.updateOn limit c).2.written = new ++ c.written)
    (hnew : ∀ text ∈ new, W text) :
    (Bench.runStep system.updateOn limit a).1 = (Bench.runStep system.updateOn limit c).1 ∧
      R (Bench.runStep system.updateOn limit a).2 (Bench.runStep system.updateOn limit c).2 := by
  -- `R` survives the two settings of the phase, so only the chain of updates is left.
  have hmoves : _ = new ++ ({ c with phase := .running } : Bench ε' σ).written →
      (∀ text ∈ new, W text) → _ := hR.transitions system limit 0 (hR.phase .running hac)
  rcases hruna : Bench.transitions system.updateOn limit 0 { a with phase := .running } with
    ⟨result, a'⟩
  rcases hrunc : Bench.transitions system.updateOn limit 0 { c with phase := .running } with
    ⟨halt | count, c'⟩
  · rw [runStep_of_error hrunc] at h
    rw [hruna, hrunc] at hmoves
    rcases hmoves h hnew with ⟨hsame, hnext⟩
    simp only at hsame
    subst hsame
    rw [runStep_of_error hruna, runStep_of_error hrunc]
    exact ⟨rfl, hnext⟩
  · rw [runStep_of_ok hrunc] at h
    rw [hruna, hrunc] at hmoves
    rcases hmoves h hnew with ⟨hsame, hnext⟩
    simp only at hsame
    subst hsame
    rw [runStep_of_ok hruna, runStep_of_ok hrunc]
    exact ⟨rfl, hR.note (.stepDone count) (hR.phase .quiescent hnext)⟩

end Lockstep

end Bench

end Testbench
