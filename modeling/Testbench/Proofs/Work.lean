import Testbench.Bench.Running
import Testbench.Proofs.Own

/-!
# Work on a Bench

How the pieces of work on a bench fit together. Work that may stop early runs its
parts one after another, so what it does is read off from what its first part does:
either that part succeeds and the rest goes on from there, or it stops and so does
the whole. These two facts are stated once, and every piece of the step loop is
taken apart by them.

A step is work of the system under test alone. Whatever the system and whatever the
environment, it adds lines to those written and moves the system on; the policy and
the published time stay as they are until the step is over.

## Theorems

* `Bench.bind_of_ok`, `Bench.bind_of_error`: Work in sequence.
* `Bench.start_simulated`, `Bench.settle_simulated`: What comes before a step in simulated
  time.
* `Bench.closeWindow_of_ok`: A window whose report was taken is followed by a wait.
* `Bench.updateOn_eq`: An update, by the program that it is.
* `Bench.runStep_of_ok`, `Bench.runStep_of_error`: A step, by its updates.
* `Bench.own_runStep`: A step only writes lines and moves the system on.
-/

namespace Testbench

namespace Bench

variable {ε σ α β : Type}

/-! ### Work in sequence -/

-- The sequencing of `BenchM` is opened here and nowhere else.
theorem bind_of_ok {x : BenchM ε σ α} {f : α → BenchM ε σ β} {b b' : Bench ε σ} {a : α}
    (h : x b = (.ok a, b')) : (x >>= f) b = f a b' := by
  change (match x b with
    | (r, b) => (ExceptT.bindCont f r : StateM (Bench ε σ) _) b) = _
  rw [h]
  rfl

theorem bind_of_error {x : BenchM ε σ α} {f : α → BenchM ε σ β} {b b' : Bench ε σ}
    {halt : Halt} (h : x b = (.error halt, b')) : (x >>= f) b = (.error halt, b') := by
  change (match x b with
    | (r, b) => (ExceptT.bindCont f r : StateM (Bench ε σ) _) b) = _
  rw [h]
  rfl

theorem advance_of_ok {b : Bench ε σ} {s next : SimulatedTime} (h : s.tick? = some next) :
    advance s b = (.ok (), { b with policy := .simulated next, virtualTime := next.now }.note
      (.timeAdvanced next.now)) := by
  simp only [advance, h]

theorem advance_of_none {b : Bench ε σ} {s : SimulatedTime} (h : s.tick? = none) :
    advance s b = (.error (.fault .timeOverflow), b) := by
  simp only [advance, h]

theorem runStep_of_error {update : BenchM ε σ Progress} {limit : Nat} {b next : Bench ε σ}
    {halt : Halt}
    (h : transitions update limit 0 { b with phase := .running } = (.error halt, next)) :
    runStep update limit b = (.error halt, next) := by
  unfold runStep
  rw [bind_of_ok (x := setPhase .running) (b := b) rfl]
  exact bind_of_error h

theorem runStep_of_ok {update : BenchM ε σ Progress} {limit count : Nat} {b next : Bench ε σ}
    (h : transitions update limit 0 { b with phase := .running } = (.ok count, next)) :
    runStep update limit b
      = (.ok count, { next with phase := .quiescent }.note (.stepDone count)) := by
  unfold runStep
  rw [bind_of_ok (x := setPhase .running) (b := b) rfl, bind_of_ok h]
  rfl

variable [Environment ε]

/-! ### Between two steps -/

theorem closeWindow_of_ok {b b₁ : Bench ε σ} {s : SimulatedTime}
    (h : b.deliver s.report = (.ok (), b₁)) :
    closeWindow s b
      = waitForDelay s ({ b₁ with hasOutput := false }.note (.windowClosed s.delayed)) := by
  have hraise : raising (deliver s.report) b = (.ok (), b₁) := by simp only [raising, h]
  unfold closeWindow
  rw [bind_of_ok hraise]
  exact bind_of_ok rfl

theorem start_simulated {b : Bench ε σ} {s : SimulatedTime} (h : b.policy = .simulated s) :
    start b = (waitForDelay s >>= fun _ => setPhase .running) b := by
  unfold start
  rw [bind_of_ok (x := get) rfl]
  simp only [h]

theorem settle_simulated {b : Bench ε σ} {s : SimulatedTime} (h : b.policy = .simulated s) :
    settle b = ((if b.hasOutput || s.isExhausted then closeWindow s else advance s)
      >>= fun _ => setPhase .running) { b with phase := .awaitingNextStep } := by
  rw [settle, bind_of_ok (x := setPhase .awaitingNextStep) (b := b) rfl,
    bind_of_ok (x := get) rfl]
  simp only [h]
  -- Both sides ask the same question, so each answer leaves one branch on either side.
  by_cases hclose : (b.hasOutput || s.isExhausted) = true
  · simp only [hclose, if_true]
  · rw [if_neg hclose, if_neg hclose]

/-! ### Steps -/

/-- An update keeps the state that the system has reached, also when it fails. -/
theorem updateOn_eq (system : System σ) (b : Bench ε σ) :
    system.updateOn b
      = (((system.update.run.run b.system).runOn b).1.1.mapError Halt.error,
        { ((system.update.run.run b.system).runOn b).2 with
          system := ((system.update.run.run b.system).runOn b).1.2 }) := by
  unfold System.updateOn
  rcases (system.update.run.run b.system).runOn b with ⟨⟨cause | progress, state⟩, next⟩
  · rfl
  · rfl

theorem own_updateOn (system : System σ) (b : Bench ε σ) :
    ∃ new state, (system.updateOn b).2.own = { b.own.writing new with system := state } := by
  rcases own_runOn (system.update.run.run b.system) b with ⟨new, hnew⟩
  refine ⟨new, ((system.update.run.run b.system).runOn b).1.2, ?_⟩
  rw [← hnew, updateOn_eq]
  rfl

theorem own_transitions (system : System σ) (limit count : Nat) (b : Bench ε σ) :
    ∃ new state, (transitions system.updateOn limit count b).2.own
      = { b.own.writing new with system := state } := by
  induction limit generalizing count b with
  | zero =>
    refine ⟨[], b.system, ?_⟩
    rw [Own.writing_nil]
    rfl
  | succ limit ih =>
    -- One update, and then by its result: go on, come to rest, or stop on a failure. Only
    -- the first of these uses the induction hypothesis.
    rcases own_updateOn system b with ⟨first, state, hfirst⟩
    unfold transitions
    split
    · next b₁ hupdate =>
      rw [hupdate] at hfirst
      rcases ih (count + 1) b₁ with ⟨later, last, hlater⟩
      refine ⟨later ++ first, last, ?_⟩
      rw [hlater, hfirst, ← Own.writing_writing]
      rfl
    · next b₁ hupdate =>
      rw [hupdate] at hfirst
      exact ⟨first, state, hfirst⟩
    · next halt b₁ hupdate =>
      rw [hupdate] at hfirst
      exact ⟨first, state, hfirst⟩

theorem own_runStep (system : System σ) (limit : Nat) (b : Bench ε σ) :
    ∃ new state phase, (runStep system.updateOn limit b).2.own
      = { b.own.writing new with system := state, phase } := by
  -- The phase is set before the updates and once more after them, unless they fail.
  rcases own_transitions system limit 0 { b with phase := .running } with ⟨new, state, hnew⟩
  rcases hrun : transitions system.updateOn limit 0 { b with phase := .running } with
    ⟨halt | count, next⟩
  · rw [hrun] at hnew
    rw [runStep_of_error hrun]
    exact ⟨new, state, .running, hnew⟩
  · rw [hrun] at hnew
    rw [runStep_of_ok hrun]
    refine ⟨new, state, .quiescent, ?_⟩
    have hphase := congrArg (fun own => { own with phase := Phase.quiescent }) hnew
    exact hphase

end Bench

end Testbench
