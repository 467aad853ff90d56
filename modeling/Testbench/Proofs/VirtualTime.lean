import Mathlib.Logic.Relation
import Testbench.Proofs.Course
import Testbench.Proofs.Windows

/-!
# Virtual Time Stays in Its Window

A bench in simulated time is used by whoever drives it: waits are begun and settled in
any order and number, whether or not they succeed, and in between lines are pushed,
consumed and written, and the inbox is closed. The time of the bench is safe from all of
this. It is never before the opening of the last window and never after its end, it is
whole milliseconds from both, it is what is published, and it never goes back.

The reason is that only four things ever become of it. A call leaves it alone, or opens
a window, or fails to, or lets a millisecond pass. A window is opened at the present, and
it ends whole milliseconds later, since that is what a directive says. A millisecond
passes only if the window is not over, and then a whole one is left of it. So the next
millisecond is always in the range of timestamps, because the end of the window is. That
the end is in range has been checked when the window was opened, and this check is the
only one that can fail.

## Main definitions

* `SimulatedTime.IsSound`: The present is in the window.
* `SimulatedTime.Outcome`: What a call can make of time, and the fault it can have.
* `Bench.Shows`: The time of a bench, which is published.
* `Bench.Use`: What can be done with a bench.

## Theorems

* `SimulatedTime.IsSound.outcome`: Whatever is made of it, time is in its window.
* `SimulatedTime.IsSound.ticks`: A millisecond that is left can pass.
* `Bench.passes_settle`: Settling makes of time what can be made of it.
* `Bench.time_stays_in_its_window`: What holds however the bench is used.
-/

namespace Testbench

namespace SimulatedTime

/-- The present is in the window, whole milliseconds from its beginning and its end. -/
structure IsSound (s : SimulatedTime) : Prop where
  elapsed : ∃ millis : Nat, s.now.nanos = s.opened.nanos + (millis : Int) * 1000000
  left : ∃ millis : Nat, s.limit.nanos = s.now.nanos + (millis : Int) * 1000000

/-- What a call can make of time, and the fault by which it is stopped then, if any. -/
inductive Outcome (s : SimulatedTime) : Option Fault → SimulatedTime → Prop
  | kept : Outcome s none s
  | granted {directive : Line} {delay : Duration} {limit : Timestamp}
      (hdelay : directive.delay? = some delay) (hlimit : s.now.add? delay = some limit) :
      Outcome s none { s with opened := s.now, limit }
  /-- The end of the window is beyond the last timestamp. -/
  | refused {directive : Line} {delay : Duration} (hdelay : directive.delay? = some delay)
      (hlimit : s.now.add? delay = none) :
      Outcome s (some .timeOverflow) { s with opened := s.now }
  | ticked {later : SimulatedTime} (hleft : s.isExhausted = false) (hlater : s.tick? = some later) :
      Outcome s none later

theorem tick?_cases {s later : SimulatedTime} (h : s.tick? = some later) :
    ∃ now, later = { s with now } ∧ now.nanos = s.now.nanos + 1000000 := by
  rcases Option.map_eq_some_iff.mp h with ⟨now, hnow, rfl⟩
  exact ⟨now, rfl, Timestamp.add?_eq_some.mp hnow⟩

theorem isSound_startingAt (t : Timestamp) : (startingAt t).IsSound :=
  ⟨⟨0, by simp only [startingAt]; omega⟩, ⟨0, by simp only [startingAt]; omega⟩⟩

namespace IsSound

variable {s next : SimulatedTime}

/-- A window that is not over has a millisecond left, and it can pass. -/
theorem ticks (h : s.IsSound) (hleft : s.isExhausted = false) : ∃ later, s.tick? = some later := by
  rcases h.left with ⟨_ | millis, hmillis⟩
  · rw [isExhausted_eq hmillis] at hleft
    exact absurd hleft (by decide)
  · rcases SimulatedTime.tick?_eq_some hmillis with ⟨now, htick, -⟩
    exact ⟨_, htick⟩

/-- Whatever is made of it, time is in its window. -/
theorem outcome {fault : Option Fault} (h : s.IsSound) (houtcome : s.Outcome fault next) :
    next.IsSound := by
  rcases h.elapsed with ⟨elapsed, helapsed⟩
  rcases h.left with ⟨left, hleft⟩
  cases houtcome with
  | kept => exact h
  | @granted directive delay limit hdelay hlimit =>
    -- A directive counts whole milliseconds.
    rcases Line.delay?_eq_some_iff.mp hdelay with ⟨digits, -, -, -, -, rfl⟩
    have hend := Timestamp.add?_eq_some.mp hlimit
    refine ⟨⟨0, by simp only; omega⟩, ⟨Nat.ofDigitChars 10 digits 0, ?_⟩⟩
    simp only [Duration.ofMillis] at hend ⊢
    omega
  | refused hdelay hlimit => exact ⟨⟨0, by simp only; omega⟩, ⟨left, hleft⟩⟩
  | ticked hmore hlater =>
    rcases tick?_cases hlater with ⟨now, rfl, hnow⟩
    rw [isExhausted_eq hleft, decide_eq_false_iff_not] at hmore
    refine ⟨⟨elapsed + 1, ?_⟩, ⟨left - 1, ?_⟩⟩
    · simp only
      omega
    · simp only
      omega

theorem opened_le (h : s.IsSound) : s.opened ≤ s.now := by
  rcases h.elapsed with ⟨millis, hmillis⟩
  change s.opened.nanos ≤ s.now.nanos
  omega

theorem le_limit (h : s.IsSound) : s.now ≤ s.limit := by
  rcases h.left with ⟨millis, hmillis⟩
  change s.now.nanos ≤ s.limit.nanos
  omega

theorem add?_elapsed (h : s.IsSound) :
    ∃ millis, s.opened.add? (Duration.ofMillis millis) = some s.now := by
  rcases h.elapsed with ⟨millis, hmillis⟩
  refine ⟨millis, Timestamp.add?_eq_some.mpr ?_⟩
  simp only [Duration.ofMillis]
  omega

theorem add?_left (h : s.IsSound) :
    ∃ millis, s.now.add? (Duration.ofMillis millis) = some s.limit := by
  rcases h.left with ⟨millis, hmillis⟩
  refine ⟨millis, Timestamp.add?_eq_some.mpr ?_⟩
  simp only [Duration.ofMillis]
  omega

end IsSound

/-- Time never goes back. -/
theorem Outcome.le {s next : SimulatedTime} {fault : Option Fault} (h : s.Outcome fault next) :
    s.now ≤ next.now := by
  cases h with
  | kept | granted | refused => exact Int.le_refl _
  | ticked _ hlater =>
    rcases tick?_cases hlater with ⟨now, rfl, hnow⟩
    change s.now.nanos ≤ now.nanos
    omega

end SimulatedTime

/-- The fault by which work was stopped. -/
def faultOf {α : Type} : Except Halt α → Option Fault
  | .error (.fault fault) => some fault
  | _ => none

namespace Bench

variable {ε σ : Type}

/-- The time of the bench, which is published. -/
structure Shows (b : Bench ε σ) (s : SimulatedTime) : Prop where
  policy : b.policy = .simulated s
  published : b.virtualTime = s.now

theorem Shows.of_own {b next : Bench ε σ} {s : SimulatedTime} (h : b.Shows s)
    (hown : next.own = b.own) : next.Shows s :=
  ⟨(congrArg Own.policy hown).trans h.policy, (congrArg Own.virtualTime hown).trans h.published⟩

/-- The work makes of time what can be made of it. -/
def Passes {α : Type} (s : SimulatedTime) (outcome : Except Halt α × Bench ε σ) : Prop :=
  ∃ next, s.Outcome (faultOf outcome.1) next ∧ outcome.2.Shows next

/-- Only a fault counts, and not the answer. -/
theorem Passes.map {α β : Type} {s : SimulatedTime} {result : Except Halt α} {next : Bench ε σ}
    (h : Passes s (result, next)) (f : α → β) : Passes s (result.map f, next) := by
  have hfault : faultOf (result.map f) = faultOf result := by
    rcases result with (_ | _ | _ | _) | a <;> rfl
  rcases h with ⟨later, houtcome, hshows⟩
  refine ⟨later, ?_, hshows⟩
  rw [hfault]
  exact houtcome

theorem Passes.setPhase {s : SimulatedTime} {phase : Phase} {work : BenchM ε σ Unit}
    {b : Bench ε σ} (h : Passes s (work b)) :
    Passes s ((work >>= fun _ => Bench.setPhase phase) b) := by
  rcases h with ⟨next, houtcome, hshows⟩
  rcases hwork : work b with ⟨halt | _, b'⟩
  · rw [hwork] at houtcome hshows
    rw [bind_of_error hwork]
    exact ⟨next, houtcome, hshows⟩
  · rw [hwork] at houtcome hshows
    rw [bind_of_ok hwork]
    exact ⟨next, houtcome, hshows.policy, hshows.published⟩

/-- A call that is stopped by a fault has tried to open a window whose end is beyond the
    last timestamp, and has left the time and the end of the last window as they were. -/
def Overflows {α : Type} (s : SimulatedTime) (outcome : Except Halt α × Bench ε σ) : Prop :=
  ∀ fault, outcome.1 = .error (.fault fault) → fault = .timeOverflow ∧
    (∃ (directive : Line) (delay : Duration),
      directive.delay? = some delay ∧ s.now.add? delay = none) ∧
    outcome.2.policy = .simulated { s with opened := s.now } ∧ outcome.2.virtualTime = s.now

theorem Passes.overflows {α : Type} {s : SimulatedTime} {outcome : Except Halt α × Bench ε σ}
    (h : Passes s outcome) : Overflows s outcome := by
  rcases h with ⟨next, houtcome, hshows⟩
  intro fault hfault
  rw [hfault, faultOf] at houtcome
  cases houtcome with
  | refused hdelay hlimit =>
    exact ⟨rfl, ⟨_, _, hdelay, hlimit⟩, hshows.policy, hshows.published⟩

theorem passes_advance (b : Bench ε σ) {s : SimulatedTime} (hsound : s.IsSound)
    (hleft : s.isExhausted = false) : Passes s (advance s b) := by
  rcases hsound.ticks hleft with ⟨later, hlater⟩
  rw [advance_of_ok hlater]
  exact ⟨later, .ticked hleft hlater, rfl, rfl⟩

variable [Environment ε]

theorem passes_openWindow {b : Bench ε σ} {s : SimulatedTime} (h : b.Shows s) :
    Passes s (openWindow s b) := by
  rcases hfound : (b.turn .access).inbox.lines.filter Line.isDirective with
    _ | ⟨directive, superseded⟩
  · rw [openWindow_of_nothing s hfound]
    exact ⟨s, .kept, h.of_own (own_turn .access b)⟩
  · rcases hdelay : directive.delay? with _ | delay
    · rcases openWindow_of_malformed s hfound hdelay with ⟨next, hopen, hown, -⟩
      rw [hopen]
      exact ⟨s, .kept, h.of_own hown⟩
    · rcases openWindow_of_directive s hfound hdelay with ⟨next, hopen, hown, -⟩
      have hpolicy := congrArg Own.policy hown
      have hpublished := (congrArg Own.virtualTime hown).trans h.published
      rw [hopen]
      rcases hlimit : s.now.add? delay with _ | limit
      · simp only [SimulatedTime.grant, hlimit] at hpolicy
        simp only [SimulatedTime.grant, hlimit]
        exact ⟨_, .refused hdelay hlimit, hpolicy, hpublished⟩
      · simp only [SimulatedTime.grant, hlimit] at hpolicy
        simp only [SimulatedTime.grant, hlimit]
        exact ⟨_, .granted hdelay hlimit, hpolicy, hpublished⟩

/-- A wait for a line is not stopped by a fault. -/
theorem faultOf_listen (b : Bench ε σ) : faultOf (listen b).1 = none := by
  rcases listen_cases b with ⟨-, hlisten⟩ | ⟨-, hlisten⟩ | ⟨-, result, hresult, hlisten⟩
  · rw [hlisten]
    rfl
  · rw [hlisten]
    rfl
  · rw [hlisten]
    cases result with
    | ok _ => rfl
    | error halt =>
      cases halt with
      | fault fault => exact absurd rfl (hresult fault)
      | error _ | blocked | exhausted => rfl

theorem passes_waitForDelay {b : Bench ε σ} {s : SimulatedTime} (h : b.Shows s) :
    Passes s (waitForDelay s b) := by
  have hsearch := passes_openWindow h
  rcases hfirst : openWindow s b with ⟨halt | _ | _, b₁⟩
  · rw [hfirst] at hsearch
    rw [waitForDelay_of_found hfirst nofun]
    exact hsearch.map _
  · have hshows₁ : b₁.Shows s := h.of_own (own_openWindow_of_vain hfirst)
    have hown := own_listen b₁
    have hfault := faultOf_listen b₁
    rcases hlisten : listen b₁ with ⟨halt | _, b₂⟩
    · rw [hlisten] at hown hfault
      rw [waitForDelay_of_closed hfirst hlisten]
      refine ⟨s, ?_, hshows₁.of_own hown⟩
      rw [show faultOf (.error halt : Except Halt Unit) = none from hfault]
      exact .kept
    · rw [hlisten] at hown
      have hagain := passes_openWindow (hshows₁.of_own hown)
      rcases hsecond : openWindow s b₂ with ⟨halt | _ | _, b₃⟩
      · rw [hsecond] at hagain
        rw [waitForDelay_of_rung hfirst hlisten hsecond nofun]
        exact hagain.map _
      · rw [waitForDelay_of_vain hfirst hlisten hsecond]
        exact ⟨s, .kept, (hshows₁.of_own hown).of_own (own_openWindow_of_vain hsecond)⟩
      · rw [hsecond] at hagain
        rw [waitForDelay_of_rung hfirst hlisten hsecond nofun]
        exact hagain.map _
  · rw [hfirst] at hsearch
    rw [waitForDelay_of_found hfirst nofun]
    exact hsearch.map _

theorem passes_start {b : Bench ε σ} {s : SimulatedTime} (h : b.Shows s) : Passes s (start b) := by
  rw [start_simulated h.policy]
  exact (passes_waitForDelay h).setPhase

/-- A report that is refused has made nothing of time. -/
theorem passes_closeWindow {b : Bench ε σ} {s : SimulatedTime} (h : b.Shows s) :
    Passes s (closeWindow s b) := by
  rcases own_deliver s.report b with ⟨new, hown⟩
  rcases hdeliver : b.deliver s.report with ⟨cause | _, next⟩
  · have hraise : raising (deliver s.report) b = (.error (.error cause), next) := by
      simp only [raising, hdeliver]
    rw [hdeliver] at hown
    unfold closeWindow
    rw [bind_of_error hraise]
    exact ⟨s, .kept, (congrArg Own.policy hown).trans h.policy,
      (congrArg Own.virtualTime hown).trans h.published⟩
  · rw [hdeliver] at hown
    rw [closeWindow_of_ok hdeliver]
    exact passes_waitForDelay ⟨(congrArg Own.policy hown).trans h.policy,
      (congrArg Own.virtualTime hown).trans h.published⟩

/-- Settling makes of time what can be made of it. -/
theorem passes_settle {b : Bench ε σ} {s : SimulatedTime} (h : b.Shows s) (hsound : s.IsSound) :
    Passes s (settle b) := by
  have hphase : ({ b with phase := .awaitingNextStep } : Bench ε σ).Shows s :=
    ⟨h.policy, h.published⟩
  rw [settle_simulated h.policy]
  by_cases hclose : (b.hasOutput || s.isExhausted) = true
  · rw [if_pos hclose]
    exact (passes_closeWindow hphase).setPhase
  · rw [if_neg hclose]
    have hleft : s.isExhausted = false := by
      rw [Bool.not_eq_true, Bool.or_eq_false_iff] at hclose
      exact hclose.2
    exact (passes_advance _ hsound hleft).setPhase

/-! ### Whatever is done with a bench -/

/-- What can be done with a bench, by its driver, by a system under test, and by everybody
    else who has a hold of its inbox. -/
inductive Use : Bench ε σ → Bench ε σ → Prop
  | start {b : Bench ε σ} : Use b (start b).2
  | settle {b : Bench ε σ} : Use b (settle b).2
  | runStep {b : Bench ε σ} (system : System σ) (limit : Nat) :
      Use b (runStep system.updateOn limit b).2
  | answer {b : Bench ε σ} (c : Call) : Use b (b.answer c).2
  | extract {b : Bench ε σ} (wants : Predicate) : Use b (extract wants b).2
  | receive {b : Bench ε σ} (inCall : Bool) (act : Act) : Use b (b.receive inCall act)

theorem own_extract (wants : Predicate) (b : Bench ε σ) : (extract wants b).2.own = b.own := by
  rw [← own_turn .access b]
  simp only [extract]
  split
  · rfl
  · rfl

/-- A use makes of time what can be made of it. -/
theorem outcome_use {b next : Bench ε σ} {s : SimulatedTime} (h : Use b next) (hb : b.Shows s)
    (hsound : s.IsSound) : ∃ fault later, s.Outcome fault later ∧ next.Shows later := by
  cases h with
  | start =>
    rcases passes_start hb with ⟨later, houtcome, hshows⟩
    exact ⟨_, later, houtcome, hshows⟩
  | settle =>
    rcases passes_settle hb hsound with ⟨later, houtcome, hshows⟩
    exact ⟨_, later, houtcome, hshows⟩
  | runStep system limit =>
    rcases own_runStep system limit b with ⟨new, state, phase, hown⟩
    exact ⟨none, s, .kept, (congrArg Own.policy hown).trans hb.policy,
      (congrArg Own.virtualTime hown).trans hb.published⟩
  | answer c =>
    rcases own_answer b c with ⟨new, hown⟩
    exact ⟨none, s, .kept, (congrArg Own.policy hown).trans hb.policy,
      (congrArg Own.virtualTime hown).trans hb.published⟩
  | extract wants => exact ⟨none, s, .kept, hb.of_own (own_extract wants b)⟩
  | receive inCall act => exact ⟨none, s, .kept, hb.of_own (receive_eq inCall b act).1⟩

/-- Time is in its window after any uses, and not before what it was. -/
theorem uses {b later : Bench ε σ} {s : SimulatedTime} (h : Relation.ReflTransGen Use b later)
    (hb : b.Shows s) (hsound : s.IsSound) : ∃ t, later.Shows t ∧ t.IsSound ∧ s.now ≤ t.now := by
  induction h with
  | refl => exact ⟨s, hb, hsound, Int.le_refl _⟩
  | tail _ huse ih =>
    rcases ih with ⟨t, hshows, ht, hle⟩
    rcases outcome_use huse hshows ht with ⟨fault, next, houtcome, hnext⟩
    exact ⟨next, hnext, ht.outcome houtcome, Int.le_trans hle houtcome.le⟩

/-- However a bench in simulated time is used, from any start: the time is in its window,
    whole milliseconds from both ends of it, and it is published; and it never goes back.
    So the time that is reported is exact, a millisecond that is left of the window can
    pass, and the only fault there can be is that a directive grants a window whose end is
    beyond the last timestamp, which leaves the time and the end of the window alone. -/
theorem time_stays_in_its_window {b later : Bench ε σ} {t : Timestamp}
    (hpolicy : b.policy = .simulated (.startingAt t)) (hpublished : b.virtualTime = t)
    (huses : Relation.ReflTransGen Use b later) :
    ∃ s, later.policy = .simulated s ∧
      (s.opened ≤ s.now ∧ s.now ≤ s.limit) ∧
      (∃ millis, s.opened.add? (Duration.ofMillis millis) = some s.now) ∧
      (∃ millis, s.now.add? (Duration.ofMillis millis) = some s.limit) ∧
      later.virtualTime? = some s.now ∧
      (∀ last, Relation.ReflTransGen Use later last →
        ∃ s', last.policy = .simulated s' ∧ s.now ≤ s'.now) ∧
      s.opened.add? s.delayed = some s.now ∧
      (s.isExhausted = false → ∃ next, s.tick? = some next) ∧
      Overflows s (start later) ∧ Overflows s (settle later) := by
  rcases uses huses ⟨hpolicy, hpublished⟩ (SimulatedTime.isSound_startingAt t) with
    ⟨s, hshows, hsound, -⟩
  refine ⟨s, hshows.policy, ⟨hsound.opened_le, hsound.le_limit⟩, hsound.add?_elapsed,
    hsound.add?_left, ?_, ?_, ?_, hsound.ticks, (passes_start hshows).overflows,
    (passes_settle hshows hsound).overflows⟩
  · simp only [virtualTime?, hshows.policy, hshows.published]
  · intro last hlast
    rcases uses hlast hshows hsound with ⟨s', hlater, -, hle⟩
    exact ⟨s', hlater.policy, hle⟩
  · rcases hsound.add?_elapsed with ⟨millis, hmillis⟩
    rw [SimulatedTime.delayed, Timestamp.since_of_add? hmillis]
    exact hmillis

/-- A bench two milliseconds before the last timestamp, and a directive for one of them. -/
def nearTheEnd : Bench Passive Echo where
  inbox := ⟨[⟨"Delay: 1"⟩], Slots.empty, false⟩
  hasOutput := false
  policy := .simulated (.startingAt
    ⟨9223372036854775808 * 1000000000 - 2000001, by decide, by decide⟩)
  phase := .running
  virtualTime := ⟨9223372036854775808 * 1000000000 - 2000001, by decide, by decide⟩
  wall := .epoch
  wake := .asleep
  environment := {}
  system := {}
  written := []
  journal := .empty none

/-- One millisecond has passed, and a directive asks for nine more. -/
def atTheEnd : Bench Passive Echo :=
  (settle (start nearTheEnd).2).2.receive false (.push ⟨"Delay: 9"⟩)

theorem time_stays_in_its_window_at_the_end :
    (settle atTheEnd).1 = .error (.fault .timeOverflow) ∧
      (settle atTheEnd).2.virtualTime = atTheEnd.virtualTime := by
  have hfault : (settle atTheEnd).1 = .error (.fault .timeOverflow) := by decide +kernel
  have huses : Relation.ReflTransGen Use nearTheEnd atTheEnd :=
    ((Relation.ReflTransGen.single .start).tail .settle).tail (.receive false _)
  rcases time_stays_in_its_window rfl rfl huses with
    ⟨s, hpolicy, -, -, -, hpublished, -, -, -, -, hsettle⟩
  rcases hsettle _ hfault with ⟨-, -, -, hafter⟩
  simp only [virtualTime?, hpolicy, Option.some.injEq] at hpublished
  exact ⟨hfault, hafter.trans hpublished.symm⟩

end Bench

end Testbench
