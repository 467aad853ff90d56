import Testbench.Proofs.Clocks
import Testbench.Proofs.Contract

/-!
# Failed Updates

An update that fails has tried to do something and could not. The line at hand was not expected,
or the output channel did not take what was to be written. A test environment that puts this
right would have the update made once more, so the system had better be as it was before.

The fish retailer always is, and so is the car alarm in all of its locations but one. When the
alarm was armed again and nothing has happened for a long time, it is switched off. It resets
its clock on the way, and it does so before it says that it is off. If nobody takes this
line, then the clock stays reset: the alarm is still armed, and waits as long again.

## Main definitions

* `CarAlarm.IsOverdue`: The alarm is armed again, and has been for too long.
* `CarAlarm.Fails`: How an update of the alarm can fail.

## Theorems

* `CarAlarm.ensures_update_fails`: The failures of the alarm's updates.
* `FishRetailer.Serves.spared`: A failure leaves the retailer as it was.
* `failed_updates_spare_the_system`: What failed updates leave, on every bench.
-/

namespace Testbench

namespace Rounding

theorem not_lt_zero_div (u : Float) : ¬ Float.ofNat 0 < Float.ofNat 0 / u := by
  intro hpos
  rw [lt_iff, unpack_ofNat_zero, unpack_div, unpack_ofNat_zero] at hpos
  obtain ⟨zero, ⟨⟩, k, hk, hpos⟩ := hpos
  exact absurd hpos (key_quotient_zero hk).not_gt

end Rounding

theorem Played.of_cons {ε σ : Type} [Environment ε] {b : Bench ε σ} {c : Call} {answer : c.Answer}
    {rest : List Answered} (h : Played b (⟨c, answer⟩ :: rest)) :
    answer = (b.answer c).1 ∧ Played (b.answer c).2 rest := by
  cases h with
  | cons hrest => exact ⟨rfl, hrest⟩

namespace Bench

variable {ε σ : Type}

/-- A clock reads more than nothing only when it was reset earlier. -/
theorem moment_lt_of_reading {b : Bench ε σ} {x : Anchor} (h : Float.ofNat 0 < b.reading x) :
    x.moment < b.now := by
  by_contra hearly
  have hnone : (x.elapsed b.now).millis = 0 := by
    have hle : b.now.nanos ≤ x.moment.nanos := Int.not_lt.mp hearly
    unfold Anchor.elapsed Timestamp.since Duration.millis
    rw [Int.toNat_eq_zero.mpr (Int.sub_nonpos_of_le hle)]
    rfl
  rcases hunit : b.scale with _ | unit
  · simp only [reading, hunit, hnone] at h
    exact Rounding.not_lt_of_le (Rounding.ofNat_mono (Nat.le_refl 0)) h
  · simp only [reading, hunit, hnone] at h
    exact Rounding.not_lt_zero_div unit h

end Bench

namespace CarAlarm

open Location

/-- The alarm was armed again, nobody has touched anything, and its time has passed. -/
structure IsOverdue {ε : Type} [Environment ε] (b : Bench ε CarAlarm) : Prop where
  location : b.system.location = armed
  alarmLocked : b.system.alarmLocked = true
  unready : b.inputReady.1 = false
  late : rearmingDelay < (b.inputReady.2.value b.system.x).1

/-- How an update can fail, and the alarm that it leaves. -/
inductive Fails (a : CarAlarm) : List Answered → CarAlarm → Prop
  /-- An armed alarm had an input. -/
  | spared {d : List Answered} (hready : a.location = armed → ⟨.inputReady, true⟩ ∈ d.head?) :
      Fails a d a
  /-- The clock is reset by then. -/
  | reset (time : Float) (x : Anchor) (cause : ExecutionError) (hlocation : a.location = armed)
      (hmark : a.alarmLocked = true) (hlate : rearmingDelay < time) :
      Fails a [⟨.inputReady, false⟩, ⟨.value a.x, time⟩, ⟨.resetTime, x⟩,
        ⟨.write "armedOff", .error cause⟩] { a with x }

theorem Asks.fails {a : CarAlarm} {d rest : List Answered} (h : a.Asks d) :
    Fails a (d ++ ⟨.inputReady, true⟩ :: rest) a := by
  refine .spared fun hlocation => ?_
  cases h with
  | nothing => rfl
  | early _ hbound => simp [hlocation] at hbound

/-- This is the one line that is written when the clock has been reset already. -/
theorem Finds.fails {a : CarAlarm} {d : List Answered} {x : Anchor} (h : a.Finds d x) {e : Edge}
    (he : e ∈ edges a.location) (hinput : e.input = none) {given rest : List String}
    {text : String} (hsplit : e.outputs = given ++ text :: rest) (cause : ExecutionError) :
    Fails a (d ++ given.map wrote ++ [⟨.write text, .error cause⟩]) { a with x } := by
  cases h with
  | nothing hpassing | late _ hpassing =>
    exact .spared fun hlocation => absurd hpassing (by simp [hlocation])
  | overdue time x hlocation hmark hover =>
    have honly : ∀ e ∈ edges armed, e.input = none → e.outputs = ["armedOff"] := by decide
    rw [honly e (hlocation ▸ he) hinput] at hsplit
    rcases List.cons_eq_append_iff.mp hsplit with ⟨rfl, hlast⟩ | ⟨_, -, hnone⟩
    · rcases List.cons.inj hlast with ⟨rfl, -⟩
      rw [Over, hlocation] at hover
      exact .reset time x cause hlocation hmark hover
    · exact absurd hnone (by simp)

/-- What is said of an update that may fail. -/
def FailsOr (a : CarAlarm) : Procedure.Post CarAlarm Progress := fun d result next =>
  match result with
  | .ok _ => True
  | .error _ => Fails a d next

theorem ensures_update_fails (a : CarAlarm) : system.update.Ensures a a.FailsOr := by
  refine (ensures_update_goes a).mono fun d result next h => ?_
  cases h with
  | unread hasks | refused hasks => exact hasks.fails
  | takes | rests | gives => trivial
  | broke hfinds he hinput given hsplit cause => exact hfinds.fails he hinput hsplit cause

variable {ε : Type} [Environment ε] {b : Bench ε CarAlarm}

theorem rearmingDelay_nonneg : Float.ofNat 0 ≤ rearmingDelay := by decide +kernel

/-- The moment at which an overdue alarm resets its clock is a later one. -/
theorem IsOverdue.reset_ne (h : IsOverdue b) :
    ((b.inputReady.2.value b.system.x).2.reset).1 ≠ b.system.x := by
  set m := (b.inputReady.2.value b.system.x).2 with hm
  have hlate : rearmingDelay < m.reading b.system.x :=
    h.late.trans_eq (b.inputReady.2.value_eq b.system.x)
  have hbefore := Bench.moment_lt_of_reading (Rounding.lt_of_le_of_lt rearmingDelay_nonneg hlate)
  have hlater : m.now ≤ (m.turn .access).now :=
    (Bench.Precedes.of_policy (m.policy_turn .access) (m.wall_turn .access)).le
  intro hsame
  have hmoment : (m.turn .access).now = b.system.x.moment := congrArg Anchor.moment hsame
  rw [hmoment] at hlater
  exact absurd hbefore (Int.not_lt.mpr hlater)

/-- On a bench it is an overdue alarm that does not stay as it was. -/
theorem Fails.onBench {d : List Answered} {left : CarAlarm} (h : Fails b.system d left)
    (hplayed : Played b d) :
    (left = b.system ↔ ¬ IsOverdue b) ∧ ∃ x, left = { b.system with x } := by
  cases h with
  | spared hready =>
    refine ⟨iff_of_true rfl fun hover => ?_, b.system.x, rfl⟩
    rcases d with _ | ⟨first, rest⟩
    · exact absurd (hready hover.location) nofun
    · rcases Option.some.inj (hready hover.location)
      exact absurd (hplayed.ready_eq.trans hover.unready) nofun
  | reset time x cause hlocation hmark hlate =>
    rcases hplayed.of_cons with ⟨hunready, hvalue⟩
    rcases hvalue.of_cons with ⟨htime, hreset⟩
    rcases hreset.of_cons with ⟨hx, -⟩
    subst htime hx
    have hover : IsOverdue b := ⟨hlocation, hmark, hunready.symm, hlate⟩
    exact ⟨iff_of_false (fun hsame => hover.reset_ne (congrArg CarAlarm.x hsame))
      (not_not_intro hover), _, rfl⟩

end CarAlarm

/-- A failure leaves the retailer as it was. -/
theorem FishRetailer.Serves.spared {r left : FishRetailer} {d : List Answered}
    {cause : ExecutionError} (h : r.Serves d (.error cause) left) : left = r := by
  cases h with
  | unread | refused | broke => rfl

/-- An update that fails leaves a fish retailer as it was. It leaves a car alarm as it was unless
    the alarm is overdue to be switched off: then its clock has been reset, and nothing else. -/
theorem failed_updates_spare_the_system {ε : Type} [Environment ε] :
    (∀ (b : Bench ε CarAlarm) (halt : Halt), (CarAlarm.system.updateOn b).1 = .error halt →
      ((CarAlarm.system.updateOn b).2.system = b.system ↔ ¬ CarAlarm.IsOverdue b) ∧
        ∃ x, (CarAlarm.system.updateOn b).2.system = { b.system with x }) ∧
    ∀ (b : Bench ε FishRetailer) (halt : Halt),
      (FishRetailer.system.updateOn b).1 = .error halt →
        (FishRetailer.system.updateOn b).2.system = b.system := by
  constructor
  · intro b halt hhalt
    rcases System.ensures_updateOn (CarAlarm.ensures_update_fails b.system)
      with ⟨cause | progress, hfails, hresult⟩
    · exact CarAlarm.Fails.onBench hfails (CarAlarm.system.played_dialogueOn b)
    · exact absurd (hresult.symm.trans hhalt) nofun
  · intro b halt hhalt
    have hensures : FishRetailer.system.update.Ensures b.system _ :=
      FishRetailer.ensures_update_serves b.system
    rcases System.ensures_updateOn hensures with ⟨cause | progress, hserves, hresult⟩
    · exact hserves.spared
    · exact absurd (hresult.symm.trans hhalt) nofun

/-- After 401 milliseconds without an input, a line is to be written and nobody takes it. -/
def refused {σ : Type} (system : σ) : Bench (Scripted (Limited Recorder)) σ where
  inbox := .empty
  hasOutput := false
  policy := .simulated (.startingAt ⟨401000000, by decide, by decide⟩)
  phase := .running
  virtualTime := ⟨401000000, by decide, by decide⟩
  wall := .epoch
  wake := .asleep
  environment := ⟨⟨.empty, some 0, .brokenPipe⟩, none, reportMark, [], []⟩
  system := system
  written := []
  journal := .empty none

/-- An alarm that is not armed yet and a retailer stay as they are. -/
theorem failed_updates_spare_the_system_refused :
    (CarAlarm.system.updateOn (refused ⟨.arming, ⟨.epoch⟩, false⟩)).2.system
        = ⟨.arming, ⟨.epoch⟩, false⟩ ∧
      (FishRetailer.system.updateOn (refused ⟨.coinGranted, ⟨.epoch⟩, true⟩)).2.system
        = ⟨.coinGranted, ⟨.epoch⟩, true⟩ := by
  have hspares := failed_updates_spare_the_system (ε := Scripted (Limited Recorder))
  constructor
  · exact (hspares.1 (refused ⟨.arming, ⟨.epoch⟩, false⟩) (.error (.output .brokenPipe))
      (by decide +kernel)).1.mpr fun hover => absurd hover.location (by decide)
  · exact hspares.2 (refused ⟨.coinGranted, ⟨.epoch⟩, true⟩) (.error (.output .brokenPipe))
      (by decide +kernel)

/-- An overdue alarm is left with a clock that has just been reset, and the next update has
    nothing to do. -/
theorem failed_update_resets_the_clock :
    (CarAlarm.system.updateOn (refused ⟨.armed, ⟨.epoch⟩, true⟩)).1
        = .error (.error (.output .brokenPipe)) ∧
      (CarAlarm.system.updateOn (refused ⟨.armed, ⟨.epoch⟩, true⟩)).2.system
        = ⟨.armed, ⟨⟨401000000, by decide, by decide⟩⟩, true⟩ ∧
      (CarAlarm.system.updateOn
        (CarAlarm.system.updateOn (refused ⟨.armed, ⟨.epoch⟩, true⟩)).2).1 = .ok .quiescent := by
  decide +kernel

end Testbench
