import Testbench.Proofs.AlarmLanguage
import Testbench.Proofs.Steps

/-!
# Door and Lock of the Car

The car alarm knows nothing of the car but the inputs. A car has a door and a lock, and an
input is an event at one of them: the door is closed or opened, the car is locked or
unlocked. When the alarm disarms itself after it was armed again, it unlocks the car as well.

Each location of the automaton is reached with one state of the car only, so the automaton
always knows that state. It accepts just inputs that are possible in it, which are those that
change it. It is enough to see this of each edge, whatever the pace at which edges are taken,
and then it holds along every run.

## Main definitions

* `Car`: A door and a lock.
* `Car.after`: What an input does to the car.
* `CarAlarm.drives`, `CarAlarm.carAfter`: What a stretch of a run does to it, and several.
* `CarAlarm.car`: The car as a location knows it.

## Theorems

* `CarAlarm.car_edge`: An edge does to the car what it says.
* `CarAlarm.door_and_lock_are_known`: The car along every run.
-/

namespace Testbench

structure Car where
  closed : Bool
  locked : Bool
  deriving DecidableEq

namespace Car

def parked : Car := ⟨false, false⟩

/-- What an input does to the car. -/
def after (car : Car) (input : String) : Car :=
  match input with
  | "close" => { car with closed := true }
  | "open" => { car with closed := false }
  | "lock" => { car with locked := true }
  | "unlock" => { car with locked := false }
  | _ => car

/-- Inputs are accepted one after another, and then the alarm may unlock the car. -/
def press (car : Car) (inputs : List String) (disarmed : Bool) : Car :=
  let car := inputs.foldl after car
  if disarmed then { car with locked := false } else car

end Car

namespace CarAlarm

open Location

/-- The armed alarm disarms itself. No input leads there at once. -/
def disarmsItself (source target : Location) : Bool := source == armed && target == closedUnlocked

variable {ε : Type} [Environment ε]

/-- What a stretch of a run does to the car. Only updates read inputs or take the alarm to
    another location. -/
def drives (car : Car) (t : Stretch ε CarAlarm) : Car :=
  car.press ((consumedIn (t.course system)).map Line.text)
    (disarmsItself t.bench.system.location (t.outcome system).2.system.location)

/-- The car after some stretches. -/
def carAfter (past : List (Stretch ε CarAlarm)) : Car := past.foldl drives Car.parked

def closedIn : List Location := [closedUnlocked, arming, armed, disarming, rearming]

def lockedIn : List Location :=
  [openLocked, arming, armed, triggered, sounding, flashing, silent, rearming]

/-- The car as a location knows it. -/
def car (location : Location) : Car := ⟨location ∈ closedIn, location ∈ lockedIn⟩

/-- An edge does to the car what its input does, and an input changes the car. -/
theorem car_edge (location : Location) : ∀ e ∈ edges location,
    car e.target = (car location).press e.input.toList (disarmsItself location e.target) ∧
      ∀ input ∈ e.input, (car location).after input ≠ car location := by
  cases location <;> decide

theorem disarmsItself_self (location : Location) : disarmsItself location location = false := by
  cases location <;> decide

/-- A stretch that succeeds does to the car what the alarm makes of it. -/
theorem car_stretch {t : Stretch ε CarAlarm} (hgoes : (t.outcome system).1 = none) :
    car (t.outcome system).2.system.location = drives (car t.bench.system.location) t ∧
      (consumedIn (t.course system)).length ≤ 1 ∧
      ∀ line ∈ consumedIn (t.course system),
        (car t.bench.system.location).after line.text ≠ car t.bench.system.location := by
  by_cases hstage : t.stage = .update
  · rcases t with ⟨stage, b⟩
    rcases hstage with rfl
    rcases system.ensures_updateOn (ensures_update b.system) with ⟨result, hmoves, hresult⟩
    have hread : consumedIn (Bench.updateCourse system b) = heard (system.dialogueOn b) :=
      system.consumedIn_update b
    change (haltOf (system.updateOn b).1 = none) at hgoes
    change car (system.updateOn b).2.system.location
        = (car b.system.location).press
          ((consumedIn (Bench.updateCourse system b)).map Line.text)
          (disarmsItself b.system.location (system.updateOn b).2.system.location) ∧
      (consumedIn (Bench.updateCourse system b)).length ≤ 1 ∧
      ∀ line ∈ consumedIn (Bench.updateCourse system b), _
    rw [hread]
    -- A transition is an edge, which says it all; else nothing is accepted and nobody moves.
    rcases result with cause | _ | _
    · rw [hresult] at hgoes
      exact absurd hgoes nofun
    · rcases hmoves with ⟨e, he, htarget, htaken⟩
      rcases car_edge _ e he with ⟨hcar, hchanges⟩
      have hinputs : (e.input.map Line.mk).toList.map Line.text = e.input.toList := by
        cases e.input <;> rfl
      rw [htaken.heard, htarget, hinputs]
      refine ⟨hcar, ?_, fun line hline => ?_⟩
      · cases e.input <;> exact Nat.le_of_ble_eq_true rfl
      · rcases Option.map_eq_some_iff.mp (Option.mem_toList.mp hline) with ⟨input, hinput, rfl⟩
        exact hchanges input hinput
    · rcases hmoves with ⟨hstays, hheard, -⟩
      rw [hheard, hstays, disarmsItself_self]
      exact ⟨rfl, Nat.zero_le 1, fun line hline => absurd hline List.not_mem_nil⟩
  · have hnone : consumedIn (t.course system) = [] :=
      consumedIn_eq_nil fun p hp => t.actor_ne_system hstage hp
    unfold drives
    rw [hnone, t.system_eq hstage, disarmsItself_self]
    exact ⟨rfl, Nat.zero_le 1, fun line hline => absurd hline List.not_mem_nil⟩

theorem car_stretches {limit steps : Nat} {b : Bench ε CarAlarm} {x : Anchor}
    (hinitial : b.system = system.initial x) {before after : List (Stretch ε CarAlarm)}
    {t : Stretch ε CarAlarm} (h : Bench.stages system limit steps b = before ++ t :: after) :
    car t.bench.system.location = carAfter before := by
  refine Bench.stages_invariant
    (P := fun past _ b => car b.system.location = carAfter past)
    (fun hcar hlike => ?_) (fun hcar hgoes => ?_) ?_ h
  · rcases hlike with ⟨phase, journal, rfl⟩
    exact hcar
  · rw [(car_stretch hgoes).1, hcar, carAfter, carAfter, List.foldl_append]
    rfl
  · rw [hinitial]
    rfl

/-- The car alarm knows door and lock along every run, under any policy. Work that succeeds,
    such as an update, accepts at most one input, which is one that changes the car as it has
    been left by all accepted inputs and by the alarm disarming itself. Afterwards the door is
    closed just in the locations listed first, and the car locked just in those listed last. -/
theorem door_and_lock_are_known (limit steps : Nat) {b : Bench ε CarAlarm} {x : Anchor}
    (hinitial : b.system = system.initial x) {before after : List (Stretch ε CarAlarm)}
    {t : Stretch ε CarAlarm} (h : Bench.stages system limit steps b = before ++ t :: after)
    (hgoes : (t.outcome system).1 = none) :
    ((consumedIn (t.course system)).length ≤ 1 ∧
      ∀ line ∈ consumedIn (t.course system),
        (carAfter before).after line.text ≠ carAfter before) ∧
    ((carAfter (before ++ [t])).closed = true ↔ (t.outcome system).2.system.location ∈
      [closedUnlocked, arming, armed, disarming, rearming]) ∧
    ((carAfter (before ++ [t])).locked = true ↔ (t.outcome system).2.system.location ∈
      [openLocked, arming, armed, triggered, sounding, flashing, silent, rearming]) := by
  rcases car_stretch hgoes with ⟨hnext, hsingle, hchanges⟩
  have hcar := car_stretches hinitial h
  have hafter : carAfter (before ++ [t]) = car (t.outcome system).2.system.location := by
    rw [hnext, hcar, carAfter, carAfter, List.foldl_append]
    rfl
  rw [hcar] at hchanges
  refine ⟨⟨hsingle, hchanges⟩, ?_, ?_⟩
  · rw [hafter]
    exact decide_eq_true_iff
  · rw [hafter]
    exact decide_eq_true_iff

/-- The intruder opens the door of a car that stays locked. -/
theorem door_and_lock_are_known_intrusion :
    ∃ before t after, Bench.stages system 9 30 intrusion.fed = before ++ t :: after ∧
      consumedIn (t.course system) = [⟨"open"⟩] ∧
      (carAfter before).after "open" ≠ carAfter before ∧
      (carAfter (before ++ [t])).closed ≠ true ∧ (carAfter (before ++ [t])).locked = true := by
  have hopened : ∃ t ∈ Bench.stages system 9 30 intrusion.fed,
      consumedIn (t.course system) = [⟨"open"⟩] ∧ (t.outcome system).1 = none ∧
      (t.outcome system).2.system.location = triggered := by decide +kernel
  rcases hopened with ⟨t, ht, hopen, hgoes, htriggered⟩
  rcases List.append_of_mem ht with ⟨before, after, hsplit⟩
  rcases door_and_lock_are_known 9 30 (x := ⟨.epoch⟩) rfl hsplit hgoes with
    ⟨⟨-, hchanges⟩, hclosed, hlocked⟩
  rw [htriggered] at hclosed hlocked
  refine ⟨before, t, after, hsplit, hopen, hchanges ⟨"open"⟩ ?_, fun hshut => ?_, ?_⟩
  · rw [hopen]
    exact List.mem_cons_self
  · exact absurd (hclosed.mp hshut) (by decide)
  · exact hlocked.mpr (by decide)

end CarAlarm

end Testbench
