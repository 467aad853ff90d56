import Testbench.Proofs.Clocks
import Testbench.Proofs.Contract

/-!
# The Wall Clock

Wall-clock time passes while the bench sleeps, and otherwise only as the environment has it.
The course of a run tells both apart: what passes by itself is in it, and a sleep is not. So
a course without a passage leaves the wall clock where it was, and every time that is told
along it is the time of the bench at its beginning. After a sleep on such a course the wall
clock has moved by the length of the sleep and no more.

## Main definitions

* `elapsedIn`: The wall-clock time that passes by itself along a course.
* `Unattended`: A course on which no line arrives and no time passes by itself.

## Theorems

* `Bench.wall_updateOn_eq`: An update leaves the wall clock where it was.
* `System.told_realTime`: What an update is told of time.
* `Bench.settle_realTime_of_some`, `Bench.settle_realTime_of_none`: What comes between two steps.
-/

namespace Testbench

/-- Wall-clock time that passes by itself. -/
def Happening.passage? : Happening → Option Duration
  | .elapsed duration => some duration
  | _ => none

section

variable {ε σ : Type}

def elapsedIn (c : Course ε σ) : List Duration := c.filterMap fun p => p.happening.passage?

theorem elapsedIn_append {c c' : Course ε σ} :
    elapsedIn (c ++ c') = [] ↔ elapsedIn c = [] ∧ elapsedIn c' = [] := by
  unfold elapsedIn
  rw [List.filterMap_append, List.append_eq_nil_iff]

/-- No line arrives, and wall-clock time does not pass by itself. -/
structure Unattended (c : Course ε σ) : Prop where
  arrivals : arrivedIn c = []
  passages : elapsedIn c = []

theorem unattended_append {c c' : Course ε σ} :
    Unattended (c ++ c') ↔ Unattended c ∧ Unattended c' := by
  constructor
  · rintro ⟨harrivals, hpassages⟩
    rw [arrivedIn_append, List.append_eq_nil_iff] at harrivals
    rcases elapsedIn_append.mp hpassages with ⟨hfirst, hrest⟩
    exact ⟨⟨harrivals.1, hfirst⟩, ⟨harrivals.2, hrest⟩⟩
  · rintro ⟨h, h'⟩
    refine ⟨?_, elapsedIn_append.mpr ⟨h.passages, h'.passages⟩⟩
    rw [arrivedIn_append, h.arrivals, h'.arrivals, List.append_nil]

namespace Bench

/-! ### The wall clock -/

theorem wall_receive_eq {inCall : Bool} {b : Bench ε σ} {act : Act}
    (h : (b.meets act).passage? = none) : (b.receive inCall act).wall = b.wall := by
  cases act with
  | push line =>
    rcases hpush : b.inbox.push line with fault | ⟨_ | due, inbox⟩
    · simp only [receive, hpush]
    · simp only [receive, hpush]
      split <;> rfl
    · simp only [receive, hpush]
  | close => rfl
  | elapse duration => exact absurd h (Option.some_ne_none duration)

theorem wall_acts_eq {inCall : Bool} {acts : List Act} {b : Bench ε σ}
    (h : elapsedIn (actsCourse inCall acts b) = []) :
    (acts.foldl (receive inCall) b).wall = b.wall := by
  induction acts generalizing b with
  | nil => rfl
  | cons act rest ih =>
    rcases (elapsedIn_append (c := [_])).mp h with ⟨hfirst, hrest⟩
    refine (ih hrest).trans (wall_receive_eq ?_)
    exact List.filterMap_eq_nil_iff.mp hfirst _ (.head _)

variable [Environment ε]

theorem wall_turn_eq {moment : Moment} {b : Bench ε σ} (h : elapsedIn (b.turnCourse moment) = []) :
    (b.turn moment).wall = b.wall :=
  wall_acts_eq (b := { b with environment := (Environment.acts moment b.environment).2 }) h

theorem wall_answer_eq {b : Bench ε σ} {c : Call} (h : elapsedIn (b.answerCourse c) = []) :
    (b.answer c).2.wall = b.wall := by
  cases c with
  | inputReady | resetTime | value clock => exact wall_turn_eq h
  | read =>
    have hturn := wall_turn_eq (elapsedIn_append.mp h).1
    simp only [answer, read]
    split <;> exact hturn
  | write text =>
    rcases haccept : Environment.accept text b.environment with ⟨cause | _, environment⟩
    · simp only [answer, write, deliver, note, haccept]
    · simp only [answerCourse, deliverCourse, note, haccept] at h
      simp only [answer, write, deliver, note, haccept]
      exact wall_turn_eq ((elapsedIn_append (c := [_])).mp h).2
  | note system fields => rfl

theorem wall_runOn_eq {α : Type} {p : Program α} {b : Bench ε σ} (h : elapsedIn (p.course b) = []) :
    (p.runOn b).2.wall = b.wall := by
  induction p generalizing b with
  | pure a => rfl
  | call c next ih =>
    rcases elapsedIn_append.mp h with ⟨hfirst, hrest⟩
    exact (ih _ hrest).trans (wall_answer_eq hfirst)

theorem wall_updateOn_eq {system : System σ} {b : Bench ε σ}
    (h : elapsedIn (updateCourse system b) = []) : (system.updateOn b).2.wall = b.wall := by
  rw [updateOn_eq]
  exact wall_runOn_eq h

end Bench

end

namespace Bench

variable {ε σ : Type} {b : Bench ε σ} {r : RealTime}

/-! ### In real time -/

theorem now_realTime (h : b.policy = .realTime r) : b.now = b.wall := by
  simp only [now, h]

theorem reading_realTime (h : b.policy = .realTime r) (clock : Anchor) :
    b.reading clock = Float.ofNat (clock.elapsed b.wall).millis / r.unit := by
  simp only [reading, scale, now, h]

end Bench

/-- While no time passes by itself, it is the bench at the beginning that tells the time. -/
theorem System.told_realTime {ε σ : Type} [Environment ε] {system : System σ} {b : Bench ε σ}
    {r : RealTime} (hpolicy : b.policy = .realTime r)
    (hpassages : elapsedIn (Bench.updateCourse system b) = []) {e : Answered}
    (he : e ∈ system.dialogueOn b) : e.ToldOn b := by
  rcases system.told_dialogueOn b he with ⟨m, -, hfrom, hto, htold⟩
  have hlater := (Bench.policy_updateOn system b).trans hpolicy
  have hle := hto.le
  rw [Bench.now_realTime hlater, Bench.wall_updateOn_eq hpassages, ← Bench.now_realTime hpolicy]
    at hle
  have hnow : m.now = b.now := Timestamp.le_antisymm hle hfrom.le
  rcases e with ⟨_ | _ | _ | _ | _ | _, answer⟩
  case resetTime => exact htold.trans (by rw [hnow])
  case value clock =>
    refine htold.trans ?_
    simp only [Bench.reading, hnow, hfrom.scale]
  all_goals trivial

namespace Bench

variable {ε σ : Type} [Environment ε] {b : Bench ε σ} {r : RealTime}

/-- Settling takes a quarter of a time unit, and nothing but the environment acts. -/
theorem settle_realTime_of_some (hpolicy : b.policy = .realTime r) {wall : Timestamp}
    (hwall : b.wall.add? r.pollPeriod = some wall) (hquiet : elapsedIn b.settleCourse = []) :
    ∃ next, settle b = (.ok (), next) ∧ next.wall = wall ∧
      next.own = { b.own with phase := .running } ∧
      next.inbox.lines = b.inbox.lines ++ arrivedIn b.settleCourse := by
  have hsleep : sleep r.pollPeriod { b with phase := .awaitingNextStep }
      = (.ok (), { b with phase := .awaitingNextStep, wall }.turn .slept) := by
    simp only [sleep, hwall]
  have hcourse :
      b.settleCourse = turnCourse .slept { b with phase := .awaitingNextStep, wall } := by
    simp only [settleCourse, hpolicy, hwall]
  rw [hcourse] at hquiet ⊢
  refine ⟨_, (settle_realTime hpolicy).trans (bind_of_ok hsleep), wall_turn_eq hquiet, ?_, ?_⟩
  · exact congrArg (fun own => { own with phase := Phase.running })
      (own_turn .slept { b with phase := .awaitingNextStep, wall })
  · exact lines_turn .slept _

theorem settle_realTime_of_none (hpolicy : b.policy = .realTime r)
    (hwall : b.wall.add? r.pollPeriod = none) :
    (settle b).1 = .error (.fault .timeOverflow) := by
  have hsleep : sleep r.pollPeriod { b with phase := .awaitingNextStep }
      = (.error (.fault .timeOverflow), { b with phase := .awaitingNextStep }) := by
    simp only [sleep, hwall]
  rw [settle_realTime hpolicy, bind_of_error hsleep]

end Bench

end Testbench
