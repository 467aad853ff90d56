import Mathlib.Algebra.Order.BigOperators.Group.List
import Mathlib.Algebra.Order.Group.Nat
import Testbench.Proofs.Outcomes

/-!
# What a Step Waits For

In simulated time every step has a cue. The cue of the first step in a window is its
opening, and that of any later one is the millisecond that has passed since the step before.
So there are no more steps than openings and milliseconds, and of the latter no more than
were granted: a window of so many milliseconds admits one step more.

This holds around any system under test and in any environment.

## Main definitions

* `Happening.isCue`: A step may follow.
* `cuesIn`: How often this is so along a course.

## Theorems

* `Leads.cue`: A window that is open has been opened.
* `Accounts.cuesIn_le`: The cues are no more than what the windows admit.
* `Bench.cuesIn_start`, `Bench.cuesIn_settle`: There is a cue before each step.
* `Bench.length_starts_le`: The number of steps in a run.
-/

namespace Testbench

/-- A step may follow. -/
def Happening.isCue : Happening → Bool
  | .opened _ | .ticked => true
  | _ => false

variable {ε σ : Type}

def cuesIn (c : Course ε σ) : Nat := (happenings c).countP Happening.isCue

theorem cuesIn_append (c c' : Course ε σ) : cuesIn (c ++ c') = cuesIn c + cuesIn c' := by
  simp only [cuesIn, happenings, List.map_append, List.countP_append]

theorem cuesIn_cons (p : Point ε σ) (c : Course ε σ) :
    cuesIn (p :: c) = cuesIn c + if p.happening.isCue then 1 else 0 := List.countP_cons

/-- Cues are a matter of virtual time. -/
theorem cuesIn_eq_timeline (c : Course ε σ) : cuesIn c = (timeline c).countP Happening.isCue := by
  rw [cuesIn, timeline, List.countP_filter]
  refine List.countP_congr fun happening _ => ?_
  cases happening <;> simp [Happening.isCue, Happening.isTemporal]

theorem countP_begun (w : Span) : w.begun.countP Happening.isCue = w.used + 1 := by
  simp [Span.begun, List.countP_cons, List.countP_replicate, Happening.isCue]

theorem countP_ended (w : Span) : w.ended.countP Happening.isCue = w.used + 1 := by
  rw [Span.ended, List.countP_append, countP_begun]
  rfl

/-- A window that is open has been opened. -/
theorem Leads.cue {isOpen isOpen' : Bool} {v next : Scene} {c : Course ε σ}
    (h : Leads isOpen v c isOpen' next) (hopen : isOpen' = true) :
    isOpen = true ∨ 0 < cuesIn c := by
  induction h with
  | nil => exact .inl hopen
  | @cons isOpen _ _ _ p rest _ _ ih =>
    rw [cuesIn_cons]
    rcases ih hopen with hwindow | hlater
    · cases hhappening : p.happening with
      | opened delay => exact .inr (Nat.succ_pos _)
      | reported delayed =>
        -- Behind a report no window is open.
        rw [hhappening] at hwindow
        exact absurd hwindow Bool.false_ne_true
      | _ =>
        rw [hhappening] at hwindow
        exact .inl hwindow
    · exact .inr (by omega)

/-- A window of so many milliseconds admits one step more. -/
theorem Accounts.cuesIn_le {start : Timestamp} {past : Course ε σ} {isOpen : Bool}
    {s : SimulatedTime} {closed : List Span} {current : Option Span}
    (h : Accounts start past isOpen s closed current) :
    cuesIn past ≤ ((grantedIn past).map (· + 1)).sum := by
  have hspans : ∀ ws : List Span, (∀ w ∈ ws, w.used ≤ w.granted) →
      (ws.map fun w => w.used + 1).sum ≤ ((ws.map Span.granted).map (· + 1)).sum := by
    intro ws hws
    rw [List.map_map]
    exact List.sum_le_sum fun w hw => Nat.succ_le_succ (hws w hw)
  -- One for the opening, and one for each millisecond used.
  have hcues : cuesIn past = ((closed ++ current.toList).map fun w => w.used + 1).sum := by
    rw [cuesIn_eq_timeline, h.timeline, List.countP_append, List.countP_flatMap,
      List.countP_flatMap, List.map_append, List.sum_append]
    congr 2
    · exact List.map_congr_left fun w _ => countP_ended w
    · exact List.map_congr_left fun w _ => countP_begun w
  rw [hcues, h.grantedIn_eq]
  exact hspans _ h.bounded

namespace Bench

variable [Environment ε]

theorem cuesIn_start {b next : Bench ε σ} {s : SimulatedTime} (hpolicy : b.policy = .simulated s)
    (h : start b = (.ok (), next)) : 0 < cuesIn b.startCourse := by
  rcases covers_start hpolicy with ⟨last, hleads, hopen, -⟩
  rw [h] at hleads hopen
  exact (hleads.cue (hopen () rfl)).resolve_left nofun

theorem cuesIn_settle {b next : Bench ε σ} {s : SimulatedTime} (hpolicy : b.policy = .simulated s)
    (h : settle b = (.ok (), next)) : 0 < cuesIn b.settleCourse := by
  rcases covers_settle hpolicy with ⟨last, hleads, hopen, -⟩
  rw [h] at hleads hopen
  rw [hopen () rfl, settleCourse_simulated hpolicy] at hleads
  rw [settle_simulated hpolicy] at h
  rw [settleCourse_simulated hpolicy]
  by_cases hclose : (b.hasOutput || s.isExhausted) = true
  -- The report closes the window, so another one has been opened since.
  · rw [if_pos hclose] at h hleads ⊢
    rcases closeWindow_cases s { b with phase := .awaitingNextStep } with
      ⟨cause, b₁, hrefused⟩ | ⟨environment, b₁, haccept, -⟩
    · rw [bind_of_error hrefused] at h
      exact absurd (Prod.mk.inj h).1 nofun
    · rcases closeWindowCourse_of_taken haccept with ⟨reported, rest, hcourse⟩
      rw [hcourse] at hleads ⊢
      cases hleads with
      | cons _ hrest =>
        rw [cuesIn_cons]
        exact Nat.add_pos_left ((hrest.cue rfl).resolve_left nofun) _
  · rw [if_neg hclose] at h ⊢
    rcases htick : s.tick? with _ | later
    · rw [bind_of_error (advance_of_none htick)] at h
      exact absurd (Prod.mk.inj h).1 nofun
    · simp only [advanceCourse, advance_of_ok htick]
      exact Nat.one_pos

/-- All steps of a drive but the first have their cue in it. -/
theorem length_driveStarts_le (system : System σ) (limit steps : Nat) {b : Bench ε σ}
    (hpolicy : ∃ s, b.policy = .simulated s) :
    (driveStarts system.updateOn limit steps b).length
      ≤ cuesIn (driveCourse system limit steps b) + 1 := by
  induction steps generalizing b with
  | zero => exact Nat.zero_le _
  | succ steps ih =>
    have hstep := leads_runStep system limit b
    unfold driveCourse onward
    rcases hrun : runStep system.updateOn limit b with ⟨halt | count, b₁⟩
    · rw [(drive_of_error steps (cycle_of_stopped hrun)).2]
      exact Nat.le_add_left _ _
    · rw [hrun] at hstep
      rcases hstep.simulated hpolicy with ⟨s, hpolicy₁⟩
      rcases hsettle : settle b₁ with ⟨halt | _, b₂⟩
      · rw [(drive_of_error steps (cycle_of_unsettled hrun hsettle)).2]
        exact Nat.le_add_left _ _
      · rw [(drive_of_ok steps (cycle_of_settled hrun hsettle)).2]
        rcases covers_settle (b := b₁) hpolicy₁ with ⟨last, hleads, -⟩
        rw [hsettle] at hleads
        have hrest := ih (hleads.simulated ⟨s, hpolicy₁⟩)
        -- The cue of the next step, which the induction hypothesis does not count.
        have hcue : 0 < cuesIn b₁.settleCourse := cuesIn_settle hpolicy₁ hsettle
        simp only [hsettle, cuesIn_append, List.length_cons] at hrest ⊢
        omega

/-- A run takes no more steps than its windows admit. -/
theorem length_starts_le (system : System σ) (limit steps : Nat) {b : Bench ε σ}
    {s : SimulatedTime} (hpolicy : b.policy = .simulated s) :
    (starts system.updateOn limit steps b).length
      ≤ ((grantedIn (runCourse system limit steps b)).map (· + 1)).sum := by
  rcases leads_runCourse system limit steps hpolicy with ⟨final, hrun⟩
  rcases hrun.accounts hpolicy (.atFirst s) with ⟨s', closed, current, -, haccounts⟩
  rw [List.nil_append] at haccounts
  refine Nat.le_trans ?_ haccounts.cuesIn_le
  rcases hstart : start b with ⟨halt | _, next⟩
  · rw [(run_of_stopped steps hstart).2.2]
    exact Nat.zero_le _
  · rw [(run_of_started steps hstart).2.2]
    rcases covers_start hpolicy with ⟨last, hleads, -⟩
    rw [hstart] at hleads
    have hdrive := length_driveStarts_le system limit steps (hleads.simulated ⟨s, hpolicy⟩)
    have hcue := cuesIn_start hpolicy hstart
    unfold runCourse onward
    simp only [hstart, cuesIn_append] at hdrive ⊢
    omega

end Bench

end Testbench
