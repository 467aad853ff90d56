import Testbench.Proofs.FloatOrder
import Testbench.Proofs.Outcomes
import Testbench.Proofs.Steps
import Testbench.Proofs.VirtualTime

/-!
# Clocks

What the clocks of a system under test read along a run. Under either policy a clock is
measured by a time that never goes back: the wall clock, or the virtual time. The reading is
a count of milliseconds, over the time unit in real time, so it never goes back either.

In simulated time more is known. The time stands still while the system under test is
updated, so every clock that it reads or resets in a step tells the same time, and between
two steps a single millisecond passes at most.

## Main definitions

* `Bench.reading`: What a clock reads on a bench.
* `Bench.Precedes`: Time has not gone back between two benches.
* `Answered.ToldOn`, `Answered.ToldAt`: An answer about time is that of the bench, or that
  of a moment of virtual time.

## Theorems

* `Bench.Precedes.reading_le`: A reading does not go back.
* `Program.told_dialogue`: Answers are told by a bench in between.
* `System.told_simulated`: In simulated time they are told at a single moment.
* `Bench.settle_simulated_cases`, `Bench.start_simulated_now`: Virtual time between steps.
* `Stretch.outcome_simulated`: Virtual time along a stretch.
* `Stretch.precedes`, `Bench.precedes_stages`: Time along a stretch and a run.
-/

namespace Testbench

open Rounding

theorem Timestamp.le_antisymm {s t : Timestamp} (hst : s ≤ t) (hts : t ≤ s) : s = t := by
  rcases s with ⟨m, hm, hm'⟩
  rcases t with ⟨n, hn, hn'⟩
  have hsame : m = n := Int.le_antisymm hst hts
  subst hsame
  rfl

theorem Anchor.millis_mono (x : Anchor) {now later : Timestamp} (h : now ≤ later) :
    (x.elapsed now).millis ≤ (x.elapsed later).millis := by
  refine Nat.div_le_div_right (Int.toNat_le_toNat ?_)
  change now.nanos ≤ later.nanos at h
  omega

/-- A clock that was reset whole milliseconds ago. -/
theorem Anchor.millis_elapsed {x : Anchor} {now : Timestamp} {k : Nat}
    (h : now.nanos = x.moment.nanos + k * 1000000) : (x.elapsed now).millis = k := by
  unfold Anchor.elapsed Timestamp.since Duration.millis
  simp only
  omega

namespace Bench

variable {ε σ : Type}

/-- Milliseconds in a time unit, if time is real. -/
def scale (b : Bench ε σ) : Option Float :=
  match b.policy with
  | .realTime r => some r.unit
  | .simulated _ => none

theorem scale_eq_none {b : Bench ε σ} : b.scale = none ↔ ∃ s, b.policy = .simulated s := by
  unfold scale
  cases b.policy with
  | realTime r => simp only [reduceCtorEq, exists_false]
  | simulated s => exact iff_of_true rfl ⟨s, rfl⟩

/-- What a clock reads. -/
def reading (b : Bench ε σ) (clock : Anchor) : Float :=
  match b.scale with
  | some unit => Float.ofNat (clock.elapsed b.now).millis / unit
  | none => Float.ofNat (clock.elapsed b.now).millis

theorem reading_simulated {b : Bench ε σ} {s : SimulatedTime} (h : b.policy = .simulated s)
    (clock : Anchor) : b.reading clock = Float.ofNat (clock.elapsed s.now).millis := by
  simp only [reading, scale, now, h]

theorem now_simulated {b : Bench ε σ} {s : SimulatedTime} (h : b.policy = .simulated s) :
    b.now = s.now := by
  simp only [now, h]

/-- Time is measured in the same way and has not gone back. -/
structure Precedes (b next : Bench ε σ) : Prop where
  scale : next.scale = b.scale
  le : b.now ≤ next.now

namespace Precedes

variable {a b c : Bench ε σ}

theorem refl (b : Bench ε σ) : b.Precedes b := ⟨rfl, Int.le_refl _⟩

theorem trans (hab : a.Precedes b) (hbc : b.Precedes c) : a.Precedes c :=
  ⟨hbc.scale.trans hab.scale, Int.le_trans hab.le hbc.le⟩

/-- The policy has been kept, and the wall clock has not gone back. -/
theorem of_policy (hpolicy : b.policy = a.policy) (hwall : a.wall ≤ b.wall) : a.Precedes b := by
  refine ⟨by simp only [Bench.scale, hpolicy], ?_⟩
  unfold now
  rw [hpolicy]
  split
  · exact hwall
  · exact Int.le_refl _

theorem of_like (h : a.IsLike b) : a.Precedes b := by
  rcases h with ⟨phase, journal, rfl⟩
  exact ⟨rfl, Int.le_refl _⟩

/-- A positive reading does not go back. In simulated time every reading counts, as there
    is no unit that could make it something else than a number. -/
theorem reading_le (h : a.Precedes b) {x : Anchor} (hpos : Float.ofNat 0 < a.reading x) :
    a.reading x ≤ b.reading x := by
  have hmillis := x.millis_mono h.le
  have hscale := h.scale
  rcases hunit : a.scale with _ | unit
  · rw [hunit] at hscale
    simp only [reading, hunit, hscale]
    exact ofNat_mono hmillis
  · rw [hunit] at hscale
    simp only [reading, hunit, hscale] at hpos ⊢
    exact div_mono hmillis hpos

end Precedes

/-! ### While the system under test is updated -/

theorem wall_receive (inCall : Bool) (b : Bench ε σ) (act : Act) :
    b.wall ≤ (b.receive inCall act).wall := by
  cases act with
  | push line =>
    rcases hpush : b.inbox.push line with fault | ⟨_ | due, inbox⟩
    · simp only [receive, hpush]
      exact Int.le_refl _
    · simp only [receive, hpush]
      split <;> exact Int.le_refl _
    · simp only [receive, hpush]
      exact Int.le_refl _
  | close => exact Int.le_refl _
  | elapse duration =>
    simp only [receive]
    split
    · next wall hwall =>
      have hlater := Timestamp.add?_eq_some.mp hwall
      change b.wall.nanos ≤ wall.nanos
      omega
    · exact Int.le_refl _

theorem wall_acts (inCall : Bool) (acts : List Act) (b : Bench ε σ) :
    b.wall ≤ (acts.foldl (receive inCall) b).wall := by
  induction acts generalizing b with
  | nil => exact Int.le_refl _
  | cons act rest ih => exact Int.le_trans (wall_receive inCall b act) (ih _)

variable [Environment ε]

theorem wall_turn (moment : Moment) (b : Bench ε σ) : b.wall ≤ (b.turn moment).wall :=
  wall_acts moment.isInCall _ { b with environment := (Environment.acts moment b.environment).2 }

theorem wall_deliver (text : String) (b : Bench ε σ) : b.wall ≤ (b.deliver text).2.wall := by
  unfold deliver
  split
  · exact Int.le_refl _
  · exact wall_turn _ _

theorem wall_answer (b : Bench ε σ) (c : Call) : b.wall ≤ (b.answer c).2.wall := by
  cases c with
  | inputReady | resetTime | value clock => exact wall_turn .access b
  | read =>
    have hturn := wall_turn .access b
    simp only [answer, read]
    split <;> exact hturn
  | write text => exact wall_deliver text (b.note (.outputEmitted text))
  | note system fields => exact Int.le_refl _

theorem policy_answer (b : Bench ε σ) (c : Call) : (b.answer c).2.policy = b.policy := by
  rcases own_answer b c with ⟨new, hown⟩
  exact congrArg Own.policy hown

theorem policy_turn (moment : Moment) (b : Bench ε σ) : (b.turn moment).policy = b.policy :=
  congrArg Own.policy (own_turn moment b)

theorem policy_runOn {α : Type} (p : Program α) (b : Bench ε σ) :
    (p.runOn b).2.policy = b.policy := by
  rcases own_runOn p b with ⟨new, hown⟩
  exact congrArg Own.policy hown

theorem wall_runOn {α : Type} (p : Program α) (b : Bench ε σ) :
    b.wall ≤ (p.runOn b).2.wall := by
  induction p generalizing b with
  | pure a => exact Int.le_refl _
  | call c next ih => exact Int.le_trans (wall_answer b c) (ih _ _)

theorem policy_updateOn (system : System σ) (b : Bench ε σ) :
    (system.updateOn b).2.policy = b.policy := by
  rw [updateOn_eq]
  exact policy_runOn _ b

theorem precedes_updateOn (system : System σ) (b : Bench ε σ) :
    b.Precedes (system.updateOn b).2 := by
  refine .of_policy (policy_updateOn system b) ?_
  rw [updateOn_eq]
  exact wall_runOn _ b

end Bench

/-! ### Answers about time -/

/-- What the dialogue says of time is so on the bench. -/
def Answered.ToldOn {ε σ : Type} (e : Answered) (b : Bench ε σ) : Prop :=
  match e with
  | ⟨.resetTime, x⟩ => x = ⟨b.now⟩
  | ⟨.value clock, time⟩ => time = b.reading clock
  | _ => True

/-- What the dialogue says of time is so at a moment of virtual time. -/
def Answered.ToldAt (e : Answered) (now : Timestamp) : Prop :=
  match e with
  | ⟨.resetTime, x⟩ => x = ⟨now⟩
  | ⟨.value clock, time⟩ => time = Float.ofNat (clock.elapsed now).millis
  | _ => True

section

variable {ε σ α : Type} [Environment ε]

theorem Bench.value_eq (b : Bench ε σ) (clock : Anchor) :
    (b.value clock).1 = (b.turn .access).reading clock := by
  simp only [Bench.value, reading, scale, now]
  cases (b.turn .access).policy <;> rfl

theorem Bench.told_answer (b : Bench ε σ) (c : Call) :
    ∃ m : Bench ε σ, m.policy = b.policy ∧ b.wall ≤ m.wall ∧ m.wall ≤ (b.answer c).2.wall ∧
      (Answered.mk c (b.answer c).1).ToldOn m := by
  have hturn : (b.turn .access).policy = b.policy ∧ b.wall ≤ (b.turn .access).wall :=
    ⟨policy_turn .access b, wall_turn .access b⟩
  cases c with
  | inputReady | resetTime =>
    exact ⟨b.turn .access, hturn.1, hturn.2, Int.le_refl _, by trivial⟩
  | value clock =>
    exact ⟨b.turn .access, hturn.1, hturn.2, Int.le_refl _, b.value_eq clock⟩
  | read | write text | note system fields =>
    exact ⟨b, rfl, Int.le_refl _, wall_answer b _, trivial⟩

/-- What is said of time in a dialogue is so on some bench between its two ends. -/
theorem Program.told_dialogue (p : Program α) (b : Bench ε σ) {e : Answered}
    (h : e ∈ p.dialogue b) :
    ∃ m : Bench ε σ, m.policy = b.policy ∧ b.wall ≤ m.wall ∧ m.wall ≤ (p.runOn b).2.wall ∧
      e.ToldOn m := by
  induction p generalizing b with
  | pure a => exact absurd h List.not_mem_nil
  | call c next ih =>
    rcases List.mem_cons.mp h with rfl | hrest
    · rcases b.told_answer c with ⟨m, hpolicy, hfrom, hto, htold⟩
      exact ⟨m, hpolicy, hfrom, Int.le_trans hto (Bench.wall_runOn _ _), htold⟩
    · rcases ih _ _ hrest with ⟨m, hpolicy, hfrom, hto, htold⟩
      exact ⟨m, hpolicy.trans (Bench.policy_answer b c),
        Int.le_trans (Bench.wall_answer b c) hfrom, hto, htold⟩

/-- The same of an update. -/
theorem System.told_dialogueOn (system : System σ) (b : Bench ε σ) {e : Answered}
    (h : e ∈ system.dialogueOn b) :
    ∃ m : Bench ε σ, m.policy = b.policy ∧ b.Precedes m ∧ m.Precedes (system.updateOn b).2 ∧
      e.ToldOn m := by
  rcases Program.told_dialogue _ b h with ⟨m, hpolicy, hfrom, hto, htold⟩
  refine ⟨m, hpolicy, .of_policy hpolicy hfrom, .of_policy ?_ ?_, htold⟩
  · exact (Bench.policy_updateOn system b).trans hpolicy.symm
  · rw [Bench.updateOn_eq]
    exact hto

/-- In simulated time an update tells a single time. -/
theorem System.told_simulated {system : System σ} {b : Bench ε σ} {s : SimulatedTime}
    (hpolicy : b.policy = .simulated s) {e : Answered} (h : e ∈ system.dialogueOn b) :
    e.ToldAt s.now := by
  rcases system.told_dialogueOn b h with ⟨m, hm, -, -, htold⟩
  rcases e with ⟨_ | _ | _ | _ | _ | _, answer⟩
  case resetTime => exact htold.trans (by rw [Bench.now_simulated (hm.trans hpolicy)])
  case value => exact htold.trans (Bench.reading_simulated (hm.trans hpolicy) _)
  all_goals trivial

/-! ### Between two steps -/

namespace Bench

variable {b next : Bench ε σ} {s : SimulatedTime}

theorem now_openWindow (h : openWindow s b = (.ok true, next)) :
    ∃ s', next.policy = .simulated s' ∧ s'.now = s.now := by
  rcases hfound : (b.turn .access).inbox.lines.filter Line.isDirective with
    _ | ⟨directive, superseded⟩
  · rw [openWindow_of_nothing s hfound] at h
    exact absurd (Prod.mk.inj h).1 nofun
  · rcases hdelay : directive.delay? with _ | delay
    · rcases openWindow_of_malformed s hfound hdelay with ⟨_, hopen, -⟩
      rw [hopen] at h
      exact absurd (Prod.mk.inj h).1 nofun
    · rcases openWindow_of_directive s hfound hdelay with ⟨_, hopen, hown, -⟩
      rw [hopen] at h
      rcases Prod.mk.inj h with ⟨-, rfl⟩
      refine ⟨_, congrArg Own.policy hown, ?_⟩
      unfold SimulatedTime.grant
      split <;> rfl

/-- Time stands still while the bench waits for a window. -/
theorem now_waitForDelay (h : waitForDelay s b = (.ok (), next)) :
    ∃ s', next.policy = .simulated s' ∧ s'.now = s.now := by
  -- What comes of the wait is decided by the search that finds something, here or below.
  have hdecided : ∀ {b' : Bench ε σ}, waitForDelay s b = ((openWindow s b').1.map fun _ => (),
      (openWindow s b').2) → (openWindow s b').1 ≠ .ok false →
      ∃ s', next.policy = .simulated s' ∧ s'.now = s.now := by
    intro b' hwait hfound
    rw [hwait] at h
    rcases hsearch : openWindow s b' with ⟨halt | _ | _, b''⟩
    · rw [hsearch] at h
      exact absurd (Prod.mk.inj h).1 nofun
    · rw [hsearch] at hfound
      exact absurd rfl hfound
    · rw [hsearch] at h
      rw [← (Prod.mk.inj h).2]
      exact now_openWindow hsearch
  by_cases hfirst : (openWindow s b).1 = .ok false
  · have hsearch : openWindow s b = (.ok false, (openWindow s b).2) := Prod.ext hfirst rfl
    rcases hlisten : listen (openWindow s b).2 with ⟨halt | _, b₂⟩
    · rw [waitForDelay_of_closed hsearch hlisten] at h
      exact absurd (Prod.mk.inj h).1 nofun
    · by_cases hsecond : (openWindow s b₂).1 = .ok false
      · rw [waitForDelay_of_vain hsearch hlisten (Prod.ext hsecond rfl)] at h
        exact absurd (Prod.mk.inj h).1 nofun
      · exact hdecided (waitForDelay_of_rung hsearch hlisten rfl hsecond) hsecond
  · exact hdecided (waitForDelay_of_found rfl hfirst) hfirst

omit [Environment ε] in
theorem of_setPhase {α : Type} {work : BenchM ε σ α} {phase : Phase}
    (h : (work >>= fun _ => setPhase phase) b = (.ok (), next)) :
    ∃ a mid, work b = (.ok a, mid) ∧ next = { mid with phase } := by
  rcases hwork : work b with ⟨halt | a, mid⟩
  · rw [bind_of_error hwork] at h
    exact absurd (Prod.mk.inj h).1 nofun
  · rw [bind_of_ok hwork] at h
    exact ⟨a, mid, rfl, (Prod.mk.inj h).2.symm⟩

theorem start_simulated_now (hpolicy : b.policy = .simulated s) (h : start b = (.ok (), next)) :
    ∃ s', next.policy = .simulated s' ∧ s'.now = s.now := by
  rw [start_simulated hpolicy] at h
  rcases of_setPhase h with ⟨_, mid, hwait, rfl⟩
  rcases now_waitForDelay hwait with ⟨s', hs', hnow⟩
  exact ⟨s', hs', hnow⟩

/-- Between two steps a millisecond passes, or no time at all. -/
theorem settle_simulated_cases (hpolicy : b.policy = .simulated s)
    (h : settle b = (.ok (), next)) :
    ∃ s', next.policy = .simulated s' ∧
      (s'.now = s.now ∨ s'.now.nanos = s.now.nanos + 1000000) := by
  rw [settle_simulated hpolicy] at h
  rcases of_setPhase h with ⟨_, mid, hwork, rfl⟩
  by_cases hclose : (b.hasOutput || s.isExhausted) = true
  · rw [if_pos hclose] at hwork
    rcases closeWindow_cases s { b with phase := .awaitingNextStep } with
      ⟨cause, _, hrefused⟩ | ⟨_, b', -, htaken⟩
    · rw [hrefused] at hwork
      exact absurd (Prod.mk.inj hwork).1 nofun
    · rw [htaken] at hwork
      rcases now_waitForDelay hwork with ⟨s', hs', hnow⟩
      exact ⟨s', hs', .inl hnow⟩
  · rw [if_neg hclose] at hwork
    rcases htick : s.tick? with _ | later
    · rw [advance_of_none htick] at hwork
      exact absurd (Prod.mk.inj hwork).1 nofun
    · rw [advance_of_ok htick] at hwork
      rcases SimulatedTime.tick?_cases htick with ⟨now, rfl, hnow⟩
      rw [← (Prod.mk.inj hwork).2]
      exact ⟨_, rfl, .inr hnow⟩

omit [Environment ε] in
theorem precedes_simulated {s' : SimulatedTime} (hpolicy : b.policy = .simulated s)
    (hnext : next.policy = .simulated s') (hle : s.now ≤ s'.now) : b.Precedes next := by
  refine ⟨by simp only [scale, hpolicy, hnext], ?_⟩
  rw [now_simulated hpolicy, now_simulated hnext]
  exact hle

/-- Settling in real time lets wall-clock time pass. -/
theorem precedes_settle_realTime {r : RealTime} (hpolicy : b.policy = .realTime r)
    (h : settle b = (.ok (), next)) : b.Precedes next := by
  rw [settle_realTime hpolicy] at h
  rcases of_setPhase h with ⟨_, mid, hsleep, rfl⟩
  unfold sleep at hsleep
  split at hsleep
  · next wall hwall =>
    have hlater := Timestamp.add?_eq_some.mp hwall
    rw [← (Prod.mk.inj hsleep).2]
    refine .of_policy (policy_turn .slept _) (Int.le_trans ?_ (wall_turn .slept _))
    change b.wall.nanos ≤ wall.nanos
    simp only at hlater
    omega
  · exact absurd (Prod.mk.inj hsleep).1 nofun

end Bench

/-- Virtual time passes only when a step has ended. -/
theorem Stretch.outcome_simulated {system : System σ} {t : Stretch ε σ} {s : SimulatedTime}
    (hpolicy : t.bench.policy = .simulated s) (hgoes : (t.outcome system).1 = none) :
    ∃ s', (t.outcome system).2.policy = .simulated s' ∧
      (s'.now = s.now ∨ t.stage = .settle ∧ s'.now.nanos = s.now.nanos + 1000000) := by
  rcases t with ⟨_ | _ | _, b⟩
  · rcases haltOf_eq_none hgoes with ⟨_, hresult⟩
    rcases Bench.start_simulated_now hpolicy (Prod.ext hresult rfl) with ⟨s', hs', hnow⟩
    exact ⟨s', hs', .inl hnow⟩
  · exact ⟨s, (Bench.policy_updateOn system b).trans hpolicy, .inl rfl⟩
  · rcases haltOf_eq_none hgoes with ⟨_, hresult⟩
    rcases Bench.settle_simulated_cases hpolicy (Prod.ext hresult rfl) with ⟨s', hs', hnow⟩
    exact ⟨s', hs', hnow.imp id fun hlater => ⟨rfl, hlater⟩⟩

/-- Time does not go back along a stretch. -/
theorem Stretch.precedes {system : System σ} {t : Stretch ε σ}
    (hgoes : (t.outcome system).1 = none) : t.bench.Precedes (t.outcome system).2 := by
  cases hpolicy : t.bench.policy with
  | simulated s =>
    rcases t.outcome_simulated hpolicy hgoes with ⟨s', hs', hnow⟩
    refine Bench.precedes_simulated hpolicy hs' ?_
    change s.now.nanos ≤ s'.now.nanos
    rcases hnow with heq | ⟨-, hlater⟩
    · rw [heq]
    · omega
  | realTime r =>
    rcases t with ⟨_ | _ | _, b⟩
    · change b.Precedes b.start.2
      rw [Bench.start_realTime hpolicy]
      exact .of_like (.setPhase b .running)
    · exact Bench.precedes_updateOn system b
    · rcases haltOf_eq_none hgoes with ⟨_, hresult⟩
      exact Bench.precedes_settle_realTime hpolicy (Prod.ext hresult rfl)

/-- Nor along a run. -/
theorem Bench.precedes_stages {system : System σ} {limit steps : Nat} {b : Bench ε σ}
    {t : Stretch ε σ} (h : t ∈ stages system limit steps b) : b.Precedes t.bench := by
  rcases List.append_of_mem h with ⟨before, after, hsplit⟩
  exact stages_invariant (P := fun _ _ next => b.Precedes next)
    (fun hprecedes hlike => hprecedes.trans (.of_like hlike))
    (fun hprecedes hgoes => hprecedes.trans (Stretch.precedes hgoes)) (.refl b) hsplit

end

end Testbench
