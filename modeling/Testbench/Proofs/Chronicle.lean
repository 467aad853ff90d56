import Testbench.Proofs.Outcomes
import Testbench.Proofs.Stages
import Testbench.Proofs.Stamps
import Testbench.Proofs.VirtualTime

/-!
# The Journal as a Chronicle

The journal of a bench in simulated time is in order. Entries are only ever added, each is
stamped with the time that the bench shows then, and this time does not go back. So between
any two moments of a run the entries made are stamped with times between those two.

A tick divides the journal. Nothing is noted between the look at the window and the tick, so
whatever was noted before has a stamp from before, and everything noted from then on has a
stamp that is at least a millisecond later. Stamps tell milliseconds apart, so no stamp is
found on both sides.

## Main definitions

* `Bench.Chronicle`: Entries have been added in order between two benches.
* `Bench.IsOnTime`, `Bench.Carries`: The same for a bench that shows its time, as long as it
  does.
* `Divides`: What a tick does to the stamps of a run.

## Theorems

* `Bench.Chronicles.bind`: Work in sequence.
* `Bench.chronicle_runOn`, `Bench.chronicles_waitForDelay`: Everything but a tick.
* `Bench.carries_settle`: A settling, which may be a tick.
* `Bench.ticked_settle`, `Bench.stage_of_ticked`: Only a settling ticks, and then nothing
  else happens.
* `Bench.carries_stages`: From the beginning of a run to a settling, and on to its end.
* `Bench.stamps_are_faithful`: Stamps tell milliseconds, and ticks change them.
-/

namespace Testbench

namespace Bench

variable {ε σ α β : Type}

/-! ### Entries in order -/

/-- Time has not gone back, and the entries made are stamped with times between. -/
structure Chronicle (b next : Bench ε σ) : Prop where
  le : b.virtualTime ≤ next.virtualTime
  grown : ∃ new : List Entry, next.journal.newestFirst = new ++ b.journal.newestFirst ∧
    ∀ e ∈ new, b.virtualTime ≤ e.stamp ∧ e.stamp ≤ next.virtualTime

namespace Chronicle

variable {a b c : Bench ε σ}

/-- Neither the time nor the journal has been touched. -/
theorem of_same (htime : c.virtualTime = b.virtualTime) (hjournal : c.journal = b.journal) :
    b.Chronicle c := by
  refine ⟨?_, [], by rw [hjournal, List.nil_append], fun e he => absurd he List.not_mem_nil⟩
  rw [htime]
  exact Int.le_refl _

theorem refl (b : Bench ε σ) : b.Chronicle b := of_same rfl rfl

theorem trans (hab : a.Chronicle b) (hbc : b.Chronicle c) : a.Chronicle c := by
  rcases hab.grown with ⟨new, hnew, hbetween⟩
  rcases hbc.grown with ⟨newer, hnewer, hbetween'⟩
  refine ⟨Int.le_trans hab.le hbc.le, newer ++ new, by rw [hnewer, hnew, List.append_assoc], ?_⟩
  intro e he
  rcases List.mem_append.mp he with hlate | hearly
  · exact ⟨Int.le_trans hab.le (hbetween' e hlate).1, (hbetween' e hlate).2⟩
  · exact ⟨(hbetween e hearly).1, Int.le_trans (hbetween e hearly).2 hbc.le⟩

/-- Nothing else of the benches counts. -/
theorem congr {b' c' : Bench ε σ} (h : b.Chronicle c) (htime : b'.virtualTime = b.virtualTime)
    (hjournal : b'.journal = b.journal) (htime' : c'.virtualTime = c.virtualTime)
    (hjournal' : c'.journal = c.journal) : b'.Chronicle c' := by
  refine ⟨?_, ?_⟩
  · rw [htime, htime']
    exact h.le
  · rw [htime, htime', hjournal, hjournal']
    exact h.grown

theorem note (b : Bench ε σ) (event : Event) : b.Chronicle (b.note event) := by
  refine ⟨Int.le_refl _, ?_⟩
  simp only [Bench.note, Journal.note]
  split
  · refine ⟨[⟨b.virtualTime, event⟩], rfl, fun e he => ?_⟩
    rcases List.mem_singleton.mp he with rfl
    exact ⟨Int.le_refl _, Int.le_refl _⟩
  · exact ⟨[], rfl, fun e he => absurd he List.not_mem_nil⟩

end Chronicle

/-- The work adds to the journal in order, on any bench. -/
def Chronicles (work : BenchM ε σ α) : Prop :=
  ∀ b : Bench ε σ, b.Chronicle (work b).2

theorem Chronicles.bind {x : BenchM ε σ α} {f : α → BenchM ε σ β} (hx : Chronicles x)
    (hf : ∀ a, Chronicles (f a)) : Chronicles (x >>= f) := fun b => by
  have hfirst := hx b
  rcases hwork : x b with ⟨halt | a, next⟩
  · rw [hwork] at hfirst
    rw [bind_of_error hwork]
    exact hfirst
  · rw [hwork] at hfirst
    rw [bind_of_ok hwork]
    exact hfirst.trans (hf a next)

theorem chronicles_setPhase (phase : Phase) :
    Chronicles (Bench.setPhase phase : BenchM ε σ Unit) := fun _ => .of_same rfl rfl

theorem chronicles_note (event : Event) :
    Chronicles (modify (note event) : BenchM ε σ PUnit) := fun b => .note b event

theorem chronicle_receive (inCall : Bool) (b : Bench ε σ) (act : Act) :
    b.Chronicle (b.receive inCall act) := by
  cases act with
  | push line =>
    rcases hpush : b.inbox.push line with fault | ⟨_ | due, inbox⟩
    · simp only [receive, hpush]
      exact .refl b
    · simp only [receive, hpush]
      split
      · exact .note b _
      · exact .refl b
    · simp only [receive, hpush]
      exact .of_same rfl rfl
  | close => exact .of_same rfl rfl
  | elapse duration =>
    simp only [receive]
    split
    · exact .of_same rfl rfl
    · exact .refl b

theorem chronicle_acts (inCall : Bool) (acts : List Act) (b : Bench ε σ) :
    b.Chronicle (acts.foldl (receive inCall) b) := by
  induction acts generalizing b with
  | nil => exact .refl b
  | cons act rest ih => exact (chronicle_receive inCall b act).trans (ih _)

variable [Environment ε]

theorem chronicle_turn (moment : Moment) (b : Bench ε σ) : b.Chronicle (b.turn moment) :=
  (chronicle_acts moment.isInCall (Environment.acts moment b.environment).1
    { b with environment := (Environment.acts moment b.environment).2 }).congr rfl rfl rfl rfl

/-! ### While the system under test is updated -/

theorem chronicle_deliver (text : String) (b : Bench ε σ) : b.Chronicle (b.deliver text).2 := by
  unfold deliver
  split
  · exact .of_same rfl rfl
  · next environment _ =>
    exact (chronicle_turn (.wrote text) { b with environment, written := text :: b.written }).congr
      rfl rfl rfl rfl

theorem chronicle_answer (b : Bench ε σ) (c : Call) : b.Chronicle (b.answer c).2 := by
  cases c with
  | inputReady | resetTime | value clock => exact chronicle_turn .access b
  | read =>
    have hturn := chronicle_turn .access b
    simp only [answer, read]
    split
    · exact hturn
    · next line inbox _ =>
      have hnoted := Chronicle.note (b.turn .access) (.inputConsumed line)
      exact hturn.trans (hnoted.congr rfl rfl rfl rfl)
  | write text => exact (Chronicle.note b _).trans (chronicle_deliver text _)
  | note system fields => exact .note b _

theorem chronicle_runOn (p : Program α) (b : Bench ε σ) : b.Chronicle (p.runOn b).2 := by
  induction p generalizing b with
  | pure a => exact .refl b
  | call c next ih => exact (chronicle_answer b c).trans (ih _ _)

theorem chronicles_updateOn (system : System σ) :
    Chronicles (system.updateOn : BenchM ε σ Progress) := fun b => by
  rw [updateOn_eq]
  exact (chronicle_runOn _ b).trans (.of_same rfl rfl)

theorem chronicles_transitions (system : System σ) (limit count : Nat) :
    Chronicles (transitions system.updateOn limit count : BenchM ε σ Nat) := by
  induction limit generalizing count with
  | zero => exact fun b => .refl b
  | succ limit ih =>
    intro b
    have hupdate := chronicles_updateOn system b
    unfold transitions
    split
    · next b₁ heq =>
      rw [heq] at hupdate
      exact hupdate.trans (ih (count + 1) b₁)
    · next b₁ heq =>
      rw [heq] at hupdate
      exact hupdate
    · next halt b₁ heq =>
      rw [heq] at hupdate
      exact hupdate

theorem chronicles_runStep (system : System σ) (limit : Nat) :
    Chronicles (runStep system.updateOn limit : BenchM ε σ Nat) :=
  (chronicles_setPhase .running).bind fun _ =>
    (chronicles_transitions system limit 0).bind fun count =>
      (chronicles_setPhase .quiescent).bind fun _ =>
        (chronicles_note (.stepDone count)).bind fun _ => fun b => .refl b

/-! ### Waiting -/

theorem chronicles_extract (wants : Predicate) :
    Chronicles (extract wants : BenchM ε σ (List Line)) := fun b => by
  have hturn := chronicle_turn .access b
  simp only [extract]
  split
  · exact hturn.trans (.of_same rfl rfl)
  · exact hturn.trans (.of_same rfl rfl)

omit [Environment ε] in
theorem chronicles_grant (s : SimulatedTime) (delay : Duration) :
    Chronicles (grant s delay : BenchM ε σ Unit) := fun b => by
  unfold grant
  split
  · exact (Chronicle.note b (.windowOpened delay)).congr rfl rfl rfl rfl
  · exact .of_same rfl rfl

theorem chronicles_openWindow (s : SimulatedTime) :
    Chronicles (openWindow s : BenchM ε σ Bool) := by
  unfold openWindow
  refine (chronicles_extract _).bind fun directives => ?_
  split
  · exact fun b => .refl b
  · next directive superseded =>
    -- What is done about the earliest directive, whether or not there are others.
    extract_lets rest
    have hrest : ∀ x, Chronicles (rest x) := fun x => by
      simp only [rest]
      split
      · exact fun b => .refl b
      · exact (chronicles_grant s _).bind fun _ => fun b => .refl b
    split
    · exact (chronicles_note _).bind hrest
    · exact hrest ()

theorem chronicles_listen : Chronicles (listen : BenchM ε σ Unit) := fun b => by
  have hturn : b.Chronicle { b.turn .access with wake := .asleep } :=
    (chronicle_turn .access b).congr rfl rfl rfl rfl
  unfold listen
  simp only
  split
  · exact hturn
  · exact hturn
  · exact hturn
  · next inbox _ =>
    have hwait : b.Chronicle (Bench.turn .waiting { b.turn .access with wake := .asleep, inbox }) :=
      hturn.trans ((chronicle_turn .waiting { b.turn .access with wake := .asleep, inbox }).congr
        rfl rfl rfl rfl)
    split
    · exact hwait
    · exact hwait
    · exact hwait

theorem chronicles_waitForDelay (s : SimulatedTime) :
    Chronicles (waitForDelay s : BenchM ε σ Unit) := by
  unfold waitForDelay
  refine (chronicles_openWindow s).bind fun found => ?_
  split
  · exact fun b => .refl b
  · refine chronicles_listen.bind fun _ => (chronicles_openWindow s).bind fun found => ?_
    split
    · exact fun b => .refl b
    · exact fun b => .refl b

theorem chronicles_closeWindow (s : SimulatedTime) :
    Chronicles (closeWindow s : BenchM ε σ Unit) := by
  have hreport : Chronicles (raising (deliver s.report) : BenchM ε σ Unit) := fun b => by
    have hdeliver := chronicle_deliver s.report b
    unfold raising
    rcases heq : b.deliver s.report with ⟨cause | _, next⟩
    · rw [heq] at hdeliver
      exact hdeliver
    · rw [heq] at hdeliver
      exact hdeliver
  unfold closeWindow
  refine hreport.bind fun _ => Chronicles.bind (fun b => ?_) fun _ => chronicles_waitForDelay s
  exact (Chronicle.note b (.windowClosed s.delayed)).congr rfl rfl rfl rfl

/-! ### A run in simulated time -/

/-- The bench shows its time, which is in its window. -/
def IsOnTime (b : Bench ε σ) : Prop := ∃ s, b.Shows s ∧ s.IsSound

/-- A bench that is on time is on time again, and entries have been added in order. -/
def Carries (b next : Bench ε σ) : Prop := b.IsOnTime → next.IsOnTime ∧ b.Chronicle next

omit [Environment ε] in
theorem Carries.refl (b : Bench ε σ) : b.Carries b := fun h => ⟨h, .refl b⟩

omit [Environment ε] in
theorem Carries.trans {a b c : Bench ε σ} (hab : a.Carries b) (hbc : b.Carries c) : a.Carries c :=
  fun ha => ⟨(hbc (hab ha).1).1, (hab ha).2.trans (hbc (hab ha).1).2⟩

theorem carries_start (b : Bench ε σ) : b.Carries (start b).2 := by
  rintro ⟨s, hshows, hsound⟩
  rcases passes_start hshows with ⟨later, houtcome, hlater⟩
  refine ⟨⟨later, hlater, hsound.outcome houtcome⟩, ?_⟩
  rw [start_simulated hshows.policy]
  exact (chronicles_waitForDelay s).bind (fun _ => chronicles_setPhase .running) b

theorem carries_runStep (system : System σ) (limit : Nat) (b : Bench ε σ) :
    b.Carries (runStep system.updateOn limit b).2 := by
  rintro ⟨s, hshows, hsound⟩
  rcases own_runStep system limit b with ⟨new, state, phase, hown⟩
  exact ⟨⟨s, ⟨(congrArg Own.policy hown).trans hshows.policy,
    (congrArg Own.virtualTime hown).trans hshows.published⟩, hsound⟩,
    chronicles_runStep system limit b⟩

omit [Environment ε] in
/-- A tick is published before it is noted. -/
theorem chronicle_tick {b : Bench ε σ} {s later : SimulatedTime} (hshown : b.virtualTime = s.now)
    (htick : s.tick? = some later) :
    b.Chronicle ({ b with policy := .simulated later, virtualTime := later.now }.note
      (.timeAdvanced later.now)) := by
  rcases SimulatedTime.tick?_cases htick with ⟨now, rfl, hnow⟩
  have hle : b.virtualTime ≤ now := by
    rw [hshown]
    change s.now.nanos ≤ now.nanos
    omega
  have hpublished :
      b.Chronicle { b with policy := .simulated { s with now }, virtualTime := now } :=
    ⟨hle, [], rfl, fun e he => absurd he List.not_mem_nil⟩
  exact hpublished.trans (.note _ _)

theorem carries_settle (b : Bench ε σ) : b.Carries (settle b).2 := by
  rintro ⟨s, hshows, hsound⟩
  rcases passes_settle hshows hsound with ⟨later, houtcome, hlater⟩
  refine ⟨⟨later, hlater, hsound.outcome houtcome⟩, ?_⟩
  rw [settle_simulated hshows.policy]
  by_cases hclose : (b.hasOutput || s.isExhausted) = true
  · rw [if_pos hclose]
    exact ((chronicles_closeWindow s).bind (fun _ => chronicles_setPhase .running)
      { b with phase := .awaitingNextStep }).congr rfl rfl rfl rfl
  · rw [if_neg hclose]
    rw [Bool.not_eq_true, Bool.or_eq_false_iff] at hclose
    rcases hsound.ticks hclose.2 with ⟨next, hnext⟩
    rw [bind_of_ok (advance_of_ok hnext)]
    exact (chronicle_tick hshows.published hnext).congr rfl rfl rfl rfl

/-- From the beginning of a drive to each settling, and from there to its end. -/
theorem carries_drive (system : System σ) (limit steps : Nat) (b : Bench ε σ) :
    b.Carries (drive system.updateOn limit steps b).2 ∧
      ∀ t ∈ driveStages system limit steps b, t.stage = .settle →
        b.Carries t.bench ∧ (settle t.bench).2.Carries (drive system.updateOn limit steps b).2 := by
  induction steps generalizing b with
  | zero => exact ⟨.refl b, fun t ht => absurd ht List.not_mem_nil⟩
  | succ steps ih =>
    have hstep := carries_runStep system limit b
    unfold driveStages
    rcases hrun : runStep system.updateOn limit b with ⟨halt | count, b₁⟩
    · rw [hrun] at hstep
      rw [(drive_of_error steps (cycle_of_stopped hrun)).1, List.append_nil]
      refine ⟨hstep, fun t ht hstage => ?_⟩
      exact absurd ((stage_of_mem_updateStages ht).symm.trans hstage) (by decide)
    · rw [hrun] at hstep
      have hsettles := carries_settle b₁
      simp only
      rcases hsettle : settle b₁ with ⟨halt | _, b₂⟩
      · rw [hsettle] at hsettles
        rw [(drive_of_error steps (cycle_of_unsettled hrun hsettle)).1]
        refine ⟨hstep.trans hsettles, fun t ht hstage => ?_⟩
        rcases List.mem_append.mp ht with hupdate | hthis
        · exact absurd ((stage_of_mem_updateStages hupdate).symm.trans hstage) (by decide)
        · rcases List.mem_singleton.mp hthis with rfl
          refine ⟨hstep, ?_⟩
          rw [hsettle]
          exact .refl b₂
      · rw [hsettle] at hsettles
        rw [(drive_of_ok steps (cycle_of_settled hrun hsettle)).1]
        rcases ih b₂ with ⟨hrest, hstages⟩
        refine ⟨(hstep.trans hsettles).trans hrest, fun t ht hstage => ?_⟩
        rcases List.mem_append.mp ht with hupdate | hthen
        · exact absurd ((stage_of_mem_updateStages hupdate).symm.trans hstage) (by decide)
        · rcases List.mem_cons.mp hthen with rfl | hlater
          · refine ⟨hstep, ?_⟩
            rw [hsettle]
            exact hrest
          · rcases hstages t hlater hstage with ⟨hbefore, hafter⟩
            exact ⟨(hstep.trans hsettles).trans hbefore, hafter⟩

omit [Environment ε] in
theorem carries_note (b : Bench ε σ) (event : Event) : b.Carries (b.note event) := by
  rintro ⟨s, hshows, hsound⟩
  exact ⟨⟨s, ⟨hshows.policy, hshows.published⟩, hsound⟩, .note b event⟩

/-- From the beginning of a run to each settling, and from there to its end. -/
theorem carries_stages (system : System σ) (limit steps : Nat) (b : Bench ε σ) :
    ∀ t ∈ stages system limit steps b, t.stage = .settle →
      b.Carries t.bench ∧ (settle t.bench).2.Carries (run system.updateOn limit steps b).2 := by
  intro t ht hstage
  have hstart := carries_start b
  rcases heq : start b with ⟨halt | _, next⟩
  · rw [stages_of_stopped heq, List.mem_singleton] at ht
    rw [ht] at hstage
    exact absurd hstage nofun
  · rw [heq] at hstart
    rw [stages_of_started heq] at ht
    have hend : (drive system.updateOn limit steps next).2.Carries
        (run system.updateOn limit steps b).2 := by
      simp only [run, heq]
      split
      · exact carries_note _ _
      · exact .refl _
    rcases List.mem_cons.mp ht with rfl | hdrive
    · exact absurd hstage nofun
    · rcases (carries_drive system limit steps next).2 t hdrive hstage with ⟨hbefore, hafter⟩
      exact ⟨hstart.trans hbefore, hafter.trans hend⟩

/-! ### Ticks -/

theorem not_ticked_openWindow {s : SimulatedTime} {b : Bench ε σ} {p : Point ε σ}
    (h : p ∈ openWindowCourse s b) : p.happening ≠ .ticked := by
  intro hticked
  rcases List.mem_append.mp h with hturn | hsearch
  · have hactor := actor_turn hturn
    rw [hticked] at hactor
    exact absurd hactor nofun
  · rcases mem_onward hsearch with ⟨directives, swept, -, hfound⟩
    rcases List.mem_cons.mp hfound with rfl | hopened
    · exact absurd hticked nofun
    · split at hopened
      · rw [List.mem_singleton.mp hopened] at hticked
        exact absurd hticked nofun
      · rw [List.mem_singleton.mp hopened] at hticked
        exact absurd hticked nofun
      · exact absurd hopened List.not_mem_nil

/-- No time passes while the bench waits. -/
theorem not_ticked_wait {s : SimulatedTime} {b : Bench ε σ} {p : Point ε σ}
    (h : p ∈ waitCourse s b) : p.happening ≠ .ticked := by
  rcases List.mem_append.mp h with hfirst | hmore
  · exact not_ticked_openWindow hfirst
  · rcases mem_onward hmore with ⟨found, b₁, -, hrest⟩
    split at hrest
    · exact absurd hrest List.not_mem_nil
    · rcases List.mem_append.mp hrest with hlisten | hthen
      · intro hticked
        have hactor := actor_listen hlisten
        rw [hticked] at hactor
        exact absurd hactor nofun
      · rcases mem_onward hthen with ⟨_, b₂, -, hsecond⟩
        exact not_ticked_openWindow hsecond

/-- A settling that ticks does nothing else. -/
theorem ticked_settle {b : Bench ε σ} {p : Point ε σ} (h : p ∈ b.settleCourse)
    (hticked : p.happening = .ticked) : ∃ s later, b.policy = .simulated s ∧
      s.tick? = some later ∧ p.bench = { b with
        phase := .awaitingNextStep
        policy := .simulated later
        virtualTime := later.now }.note (.timeAdvanced later.now) ∧
      (settle b).2 = { p.bench with phase := .running } := by
  have henvironment : p.happening.actor ≠ .environment := by
    rw [hticked]
    exact nofun
  rcases hpolicy : b.policy with r | s
  · simp only [settleCourse, hpolicy] at h
    split at h
    · exact absurd (actor_turn h) henvironment
    · exact absurd h List.not_mem_nil
  · simp only [settleCourse, hpolicy] at h
    rw [settle_simulated hpolicy]
    by_cases hclose : (b.hasOutput || s.isExhausted) = true
    · rw [if_pos hclose] at h
      rcases List.mem_append.mp h with hreport | hwait
      · rcases actor_deliver hreport with hreported | hturn
        · exact absurd (hreported.symm.trans hticked) nofun
        · exact absurd hturn henvironment
      · rcases mem_onward hwait with ⟨_, b₁, -, hrest⟩
        exact absurd hticked (not_ticked_wait hrest)
    · rw [if_neg hclose] at h ⊢
      rcases htick : s.tick? with _ | later
      · rw [advanceCourse, advance_of_none htick] at h
        exact absurd h List.not_mem_nil
      · rw [advanceCourse, advance_of_ok htick] at h
        rcases List.mem_singleton.mp h with rfl
        rw [bind_of_ok (advance_of_ok htick)]
        exact ⟨s, later, rfl, htick, rfl, rfl⟩

/-- A tick is a millisecond of the time that is shown. -/
theorem virtualTime_of_ticked {b : Bench ε σ} (hontime : b.IsOnTime) {p : Point ε σ}
    (h : p ∈ b.settleCourse) (hticked : p.happening = .ticked) :
    p.bench.virtualTime.nanos = b.virtualTime.nanos + 1000000 := by
  rcases hontime with ⟨s', hshows, -⟩
  rcases ticked_settle h hticked with ⟨s, later, hpolicy, htick, hpoint, -⟩
  obtain rfl : s' = s := Policy.simulated.inj (hshows.policy.symm.trans hpolicy)
  rcases SimulatedTime.tick?_cases htick with ⟨now, rfl, hnow⟩
  rw [hpoint, hshows.published]
  exact hnow

/-- The tick itself is noted at the new time, so all entries from then on have it or a later
    one. -/
theorem noted_from_tick {b last : Bench ε σ} {p : Point ε σ} (h : p ∈ b.settleCourse)
    (hticked : p.happening = .ticked) (hlast : (settle b).2.Chronicle last) :
    ∃ new, last.journal.newestFirst = new ++ b.journal.newestFirst ∧
      ∀ e ∈ new, p.bench.virtualTime ≤ e.stamp := by
  rcases ticked_settle h hticked with ⟨s, later, -, -, hpoint, hsettle⟩
  have hnoted := Chronicle.note { b with
    phase := .awaitingNextStep
    policy := .simulated later
    virtualTime := later.now } (.timeAdvanced later.now)
  rw [← hpoint] at hnoted
  rw [hsettle] at hlast
  rcases (hnoted.trans (hlast.congr rfl rfl rfl rfl)).grown with ⟨new, hnew, hbetween⟩
  refine ⟨new, hnew, fun e he => ?_⟩
  rw [hpoint]
  exact (hbetween e he).1

/-- Only a settling ticks. -/
theorem stage_of_ticked {system : System σ} {t : Stretch ε σ} {p : Point ε σ}
    (h : p ∈ t.course system) (hticked : p.happening = .ticked) : t.stage = .settle := by
  rcases t with ⟨_ | _ | _, b⟩
  · change p ∈ b.startCourse at h
    unfold startCourse at h
    split at h
    · exact absurd h List.not_mem_nil
    · exact absurd hticked (not_ticked_wait h)
  · have hactor := actor_program h
    rw [hticked] at hactor
    exact absurd rfl hactor
  · rfl

end Bench

/-! ### What stamps tell -/

/-- A tick divides a run. The stamp is another one afterwards, and no entry of the run that
    was made before the tick has the same stamp as one that is made from then on. -/
structure Divides {ε σ : Type} (first before after last : Bench ε σ) : Prop where
  changed : before.virtualTime.stamp ≠ after.virtualTime.stamp
  noted : ∃ earlier later,
    before.journal.newestFirst = earlier ++ first.journal.newestFirst ∧
    last.journal.newestFirst = later ++ before.journal.newestFirst ∧
    ∀ e ∈ earlier, ∀ e' ∈ later, e.stamp.stamp ≠ e'.stamp.stamp

namespace Bench

variable {ε σ : Type} [Environment ε]

theorem divides_of_ticked {system : System σ} {limit steps : Nat} {b : Bench ε σ}
    (h : b.IsOnTime) {t : Stretch ε σ} (ht : t ∈ stages system limit steps b) {p : Point ε σ}
    (hp : p ∈ t.course system) (hticked : p.happening = .ticked) :
    Divides b t.bench p.bench (run system.updateOn limit steps b).2 := by
  have hstage := stage_of_ticked hp hticked
  rcases carries_stages system limit steps b t ht hstage with ⟨hbefore, hafter⟩
  rcases t with ⟨stage, m⟩
  subst hstage
  rcases hbefore h with ⟨hontime, hearly⟩
  have hnow : p.bench.virtualTime.nanos = m.virtualTime.nanos + 1000000 :=
    virtualTime_of_ticked hontime hp hticked
  rcases hearly.grown with ⟨earlier, hearlier, hupTo⟩
  rcases noted_from_tick hp hticked (hafter (carries_settle m hontime).1).2 with
    ⟨later, hlater, hfrom⟩
  refine ⟨Timestamp.stamp_ne_of_lt (Int.le_of_eq hnow.symm), earlier, later, hearlier, hlater, ?_⟩
  intro e he e' he'
  have hle : e.stamp.nanos ≤ m.virtualTime.nanos := (hupTo e he).2
  have hle' : p.bench.virtualTime.nanos ≤ e'.stamp.nanos := hfrom e' he'
  exact Timestamp.stamp_ne_of_lt (by omega)

/-- Stamps are faithful. Each can be read back to whole seconds and milliseconds, so it is
    that of one millisecond; and whenever a run in simulated time ticks, no entry is stamped
    before the tick and another one from then on in the same way. -/
theorem stamps_are_faithful :
    (∀ (s : Stamper) (beginning : String), ∃ text, s.stamp beginning = beginning ++ text ∧
      readStamp text = (s.reader.time.seconds, s.reader.time.subsec / 1000000)) ∧
    (∀ (s t : Stamper) (beginning : String), s.stamp beginning = t.stamp beginning ↔
      s.reader.time.nanos / 1000000 = t.reader.time.nanos / 1000000) ∧
    ∀ {ε σ : Type} [Environment ε] (system : System σ) (limit steps : Nat) (b : Bench ε σ)
      (s : SimulatedTime), b.Shows s → s.IsSound →
      ∀ t ∈ stages system limit steps b, ∀ p ∈ t.course system, p.happening = .ticked →
        Divides b t.bench p.bench (run system.updateOn limit steps b).2 := by
  refine ⟨fun s beginning => ⟨_, rfl, s.reader.time.readStamp_stamp⟩, fun s t beginning => ?_, ?_⟩
  · rw [← Timestamp.stamp_eq_iff]
    exact String.append_right_inj beginning
  · intro ε σ _ system limit steps b s hshows hsound t ht p hp hticked
    exact divides_of_ticked ⟨s, hshows, hsound⟩ ht hp hticked

/-- A bench a millisecond and a half before the epoch, where everything is noted. -/
def beforeTheEpoch : Bench Passive Echo :=
  { nearTheEnd with
    policy := .simulated (.startingAt ⟨-1500000, by decide, by decide⟩)
    virtualTime := ⟨-1500000, by decide, by decide⟩
    journal := .empty (some .trace) }

/-- The same bench at the end of its first step. -/
def afterTheStep : Bench Passive Echo :=
  (runStep Echo.system.updateOn 1 (start beforeTheEpoch).2).2

theorem afterTheStep_mem_stages :
    ⟨.settle, afterTheStep⟩ ∈ stages Echo.system 1 2 beforeTheEpoch := by
  have hstart : start beforeTheEpoch = (.ok (), (start beforeTheEpoch).2) :=
    Prod.ext (by decide +kernel) rfl
  have hstep : runStep Echo.system.updateOn 1 (start beforeTheEpoch).2 = (.ok 0, afterTheStep) :=
    Prod.ext (by decide +kernel) rfl
  rw [stages_of_started hstart]
  unfold driveStages
  rw [hstep]
  exact List.mem_cons_of_mem _ (List.mem_append_right _ List.mem_cons_self)

theorem stamps_are_faithful_beforeTheEpoch :
    afterTheStep.virtualTime.stamp = " [1969-12-31 23:59:59.998]" ∧
    afterTheStep.journal.newestFirst.length = 2 ∧
    (run Echo.system.updateOn 1 2 beforeTheEpoch).2.journal.newestFirst.length = 5 ∧
    ∃ p ∈ afterTheStep.settleCourse, p.happening = .ticked ∧
      p.bench.virtualTime.stamp = " [1969-12-31 23:59:59.999]" ∧
      Divides beforeTheEpoch afterTheStep p.bench
        (run Echo.system.updateOn 1 2 beforeTheEpoch).2 := by
  refine ⟨by decide +kernel, by decide +kernel, by decide +kernel, ?_⟩
  obtain ⟨p, hp⟩ : ∃ p, p = Point.mk .ticked
      { (settle afterTheStep).2 with phase := .awaitingNextStep } := ⟨_, rfl⟩
  have hmem : p ∈ afterTheStep.settleCourse := by
    rw [show afterTheStep.settleCourse = [p] from hp ▸ rfl]
    exact List.mem_singleton_self p
  have hticked : p.happening = .ticked := congrArg Point.happening hp
  refine ⟨p, hmem, hticked, hp ▸ by decide +kernel, ?_⟩
  exact stamps_are_faithful.2.2 Echo.system 1 2 beforeTheEpoch _ ⟨rfl, rfl⟩
    (SimulatedTime.isSound_startingAt _) _ afterTheStep_mem_stages p hmem hticked

end Bench

end Testbench
