import Testbench.Proofs.Dialogue

/-!
# How Runs End

The regular end of a run is told as an error. A wait raises it, the policy and the step
loop pass it on like any other error, and only the run itself takes it for what it is. So
it must not be raised by anything else, or a run that was cut short would pass for one
that is complete.

Of the parts of a run only the wait for a directive raises it. A report that is not taken
is a failure of the channel, a directive that is no number is malformed, and time that runs
out of its range is a fault. A system under test could raise it, but can be asked not to,
unless it has been told so itself, which no call does. And a wait raises it only if the
inbox is closed and holds no directive: either it found it so, or its listener was given
up, and then no directive had come before. For this the listener itself is followed
through all that the environment may do, whoever else is listening.

At that moment no window is open, as a wait begins where the last window was reported, or
at the start. So all windows granted have been reported, the last of them right before.

## Main definitions

* `System.NeverEndsInput`: The system does not make the error up.
* `Bench.Attends`: How a bench that listens is found.

## Theorems

* `Bench.inbox_of_wait_ended`: A wait ends the input only if it has ended.
* `Bench.settle_of_ended`: The wait after the last window.
* `Bench.success_means_end_of_input`: How runs end.
-/

namespace Testbench

/-- The system takes the input to have ended only if an answer has told it so. -/
def System.NeverEndsInput {σ : Type} (system : System σ) : Prop :=
  ∀ state, system.update.Ensures state fun dialogue result _ =>
    result = .error .inputClosed → ∃ e ∈ dialogue, e.failure? = some .inputClosed

namespace Bench

variable {ε σ : Type}

/-! ### The listener of a bench -/

/-- How a bench that has registered its listener is found, whoever else is listening. -/
inductive Attends (b : Bench ε σ) : Prop
  | asleep (hwake : b.wake = .asleep) (hopen : b.inbox.closed = false)
      (hplain : ∀ line ∈ b.inbox.lines, line.isDirective = false)
      (hheard : ∃ entry ∈ b.inbox.listeners.entries, entry.2.wants = wantsDirective)
  | rung (hwake : b.wake = .rung)
  | released (hwake : b.wake = .released) (hclosed : b.inbox.closed = true)
      (hplain : ∀ line ∈ b.inbox.lines, line.isDirective = false)

theorem accepts_of_wantsDirective {listener : Listener Unit} {line : Line}
    (h : listener.wants = wantsDirective) : listener.accepts line = line.isDirective := by
  unfold Listener.accepts
  rw [h]
  rfl

namespace Attends

variable {b : Bench ε σ}

theorem of_same {next : Bench ε σ} (h : Attends b) (hwake : next.wake = b.wake)
    (hinbox : next.inbox = b.inbox) : Attends next := by
  cases h with
  | asleep h hopen hplain hheard =>
    rw [← hinbox] at hopen hplain hheard
    exact .asleep (hwake.trans h) hopen hplain hheard
  | rung h => exact .rung (hwake.trans h)
  | released h hclosed hplain =>
    rw [← hinbox] at hclosed hplain
    exact .released (hwake.trans h) hclosed hplain

/-- A line that is held either calls some listener or is none that the bench waits for. -/
theorem held {inbox : Inbox Unit} {line : Line} {due : List Unit} (h : Attends b)
    (hpush : b.inbox.push line = .ok (.held due, inbox)) :
    Attends { b with inbox, wake := if due.isEmpty then b.wake else b.wake.first .rung } := by
  rcases Inbox.push_eq_held hpush with ⟨hopen, hstill, hlines, hlisteners, hdue⟩
  cases h with
  | asleep hwake _ hplain hheard =>
    -- If nobody is called then the listener of the bench has turned the line down.
    by_cases hnone : due.isEmpty
    · rcases hheard with ⟨entry, hentry, hwants⟩
      have hdeaf : entry.2.accepts line = false := by
        have hnil := List.map_eq_nil_iff.mp (hdue.symm.trans (List.isEmpty_iff.mp hnone))
        exact Bool.eq_false_iff.mpr (List.filter_eq_nil_iff.mp hnil entry hentry)
      refine .asleep ?_ hstill ?_ ⟨entry, ?_, hwants⟩
      · rw [if_pos hnone]
        exact hwake
      · intro other hother
        change other ∈ inbox.lines at hother
        rw [hlines] at hother
        rcases List.mem_append.mp hother with hold | hnew
        · exact hplain other hold
        · rw [List.mem_singleton.mp hnew, ← accepts_of_wantsDirective hwants]
          exact hdeaf
      · change entry ∈ inbox.listeners.entries
        rw [hlisteners]
        exact List.mem_filter.mpr ⟨hentry, by rw [hdeaf, Bool.not_false]⟩
    · refine .rung ?_
      rw [if_neg hnone, hwake]
      rfl
  | rung hwake =>
    refine .rung ?_
    rw [hwake]
    exact ite_self _
  | released _ hclosed _ => exact absurd (hopen.symm.trans hclosed) Bool.false_ne_true

/-- The end of the input gives up the listener of the bench, if it still waits. -/
theorem closed (h : Attends b) (inCall : Bool) : Attends (b.receive inCall .close) := by
  cases h with
  | asleep hwake _ hplain hheard =>
    refine .released ?_ rfl hplain
    -- All listeners are given up, that of the bench among them.
    have hsome : b.inbox.close.1.isEmpty = false := by
      rcases hheard with ⟨entry, hentry, -⟩
      have hvalue : entry.2.callback ∈ b.inbox.close.1 :=
        List.mem_map_of_mem (List.mem_map_of_mem hentry)
      exact Bool.eq_false_iff.mpr fun hnone =>
        List.ne_nil_of_mem hvalue (List.isEmpty_iff.mp hnone)
    simp only [Bench.receive, hsome, Bool.false_eq_true, if_false, hwake]
    rfl
  | rung hwake =>
    refine .rung ?_
    simp only [Bench.receive, hwake]
    exact ite_self _
  | released hwake _ hplain =>
    refine .released ?_ rfl hplain
    simp only [Bench.receive, hwake]
    exact ite_self _

/-- Nothing that the environment does goes unnoticed. -/
theorem receive (h : Attends b) (inCall : Bool) (act : Act) :
    Attends (b.receive inCall act) := by
  cases act with
  | push line =>
    rcases hpush : b.inbox.push line with fault | ⟨_ | due, inbox⟩
    · simp only [Bench.receive, hpush]
      exact h
    · simp only [Bench.receive, hpush]
      split
      · exact h.of_same rfl rfl
      · exact h
    · simp only [Bench.receive, hpush]
      exact h.held hpush
  | close => exact h.closed inCall
  | elapse duration =>
    simp only [Bench.receive]
    split
    · exact h.of_same rfl rfl
    · exact h

theorem foldl (h : Attends b) (inCall : Bool) (acts : List Act) :
    Attends (acts.foldl (Bench.receive inCall) b) := by
  induction acts generalizing b with
  | nil => exact h
  | cons act rest ih => exact ih (h.receive inCall act)

theorem turn [Environment ε] (h : Attends b) (moment : Moment) : Attends (b.turn moment) :=
  foldl (b := { b with environment := (Environment.acts moment b.environment).2 })
    (h.of_same rfl rfl) _ _

/-- So it is from the moment at which the bench has registered. -/
theorem listening (hopen : b.inbox.closed = false)
    (hplain : b.inbox.lines.any Line.isDirective = false) : Attends b.listening := by
  refine .asleep rfl hopen (fun line hline => ?_) ?_
  · exact Bool.eq_false_iff.mpr (List.any_eq_false.mp hplain line hline)
  · rcases Slots.entries_insert b.inbox.listeners ⟨wantsDirective, ()⟩ with ⟨key, hperm⟩
    exact ⟨_, hperm.mem_iff.mpr List.mem_cons_self, rfl⟩

end Attends

/-! ### Where the end of the input comes from -/

variable [Environment ε]

theorem inbox_of_listen_ended {b next : Bench ε σ}
    (h : listen b = (.error (.error .inputClosed), next)) :
    next.inbox.closed = true ∧ ∀ line ∈ next.inbox.lines, line.isDirective = false := by
  cases hany : (b.turn .access).inbox.lines.any Line.isDirective with
  | true =>
    rw [listen_of_satisfied hany] at h
    exact absurd (Prod.mk.inj h).1 nofun
  | false =>
    cases hclosed : (b.turn .access).inbox.closed with
    | true =>
      rw [listen_of_refused hany hclosed] at h
      rw [← (Prod.mk.inj h).2]
      refine ⟨hclosed, fun line hline => ?_⟩
      exact Bool.eq_false_iff.mpr (List.any_eq_false.mp hany line hline)
    | false =>
      -- From here on the listener is followed through what the environment does.
      have hattends := (Attends.listening hclosed hany).turn .waiting
      rw [listen_of_pending hany hclosed] at h
      rcases Prod.mk.inj h with ⟨hresult, rfl⟩
      cases hattends with
      | asleep hwake _ _ _ =>
        rw [hwake] at hresult
        exact absurd hresult nofun
      | rung hwake =>
        rw [hwake] at hresult
        exact absurd hresult nofun
      | released _ hover hplain => exact ⟨hover, hplain⟩

/-- A search ends a wait only with a window or with an error of its own. -/
theorem openWindow_ne_ended (s : SimulatedTime) (b : Bench ε σ) :
    (openWindow s b).1 ≠ .error (.error .inputClosed) := by
  rcases hfound : (b.turn .access).inbox.lines.filter Line.isDirective with
    _ | ⟨directive, superseded⟩
  · rw [openWindow_of_nothing s hfound]
    exact nofun
  · rcases hdelay : directive.delay? with _ | delay
    · rcases openWindow_of_malformed s hfound hdelay with ⟨next, hopen, -⟩
      rw [hopen]
      exact nofun
    · rcases openWindow_of_directive s hfound hdelay with ⟨next, hopen, -⟩
      rw [hopen]
      rcases (s.grant delay).1 with fault | _
      · exact nofun
      · exact nofun

/-- The ways in which a wait goes: a search decides it, or the listener fails, or the
    listener was called for nothing. -/
theorem waitForDelay_cases (s : SimulatedTime) (b : Bench ε σ) :
    (∃ b' result next, openWindow s b' = (result, next) ∧
      waitForDelay s b = (result.map fun _ => (), next)) ∨
    (∃ b' halt next, listen b' = (.error halt, next) ∧
      waitForDelay s b = (.error halt, next)) ∨
    ∃ next, waitForDelay s b = (.error .blocked, next) := by
  -- The bench listens only if the first search was in vain.
  by_cases hfirst : (openWindow s b).1 = .ok false
  · have hsearch : openWindow s b = (.ok false, (openWindow s b).2) := Prod.ext hfirst rfl
    rcases hlisten : listen (openWindow s b).2 with ⟨halt | _, b₂⟩
    · exact .inr (.inl ⟨_, halt, b₂, hlisten, waitForDelay_of_closed hsearch hlisten⟩)
    · by_cases hsecond : (openWindow s b₂).1 = .ok false
      · exact .inr (.inr ⟨_, waitForDelay_of_vain hsearch hlisten (Prod.ext hsecond rfl)⟩)
      · exact .inl ⟨b₂, _, _, rfl, waitForDelay_of_rung hsearch hlisten rfl hsecond⟩
  · exact .inl ⟨b, _, _, rfl, waitForDelay_of_found rfl hfirst⟩

/-- A wait ends the input only if it has ended. -/
theorem inbox_of_wait_ended {s : SimulatedTime} {b next : Bench ε σ}
    (h : waitForDelay s b = (.error (.error .inputClosed), next)) :
    next.inbox.closed = true ∧ ∀ line ∈ next.inbox.lines, line.isDirective = false := by
  rcases waitForDelay_cases s b with ⟨b', result, next', hsearch, hwait⟩ |
    ⟨b', halt, next', hlisten, hwait⟩ | ⟨next', hwait⟩
  · rw [hwait] at h
    rcases result with halt | found
    · have hhalt : halt = .error .inputClosed := Except.error.inj (Prod.mk.inj h).1
      rw [hhalt] at hsearch
      exact absurd (congrArg Prod.fst hsearch) (openWindow_ne_ended s b')
    · exact absurd (Prod.mk.inj h).1 nofun
  · rw [hwait] at h
    rcases Prod.mk.inj h with ⟨hhalt, rfl⟩
    rw [Except.error.inj hhalt] at hlisten
    exact inbox_of_listen_ended hlisten
  · rw [hwait] at h
    exact absurd (Prod.mk.inj h).1 nofun

/-! ### The ends of the stretches -/

theorem start_realTime {b : Bench ε σ} {r : RealTime} (h : b.policy = .realTime r) :
    start b = setPhase .running b := by
  unfold start
  rw [bind_of_ok (x := get) rfl]
  simp only [h]

theorem settle_realTime {b : Bench ε σ} {r : RealTime} (h : b.policy = .realTime r) :
    settle b = (sleep r.pollPeriod >>= fun _ => setPhase .running)
      { b with phase := .awaitingNextStep } := by
  rw [settle, bind_of_ok (x := setPhase .awaitingNextStep) (b := b) rfl,
    bind_of_ok (x := get) rfl]
  simp only [h]

theorem settle_realTime_cases {b : Bench ε σ} {r : RealTime} (h : b.policy = .realTime r) :
    (settle b).1 ≠ .error (.error .inputClosed) ∧ (settle b).2.policy = .realTime r := by
  rw [settle_realTime h]
  rcases hadd : b.wall.add? r.pollPeriod with _ | wall
  · have hsleep : sleep r.pollPeriod { b with phase := .awaitingNextStep }
        = (.error (.fault .timeOverflow), { b with phase := .awaitingNextStep }) := by
      simp only [sleep, hadd]
    rw [bind_of_error hsleep]
    exact ⟨nofun, h⟩
  · have hsleep : sleep r.pollPeriod { b with phase := .awaitingNextStep }
        = (.ok (), turn .slept { b with phase := .awaitingNextStep, wall }) := by
      simp only [sleep, hadd]
    have hown := own_turn .slept { b with phase := .awaitingNextStep, wall }
    rw [bind_of_ok hsleep]
    exact ⟨nofun, (congrArg Own.policy hown).trans h⟩

theorem start_of_ended {b next : Bench ε σ} (h : start b = (.error (.error .inputClosed), next)) :
    next.inbox.closed = true ∧ ∀ line ∈ next.inbox.lines, line.isDirective = false := by
  cases hpolicy : b.policy with
  | realTime r =>
    rw [start_realTime hpolicy] at h
    exact absurd (Prod.mk.inj h).1 nofun
  | simulated s =>
    rw [start_simulated hpolicy] at h
    rcases hwait : waitForDelay s b with ⟨halt | _, b₁⟩
    · rw [bind_of_error hwait] at h
      rw [← (Prod.mk.inj h).2]
      rw [Except.error.inj (Prod.mk.inj h).1] at hwait
      exact inbox_of_wait_ended hwait
    · rw [bind_of_ok hwait] at h
      exact absurd (Prod.mk.inj h).1 nofun

theorem closeWindow_of_refused {s : SimulatedTime} {b : Bench ε σ} {cause : IoFailure}
    {environment : ε}
    (h : Environment.accept s.report b.environment = (.error cause, environment)) :
    closeWindow s b = (.error (.error (.output cause)), { b with environment }) := by
  have hreport : raising (deliver s.report) b
      = (.error (.error (.output cause)), { b with environment }) := by
    simp only [raising, deliver_of_refused h]
  exact bind_of_error hreport

/-- What a window that is closed ends with. -/
theorem closeWindow_cases (s : SimulatedTime) (b : Bench ε σ) :
    (∃ cause next, closeWindow s b = (.error (.error (.output cause)), next)) ∨
    ∃ environment next, Environment.accept s.report b.environment = (.ok (), environment) ∧
      closeWindow s b = waitForDelay s next := by
  rcases haccept : Environment.accept s.report b.environment with ⟨cause | _, environment⟩
  · exact .inl ⟨cause, _, closeWindow_of_refused haccept⟩
  · rcases deliver_of_taken haccept with ⟨next, hdeliver, -⟩
    exact .inr ⟨environment, _, rfl, closeWindow_of_ok hdeliver⟩

/-- A report that is taken comes first. -/
theorem closeWindowCourse_of_taken {s : SimulatedTime} {b : Bench ε σ} {environment : ε}
    (h : Environment.accept s.report b.environment = (.ok (), environment)) :
    ∃ last rest, closeWindowCourse s b = ⟨.reported s.delayed, last⟩ :: rest := by
  simp only [closeWindowCourse, deliverCourse, h]
  exact ⟨_, _, rfl⟩

/-- After a window the input ends only behind the report, which was taken. -/
theorem settle_of_ended {b next : Bench ε σ}
    (h : settle b = (.error (.error .inputClosed), next)) :
    (next.inbox.closed = true ∧ ∀ line ∈ next.inbox.lines, line.isDirective = false) ∧
      ∃ delayed last rest, b.settleCourse = ⟨.reported delayed, last⟩ :: rest := by
  cases hpolicy : b.policy with
  | realTime r => exact absurd (congrArg Prod.fst h) (settle_realTime_cases hpolicy).1
  | simulated s =>
    rw [settle_simulated hpolicy] at h
    rw [settleCourse_simulated hpolicy]
    by_cases hclose : (b.hasOutput || s.isExhausted) = true
    · rw [if_pos hclose] at h ⊢
      rcases closeWindow_cases s { b with phase := .awaitingNextStep } with
        ⟨cause, b₁, hrefused⟩ | ⟨environment, b₁, haccept, hwindow⟩
      · rw [bind_of_error hrefused] at h
        exact absurd (Prod.mk.inj h).1 nofun
      · refine ⟨?_, ?_⟩
        · rcases hwait : waitForDelay s b₁ with ⟨halt | _, b₂⟩
          · rw [bind_of_error (hwindow.trans hwait)] at h
            rw [← (Prod.mk.inj h).2]
            rw [Except.error.inj (Prod.mk.inj h).1] at hwait
            exact inbox_of_wait_ended hwait
          · rw [bind_of_ok (hwindow.trans hwait)] at h
            exact absurd (Prod.mk.inj h).1 nofun
        · exact ⟨s.delayed, closeWindowCourse_of_taken haccept⟩
    · rw [if_neg hclose] at h
      rcases htick : s.tick? with _ | later
      · rw [bind_of_error (advance_of_none htick)] at h
        exact absurd (Prod.mk.inj h).1 nofun
      · rw [bind_of_ok (advance_of_ok htick)] at h
        exact absurd (Prod.mk.inj h).1 nofun

/-- A system that does not make it up does not raise the end of the input. -/
theorem updateOn_ne_ended {system : System σ} (hsystem : system.NeverEndsInput) (b : Bench ε σ) :
    (system.updateOn b).1 ≠ .error (.error .inputClosed) := by
  rcases system.ensures_updateOn (hsystem b.system) with ⟨cause | progress, htold, hresult⟩
  · rw [hresult]
    intro hended
    rcases htold (congrArg Except.error (Halt.error.inj (Except.error.inj hended))) with
      ⟨e, he, hfailure⟩
    exact failure?_dialogue _ b he hfailure
  · rw [hresult]
    exact nofun

/-- Where the end of the input is raised, it has come. -/
theorem outcome_of_ended {system : System σ} (hsystem : system.NeverEndsInput)
    {t : Stretch ε σ} (h : (t.outcome system).1 = some (.error .inputClosed)) :
    ((t.outcome system).2.inbox.closed = true ∧
      ∀ line ∈ (t.outcome system).2.inbox.lines, line.isDirective = false) ∧
    (t.stage = .start ∨ t.stage = .settle ∧
      ∃ delayed last rest, t.course system = ⟨.reported delayed, last⟩ :: rest) := by
  rcases t with ⟨_ | _ | _, b⟩
  · have hstart : start b = (.error (.error .inputClosed), (start b).2) :=
      Prod.ext (haltOf_eq_some.mp h) rfl
    exact ⟨start_of_ended hstart, .inl rfl⟩
  · exact absurd (haltOf_eq_some.mp h) (updateOn_ne_ended hsystem b)
  · have hsettle : settle b = (.error (.error .inputClosed), (settle b).2) :=
      Prod.ext (haltOf_eq_some.mp h) rfl
    rcases settle_of_ended hsettle with ⟨hinbox, hreport⟩
    exact ⟨hinbox, .inr ⟨rfl, hreport⟩⟩

/-! ### Along a run -/

/-- In real time the end of the input is not raised. -/
theorem realTime_ne_ended {system : System σ} (hsystem : system.NeverEndsInput)
    {t : Stretch ε σ} {r : RealTime} (hpolicy : t.bench.policy = .realTime r) :
    (t.outcome system).1 ≠ some (.error .inputClosed) ∧
      (t.outcome system).2.policy = .realTime r := by
  rcases t with ⟨_ | _ | _, b⟩
  · change haltOf (start b).1 ≠ _ ∧ (start b).2.policy = _
    rw [start_realTime hpolicy]
    exact ⟨nofun, hpolicy⟩
  · refine ⟨fun h => updateOn_ne_ended hsystem b (haltOf_eq_some.mp h), ?_⟩
    rcases own_updateOn system b with ⟨new, state, hown⟩
    exact (congrArg Own.policy hown).trans hpolicy
  · rcases settle_realTime_cases hpolicy with ⟨hresult, hkept⟩
    exact ⟨fun h => hresult (haltOf_eq_some.mp h), hkept⟩

/-- After the start, a window is open wherever a stretch begins. -/
theorem leads_stretch {system : System σ} {isOpen : Bool} {v : Scene} {past : Course ε σ}
    {t : Stretch ε σ} (hstage : t.stage ≠ .start) (hgoes : (t.outcome system).1 = none)
    (hpolicy : ∃ s, t.bench.policy = .simulated s)
    (h : Leads isOpen v past true t.bench.scene) :
    Leads isOpen v (past ++ t.course system) true (t.outcome system).2.scene := by
  rcases t with ⟨_ | _ | _, b⟩
  · exact absurd rfl hstage
  · exact h.append (leads_updateOn system b)
  · rcases hpolicy with ⟨s, hpolicy⟩
    rcases covers_settle hpolicy with ⟨last, hleads, hopen, -⟩
    rcases haltOf_eq_none hgoes with ⟨_, hok⟩
    rw [hopen () hok] at hleads
    exact h.append hleads

theorem leads_stretches {system : System σ} {limit steps : Nat} {b : Bench ε σ}
    {s : SimulatedTime} (hpolicy : b.policy = .simulated s) {first t : Stretch ε σ}
    {more after : List (Stretch ε σ)}
    (h : stages system limit steps b = first :: (more ++ t :: after)) :
    Leads false b.scene ((first :: more).flatMap (Stretch.course system)) true t.bench.scene ∧
      t.stage ≠ .start := by
  rcases hstart : start b with ⟨cause | _, next⟩
  -- A start that fails is the only stretch, and `t` is not the first one.
  · rw [stages_of_stopped hstart, List.cons.injEq] at h
    exact absurd h.2.symm (List.append_ne_nil_of_right_ne_nil _ (List.cons_ne_nil _ _))
  · rw [stages_of_started hstart, List.cons.injEq] at h
    rcases h with ⟨rfl, hrest⟩
    rcases covers_start hpolicy with ⟨last, hleads, hopen, -⟩
    rw [hstart] at hleads hopen
    rw [hopen () rfl] at hleads
    have hlater : ∀ u ∈ more ++ t :: after, u.stage ≠ .start := by
      rw [← hrest]
      exact fun u hu => stage_ne_start hu
    refine ⟨?_, hlater t (List.mem_append_right _ List.mem_cons_self)⟩
    have hfollows := follows_drive system limit steps next
    rw [hrest] at hfollows
    refine hfollows.invariant (P := fun past b' => Leads false b.scene past true b'.scene) _
      (fun hpast hlike => ?_) (fun hu hpast hgoes => ?_) hleads
    · rw [hlike.scene_eq]
      exact hpast
    · exact leads_stretch (hlater _ (List.mem_append_left _ hu)) hgoes
        (hpast.simulated ⟨s, hpolicy⟩) hpast

/-- No window is open when the input ends. -/
theorem leads_ended {system : System σ} (hsystem : system.NeverEndsInput) {limit steps : Nat}
    {b : Bench ε σ} {s : SimulatedTime} (hpolicy : b.policy = .simulated s)
    {before : List (Stretch ε σ)} {t : Stretch ε σ}
    (h : stages system limit steps b = before ++ [t])
    (hended : (t.outcome system).1 = some (.error .inputClosed)) :
    Leads false b.scene (runCourse system limit steps b) false (t.outcome system).2.scene := by
  rw [runCourse_eq, h, List.flatMap_append, List.flatMap_singleton]
  cases before with
  | nil =>
    have hfirst : t = ⟨.start, b⟩ := (List.cons.inj h).1.symm
    rw [hfirst] at hended ⊢
    rcases covers_start hpolicy with ⟨last, hleads, -, hshut⟩
    rw [hshut (haltOf_eq_some.mp hended)] at hleads
    exact hleads
  | cons first more =>
    rcases leads_stretches hpolicy h with ⟨hpast, hstage⟩
    refine hpast.append ?_
    -- It was no start, and no update raises the end of the input.
    rcases t with ⟨_ | _ | _, b'⟩
    · exact absurd rfl hstage
    · exact absurd (haltOf_eq_some.mp hended) (updateOn_ne_ended hsystem b')
    · rcases hpast.simulated ⟨s, hpolicy⟩ with ⟨s', hpolicy'⟩
      rcases covers_settle hpolicy' with ⟨last, hleads, -, hshut⟩
      rw [hshut (haltOf_eq_some.mp hended)] at hleads
      exact hleads

/-- In real time no stretch of a run raises the end of the input. -/
theorem realTime_stretches {system : System σ} (hsystem : system.NeverEndsInput)
    {limit steps : Nat} {b : Bench ε σ} {r : RealTime} (hpolicy : b.policy = .realTime r)
    {before after : List (Stretch ε σ)} {t : Stretch ε σ}
    (h : stages system limit steps b = before ++ t :: after) :
    (t.outcome system).1 ≠ some (.error .inputClosed) := by
  rcases follows_run system limit steps b with ⟨halt, hfollows, -⟩
  rw [h] at hfollows
  refine (realTime_ne_ended hsystem (hfollows.invariant
    (P := fun (_ : Course ε σ) b' => b'.policy = .realTime r) []
    (fun hpast hlike => ?_) (fun _ hpast _ => (realTime_ne_ended hsystem hpast).2) hpolicy)).1
  exact (congrArg Scene.policy hlike.scene_eq).trans hpast

theorem resultOf_eq (halt : Halt) :
    resultOf halt = if halt = .error .inputClosed then .ok () else .error halt := by
  unfold resultOf
  split
  · exact (if_pos rfl).symm
  · next hne => exact (if_neg hne).symm

/-- A run that succeeds was stopped by the end of the input. -/
theorem exists_ended {system : System σ} {limit steps : Nat} {b : Bench ε σ}
    (hok : (run system.updateOn limit steps b).1 = .ok ()) :
    ∃ before t, stages system limit steps b = before ++ [t] ∧
      (t.outcome system).1 = some (.error .inputClosed) ∧
      (t.outcome system).2.IsLike (run system.updateOn limit steps b).2 := by
  rcases follows_run system limit steps b with ⟨halt, hfollows, hresult⟩
  have hhalt : halt = .error .inputClosed := by
    by_contra hne
    rw [hresult, resultOf_eq, if_neg hne] at hok
    exact absurd hok nofun
  rw [hhalt] at hfollows
  exact hfollows.exists_last nofun

/-- How runs end, whatever the environment and the sink do, if the system under test does
    not make up the end of the input. The first stretch of work that fails is the last one:
    nothing is done after it, and the run answers with its failure, unless this is the end
    of the input. No run in real time succeeds. In simulated time a run succeeds only
    because its last stretch was a wait that found no directive and the inbox closed. This
    was at the start, or after a report and no step behind it, and all windows opened have
    been reported by then. -/
theorem success_means_end_of_input {system : System σ} (hsystem : system.NeverEndsInput)
    (limit steps : Nat) (b : Bench ε σ) :
    (∀ before t after halt, stages system limit steps b = before ++ t :: after →
      (t.outcome system).1 = some halt →
      after = [] ∧ (t.outcome system).2.IsLike (run system.updateOn limit steps b).2 ∧
      (run system.updateOn limit steps b).1
        = if halt = .error .inputClosed then .ok () else .error halt) ∧
    (∀ r, b.policy = .realTime r → (run system.updateOn limit steps b).1 ≠ .ok ()) ∧
    ((run system.updateOn limit steps b).1 = .ok () →
      (∃ s, b.policy = .simulated s) ∧
      (run system.updateOn limit steps b).2.inbox.closed = true ∧
      (∀ line ∈ (run system.updateOn limit steps b).2.inbox.lines, line.isDirective = false) ∧
      (reportedIn (runCourse system limit steps b)).length
        = (grantedIn (runCourse system limit steps b)).length ∧
      ∃ before t, stages system limit steps b = before ++ [t] ∧
        (t.outcome system).1 = some (.error .inputClosed) ∧
        (before = [] ∧ t.stage = .start ∨ t.stage = .settle ∧
          ∃ delayed next rest, t.course system = ⟨.reported delayed, next⟩ :: rest)) := by
  rcases follows_run system limit steps b with ⟨halt, hfollows, hresult⟩
  refine ⟨fun before t after cause h hcause => ?_, fun r hpolicy hok => ?_, fun hok => ?_⟩
  · rw [h] at hfollows
    rcases hfollows.last_of_halt hcause with ⟨hafter, hhalt, hend⟩
    rw [Option.some.inj hhalt] at hresult
    exact ⟨hafter, hend, hresult.trans (resultOf_eq cause)⟩
  · rcases exists_ended hok with ⟨before, t, h, hended, -⟩
    exact realTime_stretches hsystem hpolicy h hended
  · rcases exists_ended hok with ⟨before, t, h, hended, hlike⟩
    rcases outcome_of_ended hsystem hended with ⟨⟨hclosed, hplain⟩, hstage⟩
    cases hpolicy : b.policy with
    | realTime r => exact absurd hended (realTime_stretches hsystem hpolicy h)
    | simulated s =>
      rcases (leads_ended hsystem hpolicy h hended).accounts hpolicy (.atFirst s) with
        ⟨s', closed, current, -, haccounts⟩
      rw [List.nil_append] at haccounts
      rcases haccounts.eq_none with rfl
      refine ⟨⟨s, rfl⟩, ?_, ?_, ?_, before, t, h, hended, ?_⟩
      · rw [hlike.inbox_eq]
        exact hclosed
      · rw [hlike.inbox_eq]
        exact hplain
      · rw [haccounts.reportedIn_eq, haccounts.grantedIn_eq, Option.toList_none,
          List.append_nil, List.length_map, List.length_map]
      · rcases hstage with hstart | hsettle
        · cases before with
          | nil => exact .inl ⟨rfl, hstart⟩
          | cons first more => exact absurd hstart (leads_stretches hpolicy h).2
        · exact .inr hsettle

theorem neverEndsInput_echo : Echo.system.NeverEndsInput := by
  intro state
  change Echo.update.Ensures state _
  unfold Echo.update
  rw [Procedure.ensures_bind, Procedure.ensures_nextInput?]
  refine ⟨nofun, fun line => ?_, fun cause h => ?_⟩
  · simp only [Procedure.ensures_bind, Procedure.ensures_write, Procedure.ensures_pure]
    refine ⟨nofun, fun cause h => ?_⟩
    exact ⟨_, List.mem_append_right _ List.mem_cons_self, congrArg some (Except.error.inj h)⟩
  · exact ⟨_, List.mem_cons_of_mem _ List.mem_cons_self, congrArg some (Except.error.inj h)⟩

theorem success_means_end_of_input_echoing : Echo.system.NeverEndsInput ∧
    (run Echo.system.updateOn 9 9 echoing.fed).1 = .ok () ∧
    (run Echo.system.updateOn 9 9 echoing.fed).2.inbox.closed = true ∧
    (reportedIn (runCourse Echo.system 9 9 echoing.fed)).length
      = (grantedIn (runCourse Echo.system 9 9 echoing.fed)).length := by
  have hok : (run Echo.system.updateOn 9 9 echoing.fed).1 = .ok () := by decide +kernel
  rcases success_means_end_of_input neverEndsInput_echo 9 9 echoing.fed with ⟨-, -, hsuccess⟩
  rcases hsuccess hok with ⟨-, hclosed, -, hcounts, -⟩
  exact ⟨neverEndsInput_echo, hok, hclosed, hcounts⟩

end Bench

end Testbench
