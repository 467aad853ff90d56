import Mathlib.Algebra.Ring.Nat
import Mathlib.Data.List.Forall2
import Testbench.Proofs.Scripts

/-!
# A Run Window by Window

What a whole run in simulated time amounts to, when the test environment follows a
script in which every chunk grants a window. The step loop knows nothing of windows:
after each step it looks at a flag and at a clock, and either lets a millisecond pass
or asks for more time. Seen from outside, though, a run is a sequence of windows, and
each is described by four things: when it was opened, how long it could have lasted,
how long it did, and what its last step wrote. The system is stepped at each
millisecond of a window, both ends included, and only the last of these steps may
write.

`windows` says which sequence it is. It takes the times granted and the outputs of the
steps, cuts the outputs behind each step that closes a window, and opens the next
window at the moment at which the one before was closed.

A run is followed with the rest of a window in view. What is left of a window that
has been silent so far is again a window, opened now and granted what is left; only
its report has to count the milliseconds that have already passed.

## Main definitions

* `Window`: A window of virtual time, once it is closed.
* `windows`: The windows of a run.
* `Grants`: What a chunk of lines is good for.
* `Bench.Calm`: A step that becomes quiescent and writes no report.
* `Bench.Recorded`: Steps that make up a sequence of windows.
* `Bench.Admitted`: What is asked of the steps of a drive.
* `Bench.Tells`: A drive that goes through the rest of a window and the windows after it.
* `Bench.Within`: A bench that is inside a window.

## Theorems

* `windows_spoken`, `windows_silent`: How a step bears on the window it belongs to.
* `Bench.Within.runStep`: A step stays inside its window.
* `Bench.settle_within`: Without output a millisecond passes.
* `Bench.settle_chunk`: A closed window is followed by that of the next chunk.
* `Bench.settle_end`: The last window is followed by the end of the input.
* `Bench.drive_within`: A drive is followed from inside a window to the end.
* `Bench.run_windows`: A run is its windows, one after another.
-/

namespace Testbench

structure Window where
  /-- The moment of opening, in nanoseconds. -/
  opened : Int
  /-- Milliseconds. -/
  granted : Nat
  lasted : Nat
  /-- What the last step wrote, oldest first. -/
  output : List String
  deriving DecidableEq

namespace Window

/-- The moments at which the system is stepped. -/
def moments (w : Window) : List Int :=
  (List.range (w.lasted + 1)).map fun k : Nat => w.opened + (k : Int) * 1000000

/-- What each of its steps writes. -/
def outputs (w : Window) : List (List String) := List.replicate w.lasted [] ++ [w.output]

def transcript (w : Window) : List String := w.output ++ [reportOf w.lasted]

/-- The moment up to which the window was granted can be represented. -/
def EndsInRange (w : Window) : Prop :=
  (Timestamp.ofNanos? (w.opened + (w.granted : Int) * 1000000)).isSome

instance (w : Window) : Decidable w.EndsInRange :=
  inferInstanceAs (Decidable (_ = true))

/-- The window lasted as long as it could without output. -/
def IsExact (w : Window) : Prop :=
  w.lasted ≤ w.granted ∧ (w.lasted = w.granted ∨ w.output ≠ [])

/-- The same window, opened a millisecond earlier and silent in it. -/
def prolonged (w : Window) : Window :=
  { w with opened := w.opened - 1000000, granted := w.granted + 1, lasted := w.lasted + 1 }

theorem moments_prolonged (w : Window) :
    w.prolonged.moments = (w.opened - 1000000) :: w.moments := by
  rw [moments, moments, List.range_succ_eq_map, List.map_cons, List.map_map]
  refine congrArg₂ List.cons ?_ (List.map_congr_left ?_)
  · simp only [prolonged]
    omega
  · intro k _
    simp only [prolonged, Function.comp_apply]
    omega

theorem isExact_prolonged {w : Window} (h : w.IsExact) : w.prolonged.IsExact :=
  ⟨Nat.succ_le_succ h.1, h.2.imp (congrArg Nat.succ) id⟩

end Window

/-- The number of milliseconds until a step has written something, at most `granted`. -/
def consumed (granted : Nat) (outputs : List (List String)) : Nat :=
  (outputs.take granted).findIdx fun output => !output.isEmpty

/-- The windows granted by `granted`, the first of them opened at `opened`, when the
    steps write `outputs`. -/
def windows (opened : Int) : List Nat → List (List String) → List Window
  | [], _ => []
  | granted :: rest, outputs =>
    ⟨opened, granted, consumed granted outputs, outputs.getD (consumed granted outputs) []⟩ ::
      windows (opened + (consumed granted outputs : Int) * 1000000) rest
        (outputs.drop (consumed granted outputs + 1))

/-- A step at the end of a window, or one with output, closes it. -/
theorem windows_spoken {granted : Nat} {output : List String} (opened : Int) (rest : List Nat)
    (outputs : List (List String)) (h : granted = 0 ∨ output ≠ []) :
    windows opened (granted :: rest) (output :: outputs)
      = ⟨opened, granted, 0, output⟩ :: windows opened rest outputs := by
  have hconsumed : consumed granted (output :: outputs) = 0 := by
    unfold consumed
    cases granted with
    | zero => rfl
    | succ granted =>
      rcases h with hzero | hspoken
      · exact absurd hzero (Nat.succ_ne_zero granted)
      · cases output with
        | nil => exact absurd rfl hspoken
        | cons text rest => rfl
  have hmoment : opened + ((0 : Nat) : Int) * 1000000 = opened := by omega
  rw [windows, hconsumed, hmoment]
  rfl

/-- Any other step is followed by a millisecond of the same window. -/
theorem windows_silent (opened : Int) (granted : Nat) (rest : List Nat)
    (outputs : List (List String)) :
    ∃ w later, windows (opened + 1000000) (granted :: rest) outputs = w :: later ∧
      w.opened = opened + 1000000 ∧
      windows opened ((granted + 1) :: rest) ([] :: outputs) = w.prolonged :: later := by
  -- A silent step is passed over by the search for the first output.
  have hconsumed : consumed (granted + 1) ([] :: outputs) = consumed granted outputs + 1 := by
    unfold consumed
    rw [List.take_succ_cons, List.findIdx_cons]
    rfl
  have hback : opened = opened + 1000000 - 1000000 := by omega
  have hmoment : opened + ((consumed granted outputs + 1 : Nat) : Int) * 1000000
      = opened + 1000000 + (consumed granted outputs : Int) * 1000000 := by
    omega
  refine ⟨_, _, rfl, rfl, ?_⟩
  rw [windows, hconsumed, hmoment]
  simp only [List.getD_cons_succ, List.drop_succ_cons, Window.prolonged, ← hback]

/-- The earliest directive of a chunk grants so many milliseconds. -/
def Grants (chunk : List Line) (millis : Nat) : Prop :=
  ∃ directive, chunk.find? Line.isDirective = some directive ∧
    directive.delay? = some (Duration.ofMillis millis)

namespace SimulatedTime

theorem isExhausted_eq {s : SimulatedTime} {left : Nat}
    (h : s.limit.nanos = s.now.nanos + (left : Int) * 1000000) :
    s.isExhausted = decide (left = 0) := by
  refine decide_eq_decide.mpr ?_
  change s.limit.nanos ≤ s.now.nanos ↔ _
  omega

theorem report_eq {s : SimulatedTime} {elapsed : Nat}
    (h : s.now.nanos = s.opened.nanos + (elapsed : Int) * 1000000) :
    s.report = reportOf elapsed := by
  have hmillis : s.delayed.millis = elapsed := by
    simp only [delayed, Timestamp.since, Duration.millis]
    omega
  unfold report
  rw [hmillis]
  rfl

/-- Within a window the next millisecond can be represented, because its end can. -/
theorem tick?_eq_some {s : SimulatedTime} {left : Nat}
    (h : s.limit.nanos = s.now.nanos + ((left + 1 : Nat) : Int) * 1000000) :
    ∃ now, s.tick? = some { s with now } ∧ now.nanos = s.now.nanos + 1000000 := by
  have hfirst := s.now.first_le
  have hend := s.limit.lt_end
  refine ⟨⟨s.now.nanos + 1000000, by omega, by omega⟩, ?_, rfl⟩
  unfold tick?
  rw [Option.map_eq_some_iff]
  exact ⟨_, Timestamp.add?_eq_some.mpr rfl, rfl⟩

theorem grant_eq_ok {s : SimulatedTime} {millis : Nat}
    (h : (Timestamp.ofNanos? (s.now.nanos + (millis : Int) * 1000000)).isSome) :
    ∃ limit, s.grant (Duration.ofMillis millis) = (.ok (), { s with opened := s.now, limit }) ∧
      limit.nanos = s.now.nanos + (millis : Int) * 1000000 := by
  rcases Option.isSome_iff_exists.mp h with ⟨limit, hlimit⟩
  have hnanos : limit.nanos = s.now.nanos + (millis : Int) * 1000000 :=
    Timestamp.ofNanos?_eq_some.mp hlimit
  have hadd : s.now.add? (Duration.ofMillis millis) = some limit := by
    rw [Timestamp.add?_eq_some, hnanos, Duration.ofMillis]
    simp only
    omega
  refine ⟨limit, ?_, hnanos⟩
  simp only [grant, hadd]

end SimulatedTime

namespace Bench

section Records

variable {ε σ : Type} {update : BenchM ε σ Progress} {limit : Nat}

/-- The step that begins at `b` becomes quiescent and writes no report. -/
structure Calm (update : BenchM ε σ Progress) (limit : Nat) (b : Bench ε σ) : Prop where
  quiesces : ∃ count, (runStep update limit b).1 = .ok count
  quiet : ∀ text ∈ stepOutput update limit b, isReport text = false

theorem calm_iff {b : Bench ε σ} : Calm update limit b ↔
    (runStep update limit b).1.isOk = true ∧
      ∀ text ∈ stepOutput update limit b, isReport text = false := by
  constructor
  · rintro ⟨⟨count, hcount⟩, hquiet⟩
    rw [hcount]
    exact ⟨rfl, hquiet⟩
  · rintro ⟨hok, hquiet⟩
    cases hresult : (runStep update limit b).1 with
    | ok count => exact ⟨⟨count, hresult⟩, hquiet⟩
    | error halt =>
      rw [hresult] at hok
      exact absurd hok Bool.false_ne_true

instance (b : Bench ε σ) : Decidable (Calm update limit b) := decidable_of_iff' _ calm_iff

/-- The steps that begin at `starts` make up the windows `ws`. -/
structure Recorded (update : BenchM ε σ Progress) (limit : Nat) (starts : List (Bench ε σ))
    (ws : List Window) : Prop where
  moments : starts.map (fun a => a.now.nanos) = ws.flatMap Window.moments
  outputs : starts.map (stepOutput update limit) = ws.flatMap Window.outputs
  isExact : ∀ w ∈ ws, w.IsExact

theorem Recorded.nil : Recorded update limit [] [] := ⟨rfl, rfl, nofun⟩

theorem Recorded.spoken {granted : Nat} {starts : List (Bench ε σ)} {ws : List Window}
    {a : Bench ε σ} (h : Recorded update limit starts ws)
    (hclose : granted = 0 ∨ stepOutput update limit a ≠ []) :
    Recorded update limit (a :: starts)
      (⟨a.now.nanos, granted, 0, stepOutput update limit a⟩ :: ws) := by
  refine ⟨?_, ?_, ?_⟩
  · have hmoment : a.now.nanos = a.now.nanos + ((0 : Nat) : Int) * 1000000 := by omega
    rw [List.map_cons, List.flatMap_cons, h.moments]
    exact congrArg (· :: _) hmoment
  · rw [List.map_cons, List.flatMap_cons, h.outputs]
    rfl
  · intro w hw
    rcases List.mem_cons.mp hw with rfl | hlater
    · exact ⟨Nat.zero_le _, hclose.imp Eq.symm id⟩
    · exact h.isExact w hlater

theorem Recorded.silent {starts : List (Bench ε σ)} {w : Window} {ws : List Window}
    {a : Bench ε σ} (h : Recorded update limit starts (w :: ws))
    (hmoment : w.opened = a.now.nanos + 1000000) (hsilent : stepOutput update limit a = []) :
    Recorded update limit (a :: starts) (w.prolonged :: ws) := by
  have hback : w.opened - 1000000 = a.now.nanos := by omega
  refine ⟨?_, ?_, ?_⟩
  · rw [List.map_cons, h.moments, List.flatMap_cons, List.flatMap_cons, w.moments_prolonged, hback]
    rfl
  · rw [List.map_cons, h.outputs, hsilent]
    rfl
  · intro v hv
    rcases List.mem_cons.mp hv with rfl | hlater
    · exact Window.isExact_prolonged (h.isExact w List.mem_cons_self)
    · exact h.isExact v (List.mem_cons_of_mem w hlater)

/-- What is asked of the steps that begin at `starts`, inside a window opened at
    `opened`: they are calm, and the windows that follow it end in range. -/
structure Admitted (update : BenchM ε σ Progress) (limit : Nat) (starts : List (Bench ε σ))
    (opened : Int) (granted : List Nat) : Prop where
  calm : ∀ a ∈ starts, Calm update limit a
  inRange : ∀ w ∈ (windows opened granted (starts.map (stepOutput update limit))).tail,
    w.EndsInRange

theorem Admitted.spoken {opened : Int} {granted : Nat} {rest : List Nat}
    {starts : List (Bench ε σ)} {a : Bench ε σ}
    (h : Admitted update limit (a :: starts) opened (granted :: rest))
    (hclose : granted = 0 ∨ stepOutput update limit a ≠ []) :
    (∀ w ∈ windows opened rest (starts.map (stepOutput update limit)), w.EndsInRange) ∧
      Admitted update limit starts opened rest := by
  have hrange := h.inRange
  rw [List.map_cons, windows_spoken _ _ _ hclose] at hrange
  refine ⟨hrange, fun b hb => h.calm b (List.mem_cons_of_mem a hb), ?_⟩
  intro w hw
  exact hrange w (List.mem_of_mem_tail hw)

theorem Admitted.silent {opened : Int} {granted : Nat} {rest : List Nat}
    {starts : List (Bench ε σ)} {a : Bench ε σ}
    (h : Admitted update limit (a :: starts) opened ((granted + 1) :: rest))
    (hsilent : stepOutput update limit a = []) :
    Admitted update limit starts (opened + 1000000) (granted :: rest) := by
  rcases windows_silent opened granted rest (starts.map (stepOutput update limit)) with
    ⟨w, later, hwindows, -, hprolonged⟩
  have hrange := h.inRange
  rw [List.map_cons, hsilent, hprolonged] at hrange
  refine ⟨fun b hb => h.calm b (List.mem_cons_of_mem a hb), ?_⟩
  rw [hwindows]
  exact hrange

variable [Environment ε]

/-- A drive that begins `elapsed` milliseconds after a window was opened goes through
    `w`, which is the rest of that window, and through the windows `later`. -/
structure Tells (update : BenchM ε σ Progress) (limit steps : Nat) (b : Bench ε σ)
    (elapsed : Nat) (w : Window) (later : List Window) : Prop where
  halt : (drive update limit steps b).1 = .error .inputClosed
  recorded : Recorded update limit (driveStarts update limit steps b) (w :: later)
  written : (drive update limit steps b).2.written.reverse = b.written.reverse ++
    (w.output ++ reportOf (elapsed + w.lasted) :: later.flatMap Window.transcript)

theorem Tells.last {steps elapsed granted : Nat} {b next : Bench ε σ}
    (hcycle : cycle update limit b = (.error (.error .inputClosed), next))
    (hclose : granted = 0 ∨ stepOutput update limit b ≠ [])
    (hwritten : next.written.reverse
      = b.written.reverse ++ stepOutput update limit b ++ [reportOf elapsed]) :
    Tells update limit (steps + 1) b elapsed
      ⟨b.now.nanos, granted, 0, stepOutput update limit b⟩ [] := by
  rcases drive_of_error steps hcycle with ⟨hdrive, hstarts⟩
  refine ⟨?_, ?_, ?_⟩
  · rw [hdrive]
  · rw [hstarts]
    exact Recorded.nil.spoken hclose
  · rw [hdrive, hwritten, List.append_assoc]
    rfl

theorem Tells.spoken {steps elapsed granted count : Nat} {b next : Bench ε σ} {w : Window}
    {later : List Window} (h : Tells update limit steps next 0 w later)
    (hcycle : cycle update limit b = (.ok count, next))
    (hclose : granted = 0 ∨ stepOutput update limit b ≠ [])
    (hwritten : next.written.reverse
      = b.written.reverse ++ stepOutput update limit b ++ [reportOf elapsed]) :
    Tells update limit (steps + 1) b elapsed
      ⟨b.now.nanos, granted, 0, stepOutput update limit b⟩ (w :: later) := by
  rcases drive_of_ok steps hcycle with ⟨hdrive, hstarts⟩
  refine ⟨?_, ?_, ?_⟩
  · rw [hdrive, h.halt]
  · rw [hstarts]
    exact h.recorded.spoken hclose
  · rw [hdrive, h.written, hwritten, List.flatMap_cons, Window.transcript, Nat.zero_add]
    simp only [List.append_assoc, List.cons_append, List.nil_append, Nat.add_zero]

theorem Tells.silent {steps elapsed count : Nat} {b next : Bench ε σ} {w : Window}
    {later : List Window} (h : Tells update limit steps next (elapsed + 1) w later)
    (hcycle : cycle update limit b = (.ok count, next))
    (hmoment : w.opened = b.now.nanos + 1000000) (hsilent : stepOutput update limit b = [])
    (hwritten : next.written.reverse = b.written.reverse) :
    Tells update limit (steps + 1) b elapsed w.prolonged later := by
  have hlasted : elapsed + (w.lasted + 1) = elapsed + 1 + w.lasted := by omega
  rcases drive_of_ok steps hcycle with ⟨hdrive, hstarts⟩
  refine ⟨?_, ?_, ?_⟩
  · rw [hdrive, h.halt]
  · rw [hstarts]
    exact h.recorded.silent hmoment hsilent
  · rw [hdrive, h.written, hwritten, Window.prolonged, hlasted]

end Records

/-! ### Steps inside a window -/

/-- The bench is inside a window, `elapsed` milliseconds after it was opened and `left`
    before it ends, and `chunks` are still to come. -/
structure Within {σ τ : Type} (b : Bench (Scripted τ) σ) (s : SimulatedTime)
    (elapsed left : Nat) (chunks : List (List Line)) : Prop where
  policy : b.policy = .simulated s
  elapsed : s.now.nanos = s.opened.nanos + (elapsed : Int) * 1000000
  left : s.limit.nanos = s.now.nanos + (left : Int) * 1000000
  script : b.environment.script = some chunks
  trigger : b.environment.trigger = reportMark
  unheard : b.inbox.listeners.entries = []
  isOpen : b.inbox.closed = false
  plain : ∀ line ∈ b.inbox.lines, line.isDirective = false

theorem Within.setPhase {σ τ : Type} {b : Bench (Scripted τ) σ} {s : SimulatedTime}
    {elapsed left : Nat} {chunks : List (List Line)} (hb : Within b s elapsed left chunks)
    (phase : Phase) : Within { b with phase } s elapsed left chunks :=
  ⟨hb.policy, hb.elapsed, hb.left, hb.script, hb.trigger, hb.unheard, hb.isOpen, hb.plain⟩

theorem Within.now_eq {σ τ : Type} {b : Bench (Scripted τ) σ} {s : SimulatedTime}
    {elapsed left : Nat} {chunks : List (List Line)} (hb : Within b s elapsed left chunks) :
    b.now = s.now := by
  simp only [Bench.now, hb.policy]

variable {σ τ : Type} [Sink τ]

/-- A step neither leaves its window nor uses any of it up. -/
theorem Within.runStep (system : System σ) {limit : Nat} {b : Bench (Scripted τ) σ}
    {s : SimulatedTime} {elapsed left : Nat} {chunks : List (List Line)}
    (hb : Within b s elapsed left chunks) (hcalm : Calm system.updateOn limit b) :
    ∃ count next, Bench.runStep system.updateOn limit b = (.ok count, next) ∧
      Within next s elapsed left chunks ∧
      next.hasOutput = (b.hasOutput || !(stepOutput system.updateOn limit b).isEmpty) ∧
      next.written.reverse = b.written.reverse ++ stepOutput system.updateOn limit b := by
  rcases hcalm with ⟨⟨count, hcount⟩, hquiet⟩
  rcases own_runStep system limit b with ⟨new, state, phase, hown⟩
  have hwritten := congrArg Own.written hown
  have houtput := stepOutput_eq hwritten
  -- The lines of the step are known through `stepOutput`, which tells them in order.
  have hcalm := undisturbed_runStep system limit hb.trigger hwritten fun text htext =>
    hquiet text (by rw [houtput]; exact List.mem_reverse.mpr htext)
  refine ⟨count, (Bench.runStep system.updateOn limit b).2, ?_, ?_, ?_, ?_⟩
  · exact Prod.ext hcount rfl
  · refine ⟨(congrArg Own.policy hown).trans hb.policy, hb.elapsed, hb.left,
      hcalm.script.trans hb.script, hcalm.trigger.trans hb.trigger, ?_,
      hcalm.closed.trans hb.isOpen, fun line hline => hb.plain line (hcalm.lines.mem hline)⟩
    rw [hcalm.listeners]
    exact hb.unheard
  · rw [houtput, List.isEmpty_reverse]
    exact congrArg Own.hasOutput hown
  · rw [houtput, ← List.reverse_append]
    exact congrArg List.reverse hwritten

/-! ### What settles the next step -/

/-- Without output a millisecond passes. -/
theorem settle_within {b : Bench (Scripted τ) σ} {s : SimulatedTime} {elapsed left : Nat}
    {chunks : List (List Line)} (hb : Within b s elapsed (left + 1) chunks)
    (hsilent : b.hasOutput = false) :
    ∃ next now, settle b = (.ok (), next) ∧
      Within next { s with now } (elapsed + 1) left chunks ∧
      now.nanos = s.now.nanos + 1000000 ∧ next.hasOutput = false ∧ next.written = b.written := by
  rcases SimulatedTime.tick?_eq_some hb.left with ⟨now, htick, hnow⟩
  -- Neither reason to close the window holds.
  have hcondition : (b.hasOutput || s.isExhausted) = false := by
    rw [hsilent, SimulatedTime.isExhausted_eq hb.left, Bool.false_or]
    exact decide_eq_false (Nat.succ_ne_zero left)
  let passed : Bench (Scripted τ) σ :=
    { b with phase := .awaitingNextStep, policy := .simulated { s with now }, virtualTime := now }
  refine ⟨{ passed.note (.timeAdvanced now) with phase := .running }, now, ?_, ?_, hnow, ?_, ?_⟩
  · rw [settle_simulated hb.policy, if_neg (ne_true_of_eq_false hcondition),
      bind_of_ok (advance_of_ok htick)]
    rfl
  · have helapsed := hb.elapsed
    have hleft := hb.left
    refine ⟨rfl, ?_, ?_, hb.script, hb.trigger, hb.unheard, hb.isOpen, hb.plain⟩
    · simp only
      omega
    · simp only
      omega
  · exact hsilent
  · rfl

omit [Sink τ] in
theorem Within.stocked {b : Bench (Scripted τ) σ} {s : SimulatedTime} {elapsed left : Nat}
    {chunks : List (List Line)} (hb : Within b s elapsed left chunks) (phase : Phase) :
    Stocked { b with phase } b.inbox.lines chunks :=
  ⟨rfl, hb.unheard, hb.isOpen, hb.script, hb.trigger⟩

omit [Sink τ] in
/-- What is left of earlier chunks holds no directive, so a new chunk decides. -/
theorem Within.find?_append {b : Bench (Scripted τ) σ} {s : SimulatedTime} {elapsed left : Nat}
    {chunks : List (List Line)} (hb : Within b s elapsed left chunks) (chunk : List Line) :
    (b.inbox.lines ++ chunk).find? Line.isDirective = chunk.find? Line.isDirective := by
  have hnone : b.inbox.lines.find? Line.isDirective = none := by
    rw [List.find?_eq_none]
    intro line hline
    exact ne_true_of_eq_false (hb.plain line hline)
  rw [List.find?_append, hnone, Option.none_or]

theorem settle_closing {b : Bench (Scripted τ) σ} {s : SimulatedTime} {elapsed left : Nat}
    {chunks : List (List Line)} (hb : Within b s elapsed left chunks)
    (hclose : b.hasOutput = true ∨ left = 0) :
    settle b
      = (closeWindow s >>= fun _ => setPhase .running) { b with phase := .awaitingNextStep } := by
  have hcondition : (b.hasOutput || s.isExhausted) = true := by
    rcases hclose with hspoken | hzero
    · rw [hspoken, Bool.true_or]
    · rw [SimulatedTime.isExhausted_eq hb.left, decide_eq_true hzero, Bool.or_true]
  rw [settle_simulated hb.policy, if_pos hcondition]

/-- A wait with a chunk in the inbox opens the window of the chunk. -/
theorem waitForDelay_of_chunk {b : Bench (Scripted τ) σ} (s : SimulatedTime) {millis : Nat}
    {lines : List Line} {chunks : List (List Line)} (hb : Stocked b lines chunks)
    (hgrants : Grants lines millis)
    (hrange : (Timestamp.ofNanos? (s.now.nanos + (millis : Int) * 1000000)).isSome) :
    ∃ next limit, waitForDelay s b = (.ok (), next) ∧
      Within next { s with opened := s.now, limit } 0 millis chunks ∧
      next.hasOutput = b.hasOutput ∧ next.written = b.written := by
  rcases hgrants with ⟨directive, hfind, hdelay⟩
  -- The earliest directive is the first of all that the search takes out.
  rw [← hb.lines, ← List.head?_filter, List.head?_eq_some_iff] at hfind
  rcases hfind with ⟨superseded, hfilter⟩
  rcases SimulatedTime.grant_eq_ok hrange with ⟨limit, hgrant, hlimit⟩
  rcases openWindow_of_directive (b := b) s hfilter hdelay with
    ⟨next, hwindow, hown, henvironment, hinbox⟩
  rw [hgrant] at hwindow hown
  refine ⟨next, limit, waitForDelay_of_found hwindow (allowed_ne _), ?_,
    congrArg Own.hasOutput hown, congrArg Own.written hown⟩
  have hplain : ∀ line ∈ next.inbox.lines, line.isDirective = false := by
    rw [hinbox]
    intro line hline
    have hkept := (List.mem_filter.mp hline).2
    rw [Bool.not_eq_true'] at hkept
    exact hkept
  have helapsed : s.now.nanos = s.now.nanos + ((0 : Nat) : Int) * 1000000 := by omega
  refine ⟨congrArg Own.policy hown, helapsed, hlimit, ?_, ?_, ?_, ?_, hplain⟩
  · rw [henvironment]
    exact hb.script
  · rw [henvironment]
    exact hb.trigger
  · rw [hinbox]
    exact hb.unheard
  · rw [hinbox]
    exact hb.isOpen

/-- A closed window is followed by that of the next chunk. -/
theorem settle_chunk {b : Bench (Scripted τ) σ} {s : SimulatedTime} {elapsed left millis : Nat}
    {chunk : List Line} {chunks : List (List Line)} (hb : Within b s elapsed left (chunk :: chunks))
    (hclose : b.hasOutput = true ∨ left = 0)
    (htaken : (Sink.writeLine s.report b.environment.sink).1 = .ok ())
    (hgrants : Grants chunk millis)
    (hrange : (Timestamp.ofNanos? (s.now.nanos + (millis : Int) * 1000000)).isSome) :
    ∃ next limit, settle b = (.ok (), next) ∧
      Within next { s with opened := s.now, limit } 0 millis chunks ∧
      next.hasOutput = false ∧ next.written = reportOf elapsed :: b.written := by
  rcases closeWindow_of_chunk s (hb.stocked .awaitingNextStep) htaken with
    ⟨c, hwindow, hown, hstocked⟩
  have hgrants : Grants (b.inbox.lines ++ chunk) millis := by
    rcases hgrants with ⟨directive, hfind, hdelay⟩
    exact ⟨directive, (hb.find?_append chunk).trans hfind, hdelay⟩
  rcases waitForDelay_of_chunk s hstocked hgrants hrange with
    ⟨next, limit, hwait, hnext, hkept, hsame⟩
  refine ⟨{ next with phase := .running }, limit, ?_, ?_,
    hkept.trans (congrArg Own.hasOutput hown), ?_⟩
  · rw [settle_closing hb hclose, bind_of_ok (hwindow.trans hwait)]
    rfl
  · exact hnext.setPhase .running
  · rw [← SimulatedTime.report_eq hb.elapsed]
    exact hsame.trans (congrArg Own.written hown)

/-- The last window is followed by the end of the input. -/
theorem settle_end {b : Bench (Scripted τ) σ} {s : SimulatedTime} {elapsed left : Nat}
    (hb : Within b s elapsed left []) (hclose : b.hasOutput = true ∨ left = 0)
    (htaken : (Sink.writeLine s.report b.environment.sink).1 = .ok ()) :
    ∃ next, settle b = (.error (.error .inputClosed), next) ∧
      next.written = reportOf elapsed :: b.written := by
  rcases closeWindow_of_end s (hb.stocked .awaitingNextStep) htaken with
    ⟨c, hwindow, hown, hlines, hclosed⟩
  have hplain : ∀ line ∈ c.inbox.lines, line.isDirective = false := by
    rw [hlines]
    exact hb.plain
  refine ⟨{ c with wake := .asleep }, ?_, ?_⟩
  · rw [settle_closing hb hclose]
    exact bind_of_error (hwindow.trans (waitForDelay_at_end s hplain hclosed))
  · rw [← SimulatedTime.report_eq hb.elapsed]
    exact congrArg Own.written hown

/-! ### Runs -/

/-- A drive that begins inside a window goes through the rest of it, and then through
    the windows of the chunks to come. -/
theorem drive_within (hsink : Sink.IsReliable τ) (system : System σ) (limit : Nat) {steps : Nat}
    {b : Bench (Scripted τ) σ} {s : SimulatedTime} {elapsed left : Nat}
    {chunks : List (List Line)} {granted : List Nat} (hb : Within b s elapsed left chunks)
    (hfresh : b.hasOutput = false) (hgranted : List.Forall₂ Grants chunks granted)
    (hsteps : ((left :: granted).map (· + 1)).sum ≤ steps)
    (hadmitted : Admitted system.updateOn limit (driveStarts system.updateOn limit steps b)
      b.now.nanos (left :: granted)) :
    ∃ w later,
      windows b.now.nanos (left :: granted) ((driveStarts system.updateOn limit steps b).map
        (stepOutput system.updateOn limit)) = w :: later ∧
      Tells system.updateOn limit steps b elapsed w later := by
  -- By induction on the steps allowed. Each step uses up either a millisecond of the
  -- window or the window itself, and the bound on the steps counts both.
  induction steps generalizing b s elapsed left chunks granted with
  | zero =>
    simp only [List.map_cons, List.sum_cons] at hsteps
    omega
  | succ steps ih =>
    simp only [List.map_cons, List.sum_cons] at hsteps
    rcases hb.runStep system (hadmitted.calm b List.mem_cons_self) with
      ⟨count, b₁, hstep, hb₁, houtput, hwritten⟩
    -- No output was left over from earlier steps, so the mark tells of this step alone.
    rw [hfresh, Bool.false_or] at houtput
    by_cases hclose : left = 0 ∨ stepOutput system.updateOn limit b ≠ []
    · have hspoken : b₁.hasOutput = true ∨ left = 0 := by
        rcases hclose with hzero | hsome
        · exact .inr hzero
        · rw [houtput, Bool.not_eq_true', List.isEmpty_eq_false_iff]
          exact .inl hsome
      cases hgranted with
      | nil =>
        rcases settle_end hb₁ hspoken (hsink _ _) with ⟨stop, hsettle, hreport⟩
        refine ⟨_, _, windows_spoken _ _ _ hclose,
          Tells.last (cycle_of_unsettled hstep hsettle) hclose ?_⟩
        rw [hreport, List.reverse_cons, hwritten]
      | @cons chunk millis chunks granted hgrants hgranted =>
        -- The end of the next window does not depend on what is written in it.
        have hend : (Timestamp.ofNanos? (s.now.nanos + (millis : Int) * 1000000)).isSome := by
          rw [← hb.now_eq]
          exact (hadmitted.spoken hclose).1 _ List.mem_cons_self
        rcases settle_chunk hb₁ hspoken (hsink _ _) hgrants hend with
          ⟨next, limit', hsettle, hnext, hfresh', hreport⟩
        have hcycle := cycle_of_settled hstep hsettle
        -- No time passes between the last step of a window and the first of the next.
        have hnow : next.now.nanos = b.now.nanos := by rw [hnext.now_eq, hb.now_eq]
        rw [(drive_of_ok steps hcycle).2] at hadmitted ⊢
        have hrest := (hadmitted.spoken hclose).2
        rw [← hnow] at hrest
        rcases ih hnext hfresh' hgranted (by omega) hrest with ⟨w, later, hwindows, htells⟩
        rw [hnow] at hwindows
        refine ⟨_, _, ?_, htells.spoken hcycle hclose ?_⟩
        · rw [List.map_cons, windows_spoken _ _ _ hclose, hwindows]
        · rw [hreport, List.reverse_cons, hwritten]
    · rw [not_or, not_not] at hclose
      rcases Nat.exists_eq_succ_of_ne_zero hclose.1 with ⟨rest, rfl⟩
      have hsilent : b₁.hasOutput = false := by
        rw [houtput, hclose.2]
        rfl
      rcases settle_within hb₁ hsilent with ⟨next, now, hsettle, hnext, hmoment, hfresh', hsame⟩
      have hcycle := cycle_of_settled hstep hsettle
      have hnow : next.now.nanos = b.now.nanos + 1000000 := by
        rw [hnext.now_eq, hb.now_eq]
        exact hmoment
      rw [(drive_of_ok steps hcycle).2] at hadmitted ⊢
      have hrest := hadmitted.silent hclose.2
      rw [← hnow] at hrest
      rcases ih hnext hfresh' hgranted (by simp only [List.map_cons, List.sum_cons]; omega) hrest
        with ⟨w, later, hwindows, htells⟩
      -- What is left after this millisecond is `w`, so with it the window is `w` prolonged.
      rcases windows_silent b.now.nanos rest granted
        ((driveStarts system.updateOn limit steps next).map (stepOutput system.updateOn limit)) with
        ⟨w', later', hwindows', hopened, hprolonged⟩
      rw [← hnow, hwindows, List.cons.injEq] at hwindows'
      rcases hwindows' with ⟨rfl, rfl⟩
      refine ⟨_, _, ?_, htells.silent hcycle hopened hclose.2 ?_⟩
      · rw [List.map_cons, hclose.2]
        exact hprolonged
      · rw [hsame, hwritten, hclose.2, List.append_nil]

/-- The first wait opens the window of the first chunk. -/
theorem start_of_chunk {b : Bench (Scripted τ) σ} {s : SimulatedTime} {chunk : List Line}
    {chunks : List (List Line)} {millis : Nat} (hb : Prepared b s (chunk :: chunks))
    (hgrants : Grants chunk millis)
    (hrange : (Timestamp.ofNanos? (s.now.nanos + (millis : Int) * 1000000)).isSome) :
    ∃ next limit, start b.fed = (.ok (), next) ∧
      Within next { s with opened := s.now, limit } 0 millis chunks ∧
      next.hasOutput = false ∧ next.written = b.written := by
  rcases fed_eq b with ⟨hown, hinbox, henvironment⟩
  have hstocked := hb.stocked.sent b.environment.sink hinbox henvironment
  have hpolicy : b.fed.policy = .simulated s := (congrArg Own.policy hown).trans hb.policy
  rcases waitForDelay_of_chunk s hstocked hgrants hrange with
    ⟨next, limit, hwait, hnext, hkept, hsame⟩
  refine ⟨{ next with phase := .running }, limit, ?_, ?_, ?_, ?_⟩
  · rw [start_simulated hpolicy, bind_of_ok hwait]
    rfl
  · exact hnext.setPhase .running
  · exact (hkept.trans (congrArg Own.hasOutput hown)).trans hb.fresh
  · exact hsame.trans (congrArg Own.written hown)

/-- Without a chunk the input has ended before the first window. -/
theorem start_of_end {b : Bench (Scripted τ) σ} {s : SimulatedTime} (hb : Prepared b s []) :
    ∃ next, start b.fed = (.error (.error .inputClosed), next) ∧ next.written = b.written := by
  rcases fed_eq b with ⟨hown, hinbox, -⟩
  rcases hb.stocked.ended b.environment.sink hinbox with ⟨hlines, hclosed⟩
  have hplain : ∀ line ∈ b.fed.inbox.lines, line.isDirective = false := by
    rw [hlines]
    exact nofun
  have hpolicy : b.fed.policy = .simulated s := (congrArg Own.policy hown).trans hb.policy
  refine ⟨{ b.fed with wake := .asleep }, ?_, congrArg Own.written hown⟩
  rw [start_simulated hpolicy]
  exact bind_of_error (waitForDelay_at_end s hplain hclosed)

/-- A run with a script whose chunks all grant time, and a system whose steps are calm,
    ends regularly, and it consists of the windows granted: the system is stepped at
    their moments and at no others, and all that is written is what these steps write,
    with the report of each window behind its last step. -/
theorem run_windows (hsink : Sink.IsReliable τ) (system : System σ) {limit steps : Nat}
    {b : Bench (Scripted τ) σ} {s : SimulatedTime} {chunks : List (List Line)}
    {granted : List Nat} (hb : Prepared b s chunks)
    (hgranted : List.Forall₂ Grants chunks granted) (hsteps : (granted.map (· + 1)).sum ≤ steps)
    (hcalm : ∀ a ∈ starts system.updateOn limit steps b.fed, Calm system.updateOn limit a)
    (hrange : ∀ w ∈ windows s.now.nanos granted ((starts system.updateOn limit steps b.fed).map
      (stepOutput system.updateOn limit)), w.EndsInRange) :
    ∃ ws, ws = windows s.now.nanos granted ((starts system.updateOn limit steps b.fed).map
        (stepOutput system.updateOn limit)) ∧
      (run system.updateOn limit steps b.fed).1 = .ok () ∧
      Recorded system.updateOn limit (starts system.updateOn limit steps b.fed) ws ∧
      (run system.updateOn limit steps b.fed).2.written.reverse
        = b.written.reverse ++ ws.flatMap Window.transcript := by
  refine ⟨_, rfl, ?_⟩
  cases hgranted with
  | nil =>
    rcases start_of_end hb with ⟨next, hstart, hwritten⟩
    rcases @run_of_stopped _ _ _ system.updateOn limit _ _ _ steps hstart with
      ⟨hresult, htext, hstarts⟩
    rw [hresult, htext, hstarts, hwritten]
    exact ⟨rfl, Recorded.nil, (List.append_nil _).symm⟩
  | cons hgrants hgranted =>
    -- The first window alone has to end in range for the run to start.
    have hend := hrange _ List.mem_cons_self
    rcases start_of_chunk hb hgrants hend with ⟨next, limit', hstart, hnext, hfresh, hwritten⟩
    rcases @run_of_started _ _ _ system.updateOn limit _ _ steps hstart with
      ⟨hresult, htext, hstarts⟩
    have hnow : s.now = next.now := hnext.now_eq.symm
    rw [hstarts] at hcalm hrange ⊢
    rw [hnow] at hrange ⊢
    rcases drive_within hsink system limit hnext hfresh hgranted hsteps
      ⟨hcalm, fun w hw => hrange w (List.mem_of_mem_tail hw)⟩ with ⟨w, later, hwindows, htells⟩
    rw [hwindows, hresult, htext, htells.halt]
    refine ⟨rfl, htells.recorded, ?_⟩
    have hlines := htells.written
    rw [hwritten, Nat.zero_add] at hlines
    rw [List.flatMap_cons, Window.transcript, List.append_assoc, List.singleton_append]
    exact hlines

/-- The first window is silent and lasts to its end; the second one is closed at once. -/
theorem run_windows_echoing :
    (run Echo.system.updateOn 2 5 echoing.fed).1 = .ok () ∧
      (starts Echo.system.updateOn 2 5 echoing.fed).map (fun a => a.now.nanos)
        = [0, 1000000, 1000000] ∧
      (run Echo.system.updateOn 2 5 echoing.fed).2.written.reverse
        = ["Delayed: 1", "hello", "Delayed: 0"] := by
  have hgranted : List.Forall₂ Grants [[⟨"Delay: 1"⟩], [⟨"hello"⟩, ⟨"Delay: 2"⟩]] [1, 2] :=
    .cons ⟨⟨"Delay: 1"⟩, by decide, by decide⟩ (.cons ⟨⟨"Delay: 2"⟩, by decide, by decide⟩ .nil)
  rcases @run_windows _ _ _ (fun _ _ => rfl) Echo.system 2 5 echoing _ _ _
    ⟨rfl, rfl, rfl, rfl, rfl⟩ hgranted (by decide) (by decide +kernel) (by decide +kernel) with
    ⟨ws, hws, hhalt, hrecorded, hwritten⟩
  have hvalue : ws = [⟨0, 1, 1, []⟩, ⟨1000000, 2, 0, ["hello"]⟩] := by
    rw [hws]
    decide +kernel
  rw [hrecorded.moments, hwritten, hvalue]
  exact ⟨hhalt, by decide, by decide⟩

end Bench

end Testbench
