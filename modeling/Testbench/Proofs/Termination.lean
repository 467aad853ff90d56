import Mathlib.Data.List.Flatten
import Testbench.Proofs.Cues
import Testbench.Proofs.Ranking
import Testbench.Proofs.Windows

/-!
# Runs that End

The step loop is endless by design, and it is the input that ends it. If every chunk of a
script holds a directive, a run is always on its way there. A wait finds a directive as soon
as a chunk has come, and finds the input closed when none was left, so it is never in vain.
Inside a window each step that writes nothing brings the end of the window closer, and each
that writes something closes it, which uses up a chunk. So a run gets along with finitely
many steps, if only each of these ends by itself. It may end sooner: the sink may refuse a
line, a directive may be malformed or grant more time than can be represented, and the
system under test may fail.

The system must write no line that looks like a report, or it would call for a chunk itself.

## Main definitions

* `Bench.Timed`: A prepared bench with a directive in every chunk.
* `Bench.Stops`: Work that has come to an error or to the end of representable time.
* `Bench.Nears`: Less is left to do.
* `Bench.Terminates`: A run that ends.

## Theorems

* `Bench.Stocked.wait`: A wait that finds a directive.
* `Bench.Within.settle`: What comes after a step brings the end closer.
* `Bench.Within.cycle`: So does a whole cycle.
* `Bench.drive_stops`: A drive comes to its end.
* `Bench.scripted_runs_end`: A run comes to its end.
-/

namespace Testbench

namespace Bench

variable {ε σ τ α : Type}

/-- Nothing has been done yet, and each of the chunks still to be sent holds a directive,
    well-formed or not. -/
structure Timed (b : Bench (Scripted τ) σ) (s : SimulatedTime) (chunks : List (List Line)) : Prop
    extends Prepared b s chunks where
  directives : ∀ chunk ∈ chunks, ∃ line ∈ chunk, line.isDirective = true

/-- The work stops with an error, or because one of the lines asks for a window whose end
    cannot be represented. -/
inductive Stops (lines : List Line) : Except Halt α × Bench ε σ → Prop
  | error (cause : ExecutionError) (final : Bench ε σ) : Stops lines (.error (.error cause), final)
  | overflow {s : SimulatedTime} {directive : Line} {delay : Duration} {final : Bench ε σ}
      (hpolicy : final.policy = .simulated s) (hmem : directive ∈ lines)
      (hdelay : directive.delay? = some delay) (hend : s.now.add? delay = none) :
      Stops lines (.error (.fault .timeOverflow), final)

/-- Fewer chunks are still to be sent, or it is as many and less of the window is left. -/
def Nears (chunks : List (List Line)) (left : Nat) (next : Bench (Scripted τ) σ) : Prop :=
  ∃ s elapsed left' chunks', Within next s elapsed left' chunks' ∧ chunks' <:+ chunks ∧
    Prod.Lex (· < ·) (· < ·) (chunks'.length, left') (chunks.length, left)

/-- With limits that are great enough the run always ends in the same way: regularly, with
    an error, or with a window whose end cannot be represented. It never blocks, and it takes
    no more steps than the windows opened admit. -/
structure Terminates [Environment ε] (system : System σ) (lines : List Line) (b : Bench ε σ) :
    Prop where
  ends : ∃ enough many, ∀ limit steps, enough ≤ limit → many ≤ steps →
    run system.updateOn limit steps b = run system.updateOn enough many b ∧
      ((run system.updateOn limit steps b).1 = .ok () ∨
        Stops lines (run system.updateOn limit steps b))
  neverBlocks : ∀ limit steps, (run system.updateOn limit steps b).1 ≠ .error .blocked
  bounded : ∀ limit steps, (starts system.updateOn limit steps b).length
    ≤ ((grantedIn (runCourse system limit steps b)).map (· + 1)).sum

namespace Stops

variable {lines more : List Line}

theorem mono {outcome : Except Halt α × Bench ε σ} (h : Stops lines outcome)
    (hmore : lines ⊆ more) : Stops more outcome := by
  cases h with
  | error cause final => exact .error cause final
  | overflow hpolicy hmem hdelay hend => exact .overflow hpolicy (hmore hmem) hdelay hend

theorem eq_error {outcome : Except Halt α × Bench ε σ} (h : Stops lines outcome) :
    ∃ halt final, outcome = (.error halt, final) := by
  cases h with
  | error cause final => exact ⟨_, final, rfl⟩
  | overflow => exact ⟨_, _, rfl⟩

theorem ne_error {outcome : Except Halt α × Bench ε σ} (h : Stops lines outcome) {halt : Halt}
    (hcause : ∀ cause, halt ≠ .error cause) (hfault : ∀ fault, halt ≠ .fault fault) :
    outcome.1 ≠ .error halt := by
  cases h with
  | error cause final => exact fun h => hcause cause (Except.error.inj h).symm
  | overflow => exact fun h => hfault _ (Except.error.inj h).symm

/-- What comes after it is not reached. -/
theorem bind {β : Type} {x : BenchM ε σ α} {f : α → BenchM ε σ β} {b : Bench ε σ}
    (h : Stops lines (x b)) : Stops lines ((x >>= f) b) := by
  rcases hwork : x b with ⟨halt | a, final⟩
  · rw [hwork] at h
    rw [bind_of_error hwork]
    cases h with
    | error cause => exact .error cause final
    | overflow hpolicy hmem hdelay hend => exact .overflow hpolicy hmem hdelay hend
  · rw [hwork] at h
    rcases h.eq_error with ⟨halt, final, h⟩
    exact absurd (Prod.mk.inj h).1 nofun

end Stops

/-! ### Waits -/

variable [Sink τ]

/-- A wait that finds a directive opens a window, or stops because of it. -/
theorem Stocked.wait {b : Bench (Scripted τ) σ} (s : SimulatedTime) {lines : List Line}
    {chunks : List (List Line)} {directive : Line} (hb : Stocked b lines chunks)
    (hfind : lines.find? Line.isDirective = some directive) :
    (∃ next limit millis, waitForDelay s b = (.ok (), next) ∧
      Within next { s with opened := s.now, limit } 0 millis chunks) ∨
    Stops [directive] (waitForDelay s b) := by
  have hfilter := hfind
  rw [← hb.lines, ← List.head?_filter, List.head?_eq_some_iff] at hfilter
  rcases hfilter with ⟨superseded, hfilter⟩
  rcases hdelay : directive.delay? with _ | delay
  · rcases openWindow_of_malformed (b := b) s hfilter hdelay with ⟨next, hwindow, -⟩
    rw [waitForDelay_of_found hwindow nofun]
    exact .inr (.error _ next)
  · rcases hend : s.now.add? delay with _ | limit
    · rcases openWindow_of_directive (b := b) s hfilter hdelay with ⟨next, hwindow, hown, -⟩
      have hgrant : s.grant delay = (.error .timeOverflow, { s with opened := s.now }) := by
        simp only [SimulatedTime.grant, hend]
      rw [hgrant] at hwindow hown
      rw [waitForDelay_of_found hwindow (allowed_ne _)]
      exact .inr (.overflow (congrArg Own.policy hown) List.mem_cons_self hdelay hend)
    -- The window begins where the one before has ended, and its end is in range.
    · rcases Line.delay?_eq_some_iff.mp hdelay with ⟨digits, -, -, -, -, rfl⟩
      have hlimit := Timestamp.add?_eq_some.mp hend
      have hrange : Timestamp.ofNanos? (s.now.nanos
          + ((Nat.ofDigitChars 10 digits 0 : Nat) : Int) * 1000000) = some limit :=
        Timestamp.ofNanos?_eq_some.mpr (by rw [hlimit]; simp only [Duration.ofMillis]; omega)
      rcases waitForDelay_of_chunk s hb ⟨directive, hfind, hdelay⟩
        (Option.isSome_iff_exists.mpr ⟨limit, hrange⟩) with ⟨next, limit, hwait, hnext, -⟩
      exact .inl ⟨next, limit, _, hwait, hnext⟩

omit [Sink τ] in
theorem exists_directive {chunk : List Line} (rest : List (List Line))
    (h : ∃ line ∈ chunk, line.isDirective = true) :
    ∃ directive, [directive] ⊆ (chunk :: rest).flatten ∧
      chunk.find? Line.isDirective = some directive := by
  rcases Option.isSome_iff_exists.mp (List.find?_isSome.mpr h) with ⟨directive, hfind⟩
  have hmem := List.mem_append_left rest.flatten (List.mem_of_find?_eq_some hfind)
  exact ⟨directive, List.cons_subset.mpr ⟨hmem, List.nil_subset _⟩, hfind⟩

/-- What comes after a step brings the end closer: a window is left for that of the next
    chunk, or a millisecond of it has passed. -/
theorem Within.settle {b : Bench (Scripted τ) σ} {s : SimulatedTime} {elapsed left : Nat}
    {chunks : List (List Line)} (hb : Within b s elapsed left chunks)
    (hdirectives : ∀ chunk ∈ chunks, ∃ line ∈ chunk, line.isDirective = true) :
    (∃ next, Bench.settle b = (.ok (), next) ∧ Nears chunks left next) ∨
    Stops chunks.flatten (Bench.settle b) := by
  by_cases hclose : b.hasOutput = true ∨ left = 0
  -- The report is refused, or it calls for the next chunk, if there is one.
  · rw [settle_closing hb hclose]
    rcases htaken : (Sink.writeLine s.report b.environment.sink).1 with cause | _
    · have haccept := accept_eq s.report b.environment
      rw [htaken] at haccept
      have hrefused := closeWindow_of_refused (b := { b with phase := .awaitingNextStep }) haccept
      rw [bind_of_error hrefused]
      exact .inr (.error _ _)
    · cases chunks with
      | nil =>
        rcases settle_end hb hclose htaken with ⟨next, hsettle, -⟩
        rw [settle_closing hb hclose] at hsettle
        rw [hsettle]
        exact .inr (.error _ next)
      | cons chunk rest =>
        rcases closeWindow_of_chunk s (hb.stocked .awaitingNextStep) htaken with
          ⟨c, hwindow, -, hstocked⟩
        rcases exists_directive rest (hdirectives chunk List.mem_cons_self) with
          ⟨directive, hmem, hfind⟩
        rcases hstocked.wait s ((hb.find?_append chunk).trans hfind) with
          ⟨next, limit, millis, hwait, hnext⟩ | hstops
        · refine .inl ⟨_, ?_, _, _, _, rest, hnext.setPhase .running, List.suffix_cons chunk rest,
            .left _ _ (Nat.lt_succ_self rest.length)⟩
          rw [bind_of_ok (hwindow.trans hwait)]
          rfl
        · rw [← hwindow] at hstops
          exact .inr (hstops.mono hmem).bind
  -- Otherwise the window goes on, and has some time left.
  · rw [not_or] at hclose
    rcases Nat.exists_eq_succ_of_ne_zero hclose.2 with ⟨rest, rfl⟩
    rcases settle_within hb (Bool.eq_false_iff.mpr hclose.1) with
      ⟨next, now, hsettle, hnext, -⟩
    exact .inl ⟨next, hsettle, _, _, rest, chunks, hnext, List.suffix_refl _,
      .right _ (Nat.lt_succ_self rest)⟩

/-! ### Drives and runs -/

/-- So a cycle brings the end closer as well, or is the last one, if its step ends. -/
theorem Within.cycle (system : System σ) {b : Bench (Scripted τ) σ} {s : SimulatedTime}
    {elapsed left : Nat} {chunks : List (List Line)} (hb : Within b s elapsed left chunks)
    (hdirectives : ∀ chunk ∈ chunks, ∃ line ∈ chunk, line.isDirective = true)
    (horderly : Orderly system.updateOn b) : ∃ limit,
    (∃ count next, Bench.cycle system.updateOn limit b = (.ok count, next) ∧
      Nears chunks left next) ∨
    ∃ halt final, Bench.cycle system.updateOn limit b = (.error halt, final) ∧
      Stops chunks.flatten ((.error halt, final) : Except Halt Unit × Bench (Scripted τ) σ) := by
  rcases horderly with ⟨⟨limit, hends⟩, hquiet⟩
  refine ⟨limit, ?_⟩
  rcases hstep : Bench.runStep system.updateOn limit b with ⟨halt | count, b₁⟩
  · rw [hstep] at hends
    rcases runStep_error system hstep with rfl | ⟨cause, rfl⟩
    · exact absurd rfl hends
    · exact .inr ⟨_, b₁, cycle_of_stopped hstep, .error cause b₁⟩
  · rcases hb.runStep system ⟨⟨count, congrArg Prod.fst hstep⟩, hquiet limit⟩ with
      ⟨_, _, hsame, hb₁, -⟩
    rw [hstep] at hsame
    rcases Prod.mk.inj hsame with ⟨-, rfl⟩
    rcases hb₁.settle hdirectives with ⟨next, hsettle, hnext⟩ | hstops
    · exact .inl ⟨count, next, cycle_of_settled hstep hsettle, hnext⟩
    · rcases hstops.eq_error with ⟨halt, final, hsettle⟩
      rw [hsettle] at hstops
      exact .inr ⟨halt, final, cycle_of_unsettled hstep hsettle, hstops⟩

/-- A drive comes to its end, by the chunks that are left and the time left in the window. -/
theorem drive_stops (system : System σ) {b : Bench (Scripted τ) σ} {s : SimulatedTime}
    {elapsed left : Nat} {chunks : List (List Line)} (hb : Within b s elapsed left chunks)
    (hdirectives : ∀ chunk ∈ chunks, ∃ line ∈ chunk, line.isDirective = true)
    (horderly : ∀ limit steps, ∀ a ∈ driveStarts system.updateOn limit steps b,
      Orderly system.updateOn a) :
    ∃ limit steps halt final, drive system.updateOn limit steps b = (halt, final) ∧
      Stops chunks.flatten ((.error halt, final) : Except Halt Unit × Bench (Scripted τ) σ) := by
  rcases hb.cycle system hdirectives (horderly 0 1 b List.mem_cons_self) with
    ⟨limit, ⟨count, next, hcycle, s', elapsed', left', chunks', hnext, hsuffix, hlower⟩ |
      ⟨halt, final, hcycle, hstops⟩⟩
  -- The rest of the drive has a limit of its own, and this cycle ends so under both.
  · have hcycle' : ∀ limit',
        Bench.cycle system.updateOn (max limit limit') b = (.ok count, next) := by
      intro limit'
      refine (cycle_mono (Nat.le_max_left limit limit') ?_).trans hcycle
      rw [hcycle]
      exact nofun
    have hlater : ∀ limit' steps', ∀ a ∈ driveStarts system.updateOn limit' steps' next,
        Orderly system.updateOn a := by
      intro limit' steps' a ha
      refine horderly (max limit limit') (steps' + 1) a ?_
      rw [(drive_of_ok steps' (hcycle' limit')).2]
      exact List.mem_cons_of_mem b (mem_driveStarts_mono (Nat.le_max_right _ _) ha)
    rcases drive_stops system hnext
      (fun chunk hchunk => hdirectives chunk (hsuffix.mem hchunk)) hlater with
      ⟨limit', steps', halt, final, hdrive, hstops⟩
    refine ⟨max limit limit', steps' + 1, halt, final, ?_,
      hstops.mono hsuffix.sublist.flatten.subset⟩
    rw [(drive_of_ok steps' (hcycle' limit')).1]
    refine (drive_mono (Nat.le_max_right _ _) (Nat.le_refl _) ?_).trans hdrive
    rw [hdrive]
    rintro rfl
    cases hstops
  · exact ⟨limit, 1, halt, final, (drive_of_error 0 hcycle).1, hstops⟩
termination_by (chunks.length, left)
decreasing_by exact hlower

/-- A run ends as its last piece of work does. -/
theorem Stops.run {ε : Type} [Environment ε] {update : BenchM ε σ Progress} {limit steps : Nat}
    {b final : Bench ε σ} {halt : Halt} {lines : List Line}
    (h : Stops lines ((.error halt, final) : Except Halt Unit × Bench ε σ))
    (hlast : start b = (.error halt, final) ∨
      ∃ next, start b = (.ok (), next) ∧ drive update limit steps next = (halt, final)) :
    (Bench.run update limit steps b).1 = .ok () ∨ Stops lines (Bench.run update limit steps b) := by
  rcases hlast with hstart | ⟨next, hstart, hdrive⟩
  · simp only [Bench.run, hstart]
    split
    · exact .inl rfl
    · exact .inr h
  · simp only [Bench.run, hstart, hdrive]
    split
    · exact .inl rfl
    · exact .inr h

/-- A run comes to its end. -/
theorem Timed.run_stops (system : System σ) {b : Bench (Scripted τ) σ} {s : SimulatedTime}
    {chunks : List (List Line)} (hb : Timed b s chunks)
    (horderly : ∀ limit steps, ∀ a ∈ starts system.updateOn limit steps b.fed,
      Orderly system.updateOn a) :
    ∃ limit steps, (Bench.run system.updateOn limit steps b.fed).1 = .ok () ∨
      Stops chunks.flatten (Bench.run system.updateOn limit steps b.fed) := by
  cases chunks with
  | nil =>
    rcases start_of_end hb.toPrepared with ⟨next, hstart, -⟩
    exact ⟨0, 0, .inl (run_of_stopped 0 hstart).1⟩
  | cons chunk rest =>
    rcases fed_eq b with ⟨hown, hinbox, henvironment⟩
    have hstocked := hb.toPrepared.stocked.sent b.environment.sink hinbox henvironment
    have hpolicy : b.fed.policy = .simulated s := (congrArg Own.policy hown).trans hb.policy
    rcases exists_directive rest (hb.directives chunk List.mem_cons_self) with
      ⟨directive, hmem, hfind⟩
    rcases hstocked.wait s hfind with ⟨next, limit, millis, hwait, hnext⟩ | hstops
    · have hstart : start b.fed = (.ok (), { next with phase := .running }) := by
        rw [start_simulated hpolicy, bind_of_ok hwait]
        rfl
      have hlater : ∀ limit steps, ∀ a ∈ driveStarts system.updateOn limit steps
          { next with phase := .running }, Orderly system.updateOn a := by
        intro limit steps a ha
        refine horderly limit steps a ?_
        rw [(run_of_started steps hstart).2.2]
        exact ha
      rcases drive_stops system (hnext.setPhase .running)
        (fun chunk' hchunk => hb.directives chunk' (List.mem_cons_of_mem chunk hchunk))
        hlater with ⟨limit, steps, halt, final, hdrive, hstops⟩
      exact ⟨limit, steps, (hstops.mono fun line hline => List.mem_append_right chunk hline).run
        (.inr ⟨_, hstart, hdrive⟩)⟩
    · have hstart : Stops (chunk :: rest).flatten (start b.fed) := by
        rw [start_simulated hpolicy]
        exact (hstops.mono hmem).bind
      rcases hstart.eq_error with ⟨halt, final, hresult⟩
      rw [hresult] at hstart
      exact ⟨0, 0, hstart.run (.inl hresult)⟩

theorem Timed.terminates (system : System σ) {b : Bench (Scripted τ) σ} {s : SimulatedTime}
    {chunks : List (List Line)} (hb : Timed b s chunks)
    (horderly : ∀ limit steps, ∀ a ∈ starts system.updateOn limit steps b.fed,
      Orderly system.updateOn a) : Terminates system chunks.flatten b.fed := by
  rcases hb.run_stops system horderly with ⟨enough, many, hends⟩
  have hpolicy : b.fed.policy = .simulated s :=
    (congrArg Own.policy (fed_eq b).1).trans hb.policy
  have hcause : ∀ halt : Halt, (∀ cause, halt ≠ .error cause) → (∀ fault, halt ≠ .fault fault) →
      (run system.updateOn enough many b.fed).1 ≠ .error halt := by
    intro halt herror hfault
    rcases hends with hok | hstops
    · rw [hok]
      exact nofun
    · exact hstops.ne_error herror hfault
  have hspent := hcause .exhausted nofun nofun
  refine ⟨⟨enough, many, fun limit steps hlimit hsteps => ?_⟩, fun limit steps hblocked => ?_,
    fun limit steps => length_starts_le system limit steps hpolicy⟩
  · have hsame := run_mono hlimit hsteps hspent
    refine ⟨hsame, ?_⟩
    rw [hsame]
    exact hends
  -- A run that blocked would do so with greater limits as well, and with these it ends.
  · have hlater := run_mono (Nat.le_max_left limit enough) (Nat.le_max_left steps many)
      (by rw [hblocked]; exact nofun)
    rw [run_mono (Nat.le_max_right limit enough) (Nat.le_max_right steps many) hspent] at hlater
    rw [← hlater] at hblocked
    exact hcause .blocked nofun nofun hblocked

/-- In simulated time, a run with a script whose chunks all hold a directive ends, whatever
    the sink does: it never blocks, and takes no more steps than the windows opened admit.
    Of the system under test it is asked that the steps it takes end and write no report,
    and the car alarm and the fish retailer need not be asked. -/
theorem scripted_runs_end :
    (∀ {σ : Type} (system : System σ) {b : Bench (Scripted τ) σ} {s : SimulatedTime}
      {chunks : List (List Line)}, Timed b s chunks →
      (∀ limit steps, ∀ a ∈ starts system.updateOn limit steps b.fed,
        Orderly system.updateOn a) → Terminates system chunks.flatten b.fed) ∧
    (∀ {b : Bench (Scripted τ) CarAlarm} {s : SimulatedTime} {chunks : List (List Line)},
      Timed b s chunks → Terminates CarAlarm.system chunks.flatten b.fed) ∧
    (∀ {b : Bench (Scripted τ) FishRetailer} {s : SimulatedTime} {chunks : List (List Line)},
      Timed b s chunks → Terminates FishRetailer.system chunks.flatten b.fed) := by
  refine ⟨?_, fun hb => ?_, fun hb => ?_⟩
  · intro σ system b s chunks hb horderly
    exact hb.terminates system horderly
  · exact hb.terminates CarAlarm.system fun _ _ a _ => CarAlarm.isRanked.orderly a
  · exact hb.terminates FishRetailer.system fun _ _ a _ => FishRetailer.isRanked.orderly a

/-- A bench that sells a tuna, and whose sink takes three lines. -/
def selling : Bench (Scripted (Limited Recorder)) FishRetailer where
  inbox := .empty
  hasOutput := false
  policy := .simulated (.startingAt .epoch)
  phase := .running
  virtualTime := .epoch
  wall := .epoch
  wake := .asleep
  environment := ⟨⟨.empty, some 3, .brokenPipe⟩,
    some [[⟨"coin"⟩, ⟨"Delay: 2"⟩], [⟨"Delay: 3"⟩], [⟨"Delay: soon"⟩]], reportMark, [], []⟩
  system := FishRetailer.system.initial ⟨.epoch⟩
  written := []
  journal := .empty none

/-- The garnish comes with the tuna, and the report of the second window is refused. -/
theorem scripted_runs_end_selling :
    Timed selling (.startingAt .epoch)
        [[⟨"coin"⟩, ⟨"Delay: 2"⟩], [⟨"Delay: 3"⟩], [⟨"Delay: soon"⟩]] ∧
      Terminates FishRetailer.system
        [⟨"coin"⟩, ⟨"Delay: 2"⟩, ⟨"Delay: 3"⟩, ⟨"Delay: soon"⟩] selling.fed ∧
      (starts FishRetailer.system.updateOn 9 9 selling.fed).length
        ≤ ((grantedIn (runCourse FishRetailer.system 9 9 selling.fed)).map (· + 1)).sum ∧
      (starts FishRetailer.system.updateOn 9 9 selling.fed).length = 7 ∧
      grantedIn (runCourse FishRetailer.system 9 9 selling.fed) = [2, 3] ∧
      (run FishRetailer.system.updateOn 9 9 selling.fed).1
        = .error (.error (.output .brokenPipe)) := by
  have htimed : Timed selling (.startingAt .epoch)
      [[⟨"coin"⟩, ⟨"Delay: 2"⟩], [⟨"Delay: 3"⟩], [⟨"Delay: soon"⟩]] :=
    { policy := rfl, empty := rfl, fresh := rfl, script := rfl, trigger := rfl,
      directives := by decide }
  have hruns := scripted_runs_end (τ := Limited Recorder)
  exact ⟨htimed,
    hruns.1 FishRetailer.system htimed fun _ _ a _ => FishRetailer.isRanked.orderly a,
    (hruns.2.2 htimed).bounded 9 9, by decide +kernel⟩

end Bench

end Testbench
