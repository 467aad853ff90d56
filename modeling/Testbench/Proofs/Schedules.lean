import Testbench.Proofs.Pacing

/-!
# Schedules Cannot Be Seen

A system under test cannot tell how far the producer of its lines has got. In
simulated time no step is taken while a chunk is on its way: the bench waits for the
directive, which is the last line of the chunk, and when it has come, so have all the
others. The next chunk is not begun before the report of the window, and whether the
input has been closed makes no difference as long as there are lines to be read.

So a run with a producer on any schedule is compared with the run in which each chunk
is in the inbox before the bench waits for it. While steps are taken, both benches
have the same lines and the same of their own, and the system does the same on both.
At a report they part, as one inbox has the next chunk and the other is about to get
it; the wait brings them together again.

## Main definitions

* `IsBatch`: A chunk that ends with its only directive.
* `Bench.InStep`: Two benches between two waits.
* `Bench.Parallel`: The outcomes of the same work on both.
* `Bench.paced`: A bench with its environment on a schedule.

## Theorems

* `Bench.lockstep_inStep`: Calls of the system keep two benches in step.
* `Bench.parallel_settle`: So does what comes between two steps.
* `Bench.run_paced`: No schedule changes the lines, the times of the steps or the result.
-/

namespace Testbench

/-- The chunk is made of lines without a directive and a well-formed directive behind them. -/
def IsBatch (chunk : List Line) : Prop :=
  ∃ lines directive delay, chunk = lines ++ [directive] ∧
    (∀ line ∈ lines, line.isDirective = false) ∧ directive.delay? = some delay

theorem Paced.accept_reliable {τ : Type} [Sink τ] (hsink : Sink.IsReliable τ) (text : String)
    (e : Paced τ) : ∃ sink, Environment.accept text e = (.ok (), { e with sink }) := by
  rcases hsink.writeLine text e.sink with ⟨sink, hwrite⟩
  refine ⟨sink, ?_⟩
  change ((Sink.writeLine text e.sink).1,
    { e with sink := (Sink.writeLine text e.sink).2 }) = _
  rw [hwrite]

theorem Paced.acts_of_not_report {τ : Type} [Sink τ] {text : String} (e : Paced τ)
    (htext : isReport text = false) :
    Environment.acts (.wrote text) e = e.proceed (e.pace e.turns) := by
  change (if isReport text then e.release.proceed (e.pace e.turns)
    else e.proceed (e.pace e.turns)) = _
  exact if_neg (ne_true_of_eq_false htext)

theorem Paced.acts_of_report {τ : Type} [Sink τ] {text : String} (e : Paced τ)
    (htext : isReport text = true) :
    Environment.acts (.wrote text) e = e.release.proceed (e.pace e.turns) := by
  change (if isReport text then e.release.proceed (e.pace e.turns)
    else e.proceed (e.pace e.turns)) = _
  exact if_pos htext

namespace Bench

variable {σ τ : Type}

/-- Between two waits nothing is missing on the left, and the same lines are there. -/
structure InStep (chunks : List (List Line)) (a : Bench (Paced τ) σ) (c : Bench (Scripted τ) σ) :
    Prop where
  own : a.own = c.own
  simulated : ∃ s, c.policy = .simulated s
  expects : Expects a c.inbox.lines [] chunks
  script : c.environment.script = some chunks
  trigger : c.environment.trigger = reportMark
  unheard : c.inbox.listeners.entries = []
  isOpen : c.inbox.closed = false
  plain : ∀ line ∈ c.inbox.lines, line.isDirective = false

namespace InStep

variable {chunks : List (List Line)} {a : Bench (Paced τ) σ} {c : Bench (Scripted τ) σ}

theorem lines (h : InStep chunks a c) : a.inbox.lines = c.inbox.lines := by
  have hwhole := h.expects.whole
  rw [List.append_nil] at hwhole
  exact hwhole

theorem now (h : InStep chunks a c) : a.now = c.now := by
  rcases h.simulated with ⟨s, hs⟩
  have hpolicy : a.policy = .simulated s := (congrArg Own.policy h.own).trans hs
  simp only [Bench.now, hpolicy, hs]

variable [Sink τ]

theorem access (h : InStep chunks a c) : InStep chunks (a.turn .access) c := by
  rcases expects_access h.expects with ⟨missing, hsuffix, hexpects⟩
  rw [List.suffix_nil.mp hsuffix] at hexpects
  exact ⟨(own_turn .access a).trans h.own, h.simulated, hexpects, h.script, h.trigger, h.unheard,
    h.isOpen, h.plain⟩

/-- A line that is read is read on both sides. -/
theorem read (h : InStep chunks a c) :
    (a.answer .read).1 = (c.answer .read).1 ∧
      InStep chunks (a.answer .read).2 (c.answer .read).2 := by
  change (Bench.read a).1 = (Bench.read c).1 ∧ InStep chunks (Bench.read a).2 (Bench.read c).2
  have hturn := h.access
  cases hlines : c.inbox.lines with
  | nil =>
    have hc : (c.turn .access).inbox.read? = none := by
      change c.inbox.read? = none
      unfold Inbox.read?
      rw [hlines]
    have ha : (a.turn .access).inbox.read? = none := by
      rw [Inbox.read?, hturn.lines, hlines]
    simp only [Bench.read, ha, hc]
    exact ⟨trivial, hturn⟩
  | cons line rest =>
    have hc : (c.turn .access).inbox.read? = some (line, { c.inbox with lines := rest }) := by
      change c.inbox.read? = _
      unfold Inbox.read?
      rw [hlines]
    have ha : (a.turn .access).inbox.read?
        = some (line, { (a.turn .access).inbox with lines := rest }) := by
      rw [Inbox.read?, hturn.lines, hlines]
    simp only [Bench.read, ha, hc]
    refine ⟨trivial, hturn.own, h.simulated, ?_, h.script, h.trigger, h.unheard, h.isOpen, ?_⟩
    · exact ⟨List.append_nil rest, hturn.expects.supply, fun _ => rfl, hturn.expects.unheard⟩
    · intro other hother
      refine h.plain other ?_
      rw [hlines]
      exact List.mem_cons_of_mem line hother

/-- So is a line that is written, as long as it is no report. -/
theorem write (hsink : Sink.IsReliable τ) (h : InStep chunks a c) {text : String}
    (hquiet : isReport text = false) :
    (a.answer (.write text)).1 = (c.answer (.write text)).1 ∧
      InStep chunks (a.answer (.write text)).2 (c.answer (.write text)).2 := by
  rcases Paced.accept_reliable hsink text a.environment with ⟨sink, haccept⟩
  rcases Testbench.Bench.accept_reliable hsink text c.environment with ⟨sink', haccept'⟩
  rcases deliver_of_taken (b := a.note (.outputEmitted text)) haccept with
    ⟨next, hdeliver, hown, hinbox, henvironment⟩
  rcases deliver_of_taken (b := c.note (.outputEmitted text)) haccept' with
    ⟨next', hdeliver', hown', hinbox', henvironment'⟩
  rw [Paced.acts_of_not_report _ hquiet] at hinbox henvironment
  rw [Bench.acts_of_not_report (by exact h.trigger) hquiet] at hinbox' henvironment'
  change (Bench.write text a).1 = (Bench.write text c).1 ∧
    InStep chunks (Bench.write text a).2 (Bench.write text c).2
  rw [Bench.write, Bench.write, hdeliver, hdeliver']
  -- On the left the producer may have gone on, but nothing that it owes can be seen.
  have hinbox' : next'.inbox = c.inbox := hinbox'
  have hown : next.own = a.own.writing [text] := hown
  have hown' : next'.own = c.own.writing [text] := hown'
  rcases h.expects.proceed (a.environment.pace a.environment.turns) with
    ⟨missing, hsuffix, hexpects⟩
  rw [List.suffix_nil.mp hsuffix] at hexpects
  rcases h.simulated with ⟨s, hs⟩
  refine ⟨rfl, ?_, ⟨s, ?_⟩, ?_, ?_, ?_, ?_, ?_, ?_⟩
  · rw [hown, hown', h.own]
  · exact (congrArg Own.policy hown').trans hs
  · rw [Expects.eq_def, hinbox, henvironment, hinbox']
    exact hexpects
  · rw [henvironment']
    exact h.script
  · rw [henvironment']
    exact h.trigger
  · rw [hinbox']
    exact h.unheard
  · rw [hinbox']
    exact h.isOpen
  · rw [hinbox']
    exact h.plain

end InStep

variable [Sink τ]

/-- Calls of the system keep two benches in step. -/
theorem lockstep_inStep (hsink : Sink.IsReliable τ) (chunks : List (List Line)) :
    Lockstep (σ := σ) (InStep (τ := τ) chunks) (fun text => isReport text = false) := by
  -- Every call but a report; then what a step changes on its own, on both sides at once.
  refine ⟨fun h => h.own, ?_, ?_, ?_, ?_⟩
  · intro a c call new h hwritten hnew
    cases call with
    | inputReady =>
      have hturn := h.access
      refine ⟨?_, hturn⟩
      change (a.turn .access).inbox.isReady = c.inbox.isReady
      rw [Inbox.isReady, hturn.lines]
      rfl
    | read => exact h.read
    | write text =>
      refine h.write hsink (hnew text ?_)
      rcases accept_reliable hsink text c.environment with ⟨sink, haccept⟩
      rcases deliver_of_taken (b := c.note (.outputEmitted text)) haccept with
        ⟨next, hdeliver, hown, -⟩
      rw [answer, Bench.write, hdeliver] at hwritten
      have htext : [text] = new :=
        List.append_cancel_right ((congrArg Own.written hown).symm.trans hwritten)
      rw [← htext]
      exact List.mem_cons_self
    | resetTime =>
      have hturn := h.access
      refine ⟨?_, hturn⟩
      change (⟨(a.turn .access).now⟩ : Anchor) = ⟨c.now⟩
      rw [hturn.now]
    | value clock =>
      have hturn := h.access
      refine ⟨?_, hturn⟩
      rcases hturn.simulated with ⟨s, hs⟩
      have hpolicy : (a.turn .access).policy = .simulated s :=
        (congrArg Own.policy hturn.own).trans hs
      have hpolicy' : (c.turn .access).policy = .simulated s := hs
      simp only [answer, Bench.value, hpolicy, hpolicy']
    | note system fields =>
      exact ⟨rfl, h.own, h.simulated, h.expects, h.script, h.trigger, h.unheard, h.isOpen, h.plain⟩
  · intro a c system h
    exact ⟨congrArg (fun own => { own with system }) h.own, h.simulated, h.expects, h.script,
      h.trigger, h.unheard, h.isOpen, h.plain⟩
  · intro a c phase h
    exact ⟨congrArg (fun own => { own with phase }) h.own, h.simulated, h.expects, h.script,
      h.trigger, h.unheard, h.isOpen, h.plain⟩
  · intro a c event h
    exact ⟨h.own, h.simulated, h.expects, h.script, h.trigger, h.unheard, h.isOpen, h.plain⟩

/-! ### What comes between two steps -/

/-- The same work on two benches: they are in step again, or both stop for the same
    reason and with the same lines written. -/
inductive Parallel {α : Type} : Except Halt α × Bench (Paced τ) σ →
    Except Halt α × Bench (Scripted τ) σ → Prop
  | ok {result : α} {chunks : List (List Line)} {a : Bench (Paced τ) σ} {c : Bench (Scripted τ) σ}
      (h : InStep chunks a c) (hbatches : ∀ chunk ∈ chunks, IsBatch chunk) :
      Parallel (.ok result, a) (.ok result, c)
  | error {halt : Halt} {a : Bench (Paced τ) σ} {c : Bench (Scripted τ) σ}
      (h : a.written = c.written) : Parallel (.error halt, a) (.error halt, c)

/-- Both benches wait for the same chunk, which one of them has already. -/
theorem parallel_wait_chunk (s : SimulatedTime) {chunks : List (List Line)}
    {a : Bench (Paced τ) σ} {c : Bench (Scripted τ) σ} {chunk old missing : List Line}
    (hown : a.own = c.own) (hexpects : Expects a (old ++ chunk) missing chunks)
    (hc : Stocked c (old ++ chunk) chunks) (hold : ∀ line ∈ old, line.isDirective = false)
    (hbatch : IsBatch chunk) (hbatches : ∀ chunk ∈ chunks, IsBatch chunk) :
    Parallel (waitForDelay s a) (waitForDelay s c) := by
  rcases hbatch with ⟨lines, directive, delay, rfl, hplain, hdelay⟩
  rw [← List.append_assoc] at hexpects hc
  have hall : ∀ line ∈ old ++ lines, line.isDirective = false := by
    intro line hline
    rcases List.mem_append.mp hline with hleft | hright
    · exact hold line hleft
    · exact hplain line hright
  rcases waitForDelay_of_arriving s hexpects hall hdelay with ⟨a', hwait, howna, hexpects'⟩
  -- The other bench has the directive in its inbox and finds it in its first search.
  have hdirective := Line.isDirective_of_delay? hdelay
  have hwanted : (c.turn .access).inbox.lines.filter Line.isDirective = [directive] := by
    change c.inbox.lines.filter Line.isDirective = _
    rw [hc.lines]
    exact filter_directive hall hdirective
  rcases openWindow_of_directive (b := c) s hwanted hdelay with
    ⟨c', hwindow, hownc, henvironment, hinbox⟩
  have hinbox' : c'.inbox = { c.inbox with lines := old ++ lines } := by
    rw [← filter_others hall hdirective, ← hc.lines]
    exact hinbox
  have henvironment' : c'.environment = c.environment := henvironment
  rw [hwait, waitForDelay_of_found hwindow (allowed_ne _)]
  have hown' : a'.own = c'.own := by rw [howna, hownc, hown]
  -- Whether the window can be granted is the same question on both sides.
  cases (s.grant delay).1 with
  | error fault => exact .error (congrArg Own.written hown')
  | ok _ =>
    refine .ok ⟨hown', ⟨_, congrArg Own.policy hownc⟩, ?_, ?_, ?_, ?_, ?_, ?_⟩ hbatches
    · rw [hinbox']
      exact hexpects'
    · rw [henvironment']
      exact hc.script
    · rw [henvironment']
      exact hc.trigger
    · rw [hinbox']
      exact hc.unheard
    · rw [hinbox']
      exact hc.isOpen
    · rw [hinbox']
      exact hall

/-- Both benches wait, and there will be no chunk. -/
theorem parallel_wait_end (s : SimulatedTime) {a : Bench (Paced τ) σ} {c : Bench (Scripted τ) σ}
    (hown : a.own = c.own) (hexpects : Expects a c.inbox.lines [] [])
    (hclosed : c.inbox.closed = true) (hplain : ∀ line ∈ c.inbox.lines, line.isDirective = false) :
    Parallel (waitForDelay s a) (waitForDelay s c) := by
  rcases waitForDelay_of_ending s hexpects hplain with ⟨a', hwait, howna⟩
  rw [hwait, waitForDelay_at_end s hplain hclosed]
  refine .error ?_
  have hwritten : a'.own.written = c.own.written := by rw [howna, hown]
  exact hwritten

omit [Sink τ] in
/-- The same with the phase set at the end of the work. -/
theorem Parallel.andThen {f : BenchM (Paced τ) σ Unit} {g : BenchM (Scripted τ) σ Unit}
    {a : Bench (Paced τ) σ} {c : Bench (Scripted τ) σ} (phase : Phase)
    (h : Parallel (f a) (g c)) :
    Parallel ((f >>= fun _ => setPhase phase) a) ((g >>= fun _ => setPhase phase) c) := by
  -- As the outcomes are no variables, they have to be named before the cases are told.
  generalize hf : f a = x at h
  generalize hg : g c = y at h
  cases h with
  | ok h hbatches =>
    rw [bind_of_ok hf, bind_of_ok hg]
    exact .ok ⟨congrArg (fun own => { own with phase }) h.own, h.simulated, h.expects, h.script,
      h.trigger, h.unheard, h.isOpen, h.plain⟩ hbatches
  | error h =>
    rw [bind_of_error hf, bind_of_error hg]
    exact .error h

/-- A window closes on both benches. -/
theorem parallel_close (hsink : Sink.IsReliable τ) (s : SimulatedTime) {chunks : List (List Line)}
    {a : Bench (Paced τ) σ} {c : Bench (Scripted τ) σ} (h : InStep chunks a c)
    (hbatches : ∀ chunk ∈ chunks, IsBatch chunk) :
    Parallel (closeWindow s a) (closeWindow s c) := by
  have hreport : isReport s.report = true := isReport_reportOf s.delayed.millis
  rcases Paced.accept_reliable hsink s.report a.environment with ⟨sink, haccept⟩
  rcases deliver_of_taken haccept with ⟨a', hdeliver, hown, hinbox, henvironment⟩
  rw [Paced.acts_of_report _ hreport] at hinbox henvironment
  have hclosing : ({ a' with hasOutput := false }.note (.windowClosed s.delayed)).own
      = { c.own.writing [s.report] with hasOutput := false } := by
    rw [← h.own]
    exact congrArg (fun own => { own with hasOutput := false }) hown
  let e : Paced τ := { a.environment with sink }
  have hexpects : Arriving a.inbox e.ahead e.later c.inbox.lines [] chunks := h.expects
  have hstocked : Stocked c c.inbox.lines chunks :=
    ⟨rfl, h.unheard, h.isOpen, h.script, h.trigger⟩
  rw [closeWindow_of_ok hdeliver]
  -- The report lets both producers go on, if there is anything to go on with.
  cases chunks with
  | nil =>
    rcases closeWindow_of_end s hstocked (hsink _ _) with ⟨c', hclose, hown', hlines, hclosed⟩
    rcases hexpects.proceed (e.pace e.turns) with ⟨missing, hsuffix, hnext⟩
    rw [List.suffix_nil.mp hsuffix] at hnext
    rw [hexpects.release_end] at hinbox henvironment
    rw [hclose]
    refine parallel_wait_end s (hclosing.trans hown'.symm) ?_ hclosed ?_
    · change Arriving a'.inbox a'.environment.ahead a'.environment.later c'.inbox.lines [] []
      rw [hinbox, henvironment, hlines]
      exact hnext
    · rw [hlines]
      exact h.plain
  | cons chunk rest =>
    rcases closeWindow_of_chunk s hstocked (hsink _ _) with ⟨c', hclose, hown', hstocked'⟩
    rcases hexpects.release.proceed (e.pace e.turns) with ⟨missing, -, hnext⟩
    have hmissing : Expects ({ a' with hasOutput := false }.note (.windowClosed s.delayed))
        (c.inbox.lines ++ chunk) missing rest := by
      change Arriving a'.inbox a'.environment.ahead a'.environment.later _ missing rest
      rw [hinbox, henvironment]
      exact hnext
    rw [hclose]
    exact parallel_wait_chunk s (hclosing.trans hown'.symm) hmissing hstocked' h.plain
      (hbatches chunk List.mem_cons_self)
      fun other hother => hbatches other (List.mem_cons_of_mem chunk hother)

/-- What comes between two steps keeps two benches in step, or stops both of them. -/
theorem parallel_settle (hsink : Sink.IsReliable τ) {chunks : List (List Line)}
    {a : Bench (Paced τ) σ} {c : Bench (Scripted τ) σ} (h : InStep chunks a c)
    (hbatches : ∀ chunk ∈ chunks, IsBatch chunk) : Parallel (settle a) (settle c) := by
  rcases h.simulated with ⟨s, hs⟩
  have hpolicy : a.policy = .simulated s := (congrArg Own.policy h.own).trans hs
  have hcondition : (a.hasOutput || s.isExhausted) = (c.hasOutput || s.isExhausted) :=
    congrArg (fun own => own.hasOutput || s.isExhausted) h.own
  rw [settle_simulated hpolicy, settle_simulated hs, hcondition]
  have hphase := (lockstep_inStep hsink chunks).phase .awaitingNextStep h
  refine Parallel.andThen .running ?_
  -- Both benches have the same mark and the same clock, so they decide alike.
  by_cases hclose : (c.hasOutput || s.isExhausted) = true
  · rw [if_pos hclose, if_pos hclose]
    exact parallel_close hsink s hphase hbatches
  · rw [if_neg hclose, if_neg hclose]
    cases htick : s.tick? with
    | none =>
      simp only [advance, htick]
      exact .error (congrArg Own.written h.own)
    | some next =>
      rw [advance_of_ok htick, advance_of_ok htick]
      refine .ok ⟨?_, ⟨next, rfl⟩, h.expects, h.script, h.trigger, h.unheard, h.isOpen, h.plain⟩
        hbatches
      exact congrArg (fun own => { own with policy := .simulated next, virtualTime := next.now })
        hphase.own

/-! ### Runs -/

theorem drive_inStep (hsink : Sink.IsReliable τ) (system : System σ) (limit steps : Nat)
    {chunks : List (List Line)} {a : Bench (Paced τ) σ} {c : Bench (Scripted τ) σ}
    (h : InStep chunks a c) (hbatches : ∀ chunk ∈ chunks, IsBatch chunk)
    (hquiet : ∀ b ∈ driveStarts system.updateOn limit steps c,
      ∀ text ∈ stepOutput system.updateOn limit b, isReport text = false) :
    (drive system.updateOn limit steps a).1 = (drive system.updateOn limit steps c).1 ∧
      (drive system.updateOn limit steps a).2.written
        = (drive system.updateOn limit steps c).2.written ∧
      (driveStarts system.updateOn limit steps a).map now
        = (driveStarts system.updateOn limit steps c).map now := by
  -- By induction on the steps allowed: a step in lockstep, what settles the next one in
  -- parallel, and the rest from there.
  induction steps generalizing chunks a c with
  | zero => exact ⟨rfl, congrArg Own.written h.own, rfl⟩
  | succ steps ih =>
    rcases own_runStep system limit c with ⟨new, _, _, hown⟩
    have hwritten : (runStep system.updateOn limit c).2.written = new ++ c.written :=
      congrArg Own.written hown
    have hsilent : ∀ text ∈ new, isReport text = false := by
      intro text htext
      refine hquiet c List.mem_cons_self text ?_
      rw [stepOutput_eq hwritten]
      exact List.mem_reverse.mpr htext
    rcases (lockstep_inStep hsink chunks).runStep system limit h hwritten hsilent with
      ⟨hsame, hnext⟩
    rcases hruna : runStep system.updateOn limit a with ⟨result, a'⟩
    rcases hrunc : runStep system.updateOn limit c with ⟨halt | count, c'⟩
    · rw [hruna, hrunc] at hsame hnext
      simp only at hsame
      subst hsame
      rcases drive_of_error steps (cycle_of_stopped hruna) with ⟨hdrive, hstarts⟩
      rcases drive_of_error steps (cycle_of_stopped hrunc) with ⟨hdrive', hstarts'⟩
      rw [hdrive, hdrive', hstarts, hstarts', List.map_singleton, List.map_singleton, h.now]
      exact ⟨rfl, congrArg Own.written hnext.own, rfl⟩
    · rw [hruna, hrunc] at hsame hnext
      simp only at hsame
      subst hsame
      have hsettle := parallel_settle hsink hnext hbatches
      -- The two outcomes are named first, so that the cases of `Parallel` can replace them.
      generalize hsettlea : settle a' = x at hsettle
      generalize hsettlec : settle c' = y at hsettle
      cases hsettle with
      | @error halt a'' c'' hwritten' =>
        rcases drive_of_error steps (cycle_of_unsettled hruna hsettlea) with ⟨hdrive, hstarts⟩
        rcases drive_of_error steps (cycle_of_unsettled hrunc hsettlec) with ⟨hdrive', hstarts'⟩
        rw [hdrive, hdrive', hstarts, hstarts', List.map_singleton, List.map_singleton, h.now]
        exact ⟨rfl, hwritten', rfl⟩
      | @ok _ chunks' a'' c'' h' hbatches' =>
        rcases drive_of_ok steps (cycle_of_settled hruna hsettlea) with ⟨hdrive, hstarts⟩
        rcases drive_of_ok steps (cycle_of_settled hrunc hsettlec) with ⟨hdrive', hstarts'⟩
        rw [hstarts'] at hquiet
        rcases ih h' hbatches' fun b hb => hquiet b (List.mem_cons_of_mem c hb) with
          ⟨hhalt, htext, htimes⟩
        rw [hdrive, hdrive', hstarts, hstarts', List.map_cons, List.map_cons, htimes, h.now]
        exact ⟨hhalt, htext, rfl⟩

/-- The same bench with a producer of the same script that keeps to a schedule. -/
def paced (pace : Nat → Nat) (b : Bench (Scripted τ) σ) : Bench (Paced τ) σ :=
  { b with
    environment := Paced.producing b.environment.sink pace (b.environment.script.getD []) }

theorem parallel_start (pace : Nat → Nat) {b : Bench (Scripted τ) σ} {s : SimulatedTime}
    {chunks : List (List Line)} (hb : Prepared b s chunks)
    (hbatches : ∀ chunk ∈ chunks, IsBatch chunk) :
    Parallel (start (b.paced pace)) (start b.fed) := by
  have hscript : b.environment.script.getD [] = chunks := by
    rw [hb.script]
    rfl
  rcases fed_eq b with ⟨hown, hinbox, henvironment⟩
  have hpolicy : b.fed.policy = .simulated s := (congrArg Own.policy hown).trans hb.policy
  have hpolicy' : (b.paced pace).policy = .simulated s := hb.policy
  rw [start_simulated hpolicy, start_simulated hpolicy']
  refine Parallel.andThen .running ?_
  cases chunks with
  | nil =>
    rcases hb.stocked.ended b.environment.sink hinbox with ⟨hlines, hclosed⟩
    refine parallel_wait_end s hown.symm ?_ hclosed ?_
    · rw [hlines, Expects.eq_def, paced, hscript]
      simp only [hb.empty]
      exact ⟨rfl, ⟨[.close], rfl, .closing⟩, fun _ => rfl, rfl⟩
    · rw [hlines]
      exact fun line hline => absurd hline List.not_mem_nil
  | cons chunk rest =>
    have hstocked := hb.stocked.sent b.environment.sink hinbox henvironment
    -- The producer begins as if a report had just been written.
    have hnothing : Arriving b.inbox [] (segments (chunk :: rest)) [] [] (chunk :: rest) := by
      rw [hb.empty]
      exact ⟨rfl, ⟨[], rfl, .more chunk rest⟩, fun _ => rfl, rfl⟩
    have hmissing : Expects (b.paced pace) ([] ++ chunk) chunk rest := by
      rw [Expects.eq_def, paced, hscript]
      exact Arriving.release (e := ⟨b.environment.sink, [], segments (chunk :: rest), pace, 0⟩)
        hnothing
    exact parallel_wait_chunk s hown.symm hmissing hstocked
      (fun line hline => absurd hline List.not_mem_nil)
      (hbatches chunk List.mem_cons_self)
      fun other hother => hbatches other (List.mem_cons_of_mem chunk hother)

/-- However the producer's pushes, and the end of the input behind them, fall between the
    operations of the bench: the lines written, the times of the steps and the result are
    those of the run in which every chunk is in the inbox before the bench waits for it. -/
theorem run_paced (hsink : Sink.IsReliable τ) (system : System σ) (limit steps : Nat)
    (pace : Nat → Nat) {b : Bench (Scripted τ) σ} {s : SimulatedTime} {chunks : List (List Line)}
    (hb : Prepared b s chunks) (hbatches : ∀ chunk ∈ chunks, IsBatch chunk)
    (hquiet : ∀ a ∈ starts system.updateOn limit steps b.fed,
      ∀ text ∈ stepOutput system.updateOn limit a, isReport text = false) :
    (run system.updateOn limit steps (b.paced pace)).1
        = (run system.updateOn limit steps b.fed).1 ∧
      (run system.updateOn limit steps (b.paced pace)).2.written
        = (run system.updateOn limit steps b.fed).2.written ∧
      (starts system.updateOn limit steps (b.paced pace)).map now
        = (starts system.updateOn limit steps b.fed).map now := by
  have hstart := parallel_start pace hb hbatches
  generalize hstarta : start (b.paced pace) = x at hstart
  generalize hstartc : start b.fed = y at hstart
  cases hstart with
  | error hwritten =>
    rcases @run_of_stopped _ _ _ system.updateOn limit _ _ _ steps hstarta with
      ⟨hresult, htext, htimes⟩
    rcases @run_of_stopped _ _ _ system.updateOn limit _ _ _ steps hstartc with
      ⟨hresult', htext', htimes'⟩
    rw [hresult, hresult', htext, htext', htimes, htimes']
    exact ⟨rfl, hwritten, rfl⟩
  | ok h hbatches' =>
    rcases @run_of_started _ _ _ system.updateOn limit _ _ steps hstarta with
      ⟨hresult, htext, htimes⟩
    rcases @run_of_started _ _ _ system.updateOn limit _ _ steps hstartc with
      ⟨hresult', htext', htimes'⟩
    rw [htimes'] at hquiet
    rcases drive_inStep hsink system limit steps h hbatches' hquiet with ⟨hhalt, hwritten, hnow⟩
    rw [hresult, hresult', htext, htext', htimes, htimes', hhalt]
    exact ⟨rfl, hwritten, hnow⟩

/-- A producer that carries out one act at every other turn. -/
theorem run_paced_echoing :
    (run Echo.system.updateOn 2 5 (echoing.paced fun turn => turn % 2)).1 = .ok () ∧
      (run Echo.system.updateOn 2 5 (echoing.paced fun turn => turn % 2)).2.written
        = ["Delayed: 0", "hello", "Delayed: 1"] ∧
      (starts Echo.system.updateOn 2 5 (echoing.paced fun turn => turn % 2)).map now
        = (starts Echo.system.updateOn 2 5 echoing.fed).map now := by
  have hbatches : ∀ chunk ∈ ([[⟨"Delay: 1"⟩], [⟨"hello"⟩, ⟨"Delay: 2"⟩]] : List (List Line)),
      IsBatch chunk := by
    simp only [List.forall_mem_cons]
    exact ⟨⟨[], _, Duration.ofMillis 1, rfl, nofun, by decide⟩,
      ⟨[⟨"hello"⟩], _, Duration.ofMillis 2, rfl, by decide, by decide⟩, nofun⟩
  rcases run_paced (fun _ _ => rfl) Echo.system 2 5 (fun turn => turn % 2) (b := echoing)
    ⟨rfl, rfl, rfl, rfl, rfl⟩ hbatches (by decide +kernel) with ⟨hresult, hwritten, htimes⟩
  have hok : (run Echo.system.updateOn 2 5 echoing.fed).1.isOk = true := by decide +kernel
  rw [hresult, hwritten, htimes]
  refine ⟨?_, by decide +kernel, rfl⟩
  cases hrun : (run Echo.system.updateOn 2 5 echoing.fed).1 with
  | ok _ => rfl
  | error _ =>
    rw [hrun] at hok
    exact absurd hok Bool.false_ne_true

end Bench

end Testbench
