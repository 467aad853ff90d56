import Testbench.Environment.Scripted
import Testbench.Proofs.Lockstep
import Testbench.Proofs.Trace
import Testbench.Systems.Echo

/-!
# Benches under a Script

A test environment that follows a script acts only when a report has been written.
So as long as a system under test writes no line that begins like a report, the
bench has its inbox to itself: lines leave it when they are read, none arrive, and
the script stays where it is. `Undisturbed` says this of two moments of a bench.

A report calls for the next chunk, or for the end of the input if no chunk is left.
As no listener is pending while a bench runs, a chunk only appends its lines, and
the end of the input only closes the inbox.

The sink of the environment is a parameter. Where a report has to be taken, all that is
asked of it is that it takes every line, which `Sink.IsReliable` says.

## Main definitions

* `Sink.IsReliable`: The sink takes every line.
* `Bench.fed`: The bench after its environment has sent one chunk.
* `Bench.Prepared`: A bench before its run.
* `Bench.echoing`: A prepared bench, for trying things out.
* `Bench.Stocked`: What a bench finds in its inbox, and what is still to be sent.
* `Bench.Undisturbed`: Nothing was sent between two moments.

## Theorems

* `Inbox.after_chunk`: A chunk is appended.
* `Bench.undisturbed_answer`: A call that writes no report is left alone.
* `Bench.undisturbed_runStep`: A step that writes no report is left alone.
* `Bench.Stocked.sent`, `Bench.Stocked.ended`: What the environment sends next.
* `Bench.closeWindow_of_chunk`, `Bench.closeWindow_of_end`: A report, and what it calls for.
* `Bench.waitForDelay_at_end`: A wait for nothing.
-/

namespace Testbench

def Sink.IsReliable (τ : Type) [Sink τ] : Prop :=
  ∀ (text : String) (sink : τ), (Sink.writeLine text sink).1 = .ok ()

theorem Sink.IsReliable.writeLine {τ : Type} [Sink τ] (hsink : Sink.IsReliable τ) (text : String)
    (sink : τ) : ∃ next, Sink.writeLine text sink = (.ok (), next) :=
  ⟨(Sink.writeLine text sink).2, Prod.ext (hsink text sink) rfl⟩

namespace Inbox

variable {κ : Type}

theorem after_chunk {inbox : Inbox κ} (chunk : List Line) (hopen : inbox.closed = false)
    (hunheard : inbox.listeners.entries = []) :
    inbox.after (chunk.map .push) = { inbox with lines := inbox.lines ++ chunk } := by
  induction chunk generalizing inbox with
  | nil =>
    rw [List.append_nil]
    rfl
  -- Each push leaves the inbox open and unheard, so the next one appends as well.
  | cons line rest ih =>
    have hrest := @ih { inbox with lines := inbox.lines ++ [line] } hopen hunheard
    rw [List.append_assoc, List.singleton_append] at hrest
    unfold after
    rw [List.map_cons, List.foldl_cons, afterAct_push line hopen hunheard]
    exact hrest

end Inbox

namespace Bench

variable {σ τ : Type}

/-- The environment sends its next chunk of its own accord. -/
def fed (b : Bench (Scripted τ) σ) : Bench (Scripted τ) σ :=
  let (acts, environment) := b.environment.sendNext
  acts.foldl (receive false) { b with environment }

/-- Nothing has been done yet, and the script `chunks` is still to be sent. -/
structure Prepared (b : Bench (Scripted τ) σ) (s : SimulatedTime)
    (chunks : List (List Line)) : Prop where
  policy : b.policy = .simulated s
  empty : b.inbox = Inbox.empty
  fresh : b.hasOutput = false
  script : b.environment.script = some chunks
  trigger : b.environment.trigger = reportMark

/-- The lines are in an open inbox that nobody listens to, and `chunks` are still to be
    sent. -/
structure Stocked (b : Bench (Scripted τ) σ) (lines : List Line) (chunks : List (List Line)) :
    Prop where
  lines : b.inbox.lines = lines
  unheard : b.inbox.listeners.entries = []
  isOpen : b.inbox.closed = false
  script : b.environment.script = some chunks
  trigger : b.environment.trigger = reportMark

/-- A bench around an echo that is granted a millisecond, and then two more with a line
    to be echoed. -/
def echoing : Bench (Scripted Recorder) Echo where
  inbox := .empty
  hasOutput := false
  policy := .simulated (.startingAt .epoch)
  phase := .running
  virtualTime := .epoch
  wall := .epoch
  wake := .asleep
  environment := ⟨.empty, some [[⟨"Delay: 1"⟩], [⟨"hello"⟩, ⟨"Delay: 2"⟩]], reportMark, [], []⟩
  system := {}
  written := []
  journal := .empty none

/-! ### Steps without a report -/

structure Undisturbed (b next : Bench (Scripted τ) σ) : Prop where
  script : next.environment.script = b.environment.script
  trigger : next.environment.trigger = b.environment.trigger
  listeners : next.inbox.listeners = b.inbox.listeners
  closed : next.inbox.closed = b.inbox.closed
  lines : next.inbox.lines <:+ b.inbox.lines

namespace Undisturbed

theorem refl (b : Bench (Scripted τ) σ) : Undisturbed b b :=
  ⟨rfl, rfl, rfl, rfl, List.suffix_refl _⟩

theorem trans {a b c : Bench (Scripted τ) σ} (hab : Undisturbed a b) (hbc : Undisturbed b c) :
    Undisturbed a c :=
  ⟨hbc.script.trans hab.script, hbc.trigger.trans hab.trigger,
    hbc.listeners.trans hab.listeners, hbc.closed.trans hab.closed, hbc.lines.trans hab.lines⟩

end Undisturbed

variable [Sink τ]

theorem accept_eq (text : String) (e : Scripted τ) :
    Environment.accept text e
      = ((Sink.writeLine text e.sink).1, { e with sink := (Sink.writeLine text e.sink).2 }) := rfl

theorem accept_reliable (hsink : Sink.IsReliable τ) (text : String) (e : Scripted τ) :
    ∃ sink, Environment.accept text e = (.ok (), { e with sink }) := by
  rcases hsink.writeLine text e.sink with ⟨sink, hwrite⟩
  refine ⟨sink, ?_⟩
  rw [accept_eq, hwrite]

/-- A line that is no report calls for nothing. -/
theorem acts_of_not_report {text : String} {e : Scripted τ} (htrigger : e.trigger = reportMark)
    (htext : isReport text = false) : Environment.acts (.wrote text) e = ([], e) := by
  change (if e.trigger.toList.isPrefixOf text.toList then e.sendNext else ([], e)) = _
  rw [htrigger]
  exact if_neg (ne_true_of_eq_false htext)

/-- A report calls for the next chunk. -/
theorem acts_of_report {text : String} {e : Scripted τ} (htrigger : e.trigger = reportMark)
    (htext : isReport text = true) : Environment.acts (.wrote text) e = e.sendNext := by
  change (if e.trigger.toList.isPrefixOf text.toList then e.sendNext else ([], e)) = _
  rw [htrigger]
  exact if_pos htext

theorem undisturbed_answer (c : Call) {b : Bench (Scripted τ) σ} {new : List String}
    (htrigger : b.environment.trigger = reportMark)
    (h : (b.answer c).2.written = new ++ b.written) (hnew : ∀ text ∈ new, isReport text = false) :
    Undisturbed b (b.answer c).2 := by
  cases c with
  | write text =>
    have haccept := accept_eq text b.environment
    rcases hresult : (Sink.writeLine text b.environment.sink).1 with cause | _
    -- A sink that refuses the line is asked before the script is.
    · rw [hresult] at haccept
      rw [answer, write, deliver_of_refused (b := b.note (.outputEmitted text)) haccept]
      exact ⟨rfl, rfl, rfl, rfl, List.suffix_refl _⟩
    · rw [hresult] at haccept
      rcases deliver_of_taken (b := b.note (.outputEmitted text)) haccept with
        ⟨next, hdeliver, hown, hinbox, henvironment⟩
      rw [answer, write, hdeliver] at h ⊢
      -- The one line written is the line of the call, so it is known to be no report.
      have htext : [text] = new :=
        List.append_cancel_right ((congrArg Own.written hown).symm.trans h)
      have hquiet : isReport text = false :=
        hnew text (by rw [← htext]; exact List.mem_cons_self)
      rw [acts_of_not_report (by exact htrigger) hquiet] at hinbox henvironment
      refine ⟨?_, ?_, ?_, ?_, ?_⟩
      · rw [henvironment]
      · rw [henvironment]
      · rw [hinbox]
        rfl
      · rw [hinbox]
        rfl
      · rw [hinbox]
        exact List.suffix_refl _
  | read =>
    -- Reading is the only way in which lines leave the inbox, and it takes the first.
    change Undisturbed b (read b).2
    cases hlines : b.inbox.lines with
    | nil =>
      have hread : (b.turn .access).inbox.read? = none := by
        change b.inbox.read? = none
        unfold Inbox.read?
        rw [hlines]
      unfold read
      simp only [hread]
      exact Undisturbed.refl b
    | cons line rest =>
      have hread : (b.turn .access).inbox.read? = some (line, { b.inbox with lines := rest }) := by
        change b.inbox.read? = _
        unfold Inbox.read?
        rw [hlines]
      unfold read
      simp only [hread]
      refine ⟨rfl, rfl, rfl, rfl, ?_⟩
      rw [hlines]
      exact List.suffix_cons line rest
  | inputReady | resetTime | value => exact Undisturbed.refl b
  | note system fields => exact ⟨rfl, rfl, rfl, rfl, List.suffix_refl _⟩

theorem lockstep_undisturbed {b : Bench (Scripted τ) σ}
    (htrigger : b.environment.trigger = reportMark) :
    Lockstep (fun a c => a = c ∧ Undisturbed b c) (fun text => isReport text = false) := by
  -- One bench against itself: agreeing is trivial, and the relation carries along what
  -- has stayed the same since `b`.
  refine ⟨fun hac => congrArg own hac.1, ?_, ?_, ?_, ?_⟩
  · rintro a c call new ⟨rfl, hcalm⟩ h hnew
    have hcall := undisturbed_answer call (hcalm.trigger.trans htrigger) h hnew
    exact ⟨rfl, rfl, hcalm.trans hcall⟩
  · rintro a c system ⟨rfl, hcalm⟩
    exact ⟨rfl, hcalm.script, hcalm.trigger, hcalm.listeners, hcalm.closed, hcalm.lines⟩
  · rintro a c phase ⟨rfl, hcalm⟩
    exact ⟨rfl, hcalm.script, hcalm.trigger, hcalm.listeners, hcalm.closed, hcalm.lines⟩
  · rintro a c event ⟨rfl, hcalm⟩
    exact ⟨rfl, hcalm.script, hcalm.trigger, hcalm.listeners, hcalm.closed, hcalm.lines⟩

/-- A step that writes no report has the inbox to itself. -/
theorem undisturbed_runStep (system : System σ) (limit : Nat) {b : Bench (Scripted τ) σ}
    {new : List String} (htrigger : b.environment.trigger = reportMark)
    (h : (runStep system.updateOn limit b).2.written = new ++ b.written)
    (hnew : ∀ text ∈ new, isReport text = false) :
    Undisturbed b (runStep system.updateOn limit b).2 :=
  ((lockstep_undisturbed htrigger).runStep system limit ⟨rfl, Undisturbed.refl b⟩ h hnew).2.2

/-! ### Chunks on their way -/

omit [Sink τ] in
/-- The chunk that is sent next joins the lines. -/
theorem Stocked.sent {b next : Bench (Scripted τ) σ} {lines chunk : List Line}
    {chunks : List (List Line)} (h : Stocked b lines (chunk :: chunks)) (sink : τ)
    (hinbox : next.inbox = b.inbox.after ({ b.environment with sink }.sendNext).1)
    (henvironment : next.environment = ({ b.environment with sink }.sendNext).2) :
    Stocked next (lines ++ chunk) chunks := by
  simp only [Scripted.sendNext, h.script] at hinbox henvironment
  rw [Inbox.after_chunk chunk h.isOpen h.unheard] at hinbox
  refine ⟨?_, ?_, ?_, ?_, ?_⟩
  · rw [hinbox, h.lines]
  · rw [hinbox]
    exact h.unheard
  · rw [hinbox]
    exact h.isOpen
  · rw [henvironment]
  · rw [henvironment]
    exact h.trigger

omit [Sink τ] in
/-- With no chunk left the input ends. -/
theorem Stocked.ended {b next : Bench (Scripted τ) σ} {lines : List Line}
    (h : Stocked b lines []) (sink : τ)
    (hinbox : next.inbox = b.inbox.after ({ b.environment with sink }.sendNext).1) :
    next.inbox.lines = lines ∧ next.inbox.closed = true := by
  simp only [Scripted.sendNext, h.script] at hinbox
  rw [hinbox, ← h.lines]
  exact ⟨rfl, rfl⟩

omit [Sink τ] in
theorem Prepared.stocked {b : Bench (Scripted τ) σ} {s : SimulatedTime}
    {chunks : List (List Line)} (hb : Prepared b s chunks) : Stocked b [] chunks := by
  refine ⟨?_, ?_, ?_, hb.script, hb.trigger⟩
  · rw [hb.empty]
    rfl
  · rw [hb.empty]
    rfl
  · rw [hb.empty]
    rfl

omit [Sink τ] in
theorem fed_eq (b : Bench (Scripted τ) σ) :
    b.fed.own = b.own ∧ b.fed.inbox = b.inbox.after b.environment.sendNext.1 ∧
      b.fed.environment = b.environment.sendNext.2 :=
  foldl_receive_eq false b.environment.sendNext.1
    { b with environment := b.environment.sendNext.2 }

/-- A window that closes is reported, and the report calls for what the script has next. -/
theorem closeWindow_scripted (s : SimulatedTime) {b : Bench (Scripted τ) σ}
    (htrigger : b.environment.trigger = reportMark)
    (htaken : (Sink.writeLine s.report b.environment.sink).1 = .ok ()) :
    ∃ next sink, closeWindow s b = waitForDelay s next ∧
      next.own = { b.own.writing [s.report] with hasOutput := false } ∧
      next.inbox = b.inbox.after ({ b.environment with sink }.sendNext).1 ∧
      next.environment = ({ b.environment with sink }.sendNext).2 := by
  have hreport : isReport s.report = true := isReport_reportOf s.delayed.millis
  have haccept := accept_eq s.report b.environment
  rw [htaken] at haccept
  rcases deliver_of_taken haccept with ⟨b₁, hdeliver, hown, hinbox, henvironment⟩
  -- The report is written before the policy waits, so what it calls for is there already.
  rw [acts_of_report (by exact htrigger) hreport] at hinbox henvironment
  exact ⟨_, _, closeWindow_of_ok hdeliver,
    congrArg (fun own => { own with hasOutput := false }) hown, hinbox, henvironment⟩

theorem closeWindow_of_chunk (s : SimulatedTime) {b : Bench (Scripted τ) σ}
    {lines chunk : List Line} {chunks : List (List Line)} (h : Stocked b lines (chunk :: chunks))
    (htaken : (Sink.writeLine s.report b.environment.sink).1 = .ok ()) :
    ∃ next, closeWindow s b = waitForDelay s next ∧
      next.own = { b.own.writing [s.report] with hasOutput := false } ∧
      Stocked next (lines ++ chunk) chunks := by
  rcases closeWindow_scripted s h.trigger htaken with
    ⟨next, sink, hclose, hown, hinbox, henvironment⟩
  exact ⟨next, hclose, hown, h.sent sink hinbox henvironment⟩

theorem closeWindow_of_end (s : SimulatedTime) {b : Bench (Scripted τ) σ} {lines : List Line}
    (h : Stocked b lines [])
    (htaken : (Sink.writeLine s.report b.environment.sink).1 = .ok ()) :
    ∃ next, closeWindow s b = waitForDelay s next ∧
      next.own = { b.own.writing [s.report] with hasOutput := false } ∧
      next.inbox.lines = lines ∧ next.inbox.closed = true := by
  rcases closeWindow_scripted s h.trigger htaken with ⟨next, sink, hclose, hown, hinbox, -⟩
  exact ⟨next, hclose, hown, h.ended sink hinbox⟩

/-- A wait at a closed inbox without a directive is the end of the input. -/
theorem waitForDelay_at_end {b : Bench (Scripted τ) σ} (s : SimulatedTime)
    (hplain : ∀ line ∈ b.inbox.lines, line.isDirective = false) (hclosed : b.inbox.closed = true) :
    waitForDelay s b = (.error (.error .inputClosed), { b with wake := .asleep }) := by
  have hnone : b.inbox.lines.any Line.isDirective = false := by
    rw [List.any_eq_false]
    intro line hline
    exact ne_true_of_eq_false (hplain line hline)
  exact waitForDelay_of_closed (openWindow_of_none s hplain) (listen_of_refused hnone hclosed)

end Bench

end Testbench
