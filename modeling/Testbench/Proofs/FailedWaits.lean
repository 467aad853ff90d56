import Testbench.Proofs.Listeners
import Testbench.Proofs.Outcomes
import Testbench.Proofs.VirtualTime

/-!
# Failed Waits

A bench in simulated time can fail at three places while it waits. The report of a window is
not taken by the output channel, or the directive that decides is malformed, or the input ends.
Whoever drives the bench then finds it in a state from which it can go on. The time is as it was
in every case. A report that was not taken is still due, with all that makes it so. Behind a
malformed directive the inbox is free of directives and otherwise as it was, and at the end of
the input it is as it was, and nobody is left listening.

All this is about what the bench does, so nobody else must put lines into the inbox or close it
meanwhile. A bench that has begun to listen under these circumstances is never called, and so
it does not fail either.

That nobody listens to a closed inbox is an invariant of every change of an inbox. A bench makes
no others, whatever it is used for.

## Main definitions

* `Bench.LeftAlone`: A course in which nobody adds a line or closes the inbox.
* `Bench.Moves`: Work whose effect on the inbox is a series of changes of it.
* `Bench.WaitFails`: How a wait fails, and the inbox that it leaves.
* `Bench.Offers`: The bench is about to report.

## Theorems

* `Bench.LeftAlone.turn`: A turn that disturbs nothing.
* `Bench.waitFails`: The failures of a wait.
* `Bench.moves_use`: However a bench is used, its inbox undergoes changes only.
* `Bench.failed_waits_can_be_resumed`: What holds after a failure.
-/

namespace Testbench

/-- A line is added, or the inbox is closed. -/
def Happening.disturbs : Happening → Bool
  | .arrived _ | .closed => true
  | _ => false

namespace Bench

variable {ε σ : Type}

/-- Nobody adds a line or closes the inbox. -/
def LeftAlone (c : Course ε σ) : Prop := ∀ p ∈ c, p.happening.disturbs = false

namespace LeftAlone

variable {c c' : Course ε σ} {b : Bench ε σ}

theorem of_append (h : LeftAlone (c ++ c')) : LeftAlone c ∧ LeftAlone c' :=
  List.forall_mem_append.mp h

theorem of_cons {p : Point ε σ} (h : LeftAlone (p :: c)) :
    p.happening.disturbs = false ∧ LeftAlone c :=
  List.forall_mem_cons.mp h

theorem receive {act : Act} (h : (b.meets act).disturbs = false) (inCall : Bool) :
    (b.receive inCall act).inbox = b.inbox ∧ (b.receive inCall act).wake = b.wake := by
  cases act with
  | push line =>
    rcases hpush : b.inbox.push line with fault | ⟨_ | due, inbox⟩
    · simp only [Bench.receive, hpush, and_self]
    · simp only [Bench.receive, hpush]
      split <;> exact ⟨rfl, rfl⟩
    · simp only [meets, hpush] at h
      cases h
  | close => cases h
  | elapse duration =>
    simp only [Bench.receive]
    split <;> exact ⟨rfl, rfl⟩

theorem acts {inCall : Bool} {acts : List Act} (h : LeftAlone (actsCourse inCall acts b)) :
    (acts.foldl (Bench.receive inCall) b).inbox = b.inbox ∧
      (acts.foldl (Bench.receive inCall) b).wake = b.wake := by
  induction acts generalizing b with
  | nil => exact ⟨rfl, rfl⟩
  | cons act rest ih =>
    rcases h.of_cons with ⟨hfirst, hrest⟩
    rcases receive hfirst inCall with ⟨hinbox, hwake⟩
    rcases ih hrest with ⟨hinbox', hwake'⟩
    exact ⟨hinbox'.trans hinbox, hwake'.trans hwake⟩

/-- A turn that disturbs nothing. -/
theorem turn [Environment ε] {moment : Moment} (h : LeftAlone (b.turnCourse moment)) :
    (b.turn moment).inbox = b.inbox ∧ (b.turn moment).wake = b.wake :=
  acts (b := { b with environment := (Environment.acts moment b.environment).2 }) h

end LeftAlone

/-! ### How a wait fails -/

/-- A wait fails, and leaves the inbox with what is still of use. -/
inductive WaitFails (b next : Bench ε σ) : ExecutionError → Prop
  /-- The earliest directive decides, and all of them are gone. -/
  | malformed (directive : Line) (hfirst : b.inbox.lines.find? Line.isDirective = some directive)
      (hdelay : directive.delay? = none)
      (hinbox : next.inbox = { b.inbox with
        lines := b.inbox.lines.filter fun line => !line.isDirective }) :
      WaitFails b next (.malformedDelay directive)
  | ended (hclosed : b.inbox.closed = true)
      (hplain : ∀ line ∈ b.inbox.lines, line.isDirective = false)
      (hinbox : next.inbox = b.inbox) (hunheard : next.inbox.listeners.values = []) :
      WaitFails b next .inputClosed

theorem WaitFails.of_inbox {b b' next : Bench ε σ} {cause : ExecutionError}
    (h : WaitFails b' next cause) (hinbox : b'.inbox = b.inbox) : WaitFails b next cause := by
  cases h with
  | malformed directive hfirst hdelay hlast =>
    rw [hinbox] at hfirst hlast
    exact .malformed directive hfirst hdelay hlast
  | ended hclosed hplain hlast hunheard =>
    rw [hinbox] at hclosed hplain hlast
    exact .ended hclosed hplain hlast hunheard

variable [Environment ε] {b next : Bench ε σ} {s : SimulatedTime} {cause : ExecutionError}

/-- The listener of a bench that is left alone is refused at once, or is never called. -/
theorem listen_leftAlone (hquiet : LeftAlone b.listenCourse)
    (hplain : ∀ line ∈ b.inbox.lines, line.isDirective = false) :
    (b.inbox.closed = true ∧
      ∃ next, listen b = (.error (.error .inputClosed), next) ∧ next.inbox = b.inbox) ∨
    ∃ next, listen b = (.error .blocked, next) := by
  rcases hquiet.of_append with ⟨hturn, hwaiting⟩
  rcases hturn.turn with ⟨hinbox, -⟩
  have hnone : (b.turn .access).inbox.lines.any Line.isDirective = false := by
    rw [hinbox, List.any_eq_false]
    exact fun line hline => ne_true_of_eq_false (hplain line hline)
  cases hclosed : (b.turn .access).inbox.closed with
  | true => exact .inl ⟨hinbox ▸ hclosed, _, listen_of_refused hnone hclosed, hinbox⟩
  | false =>
    have hregister : ∃ inbox, (b.turn .access).inbox.register ⟨wantsDirective, ()⟩
        = .ok (.pending, inbox) := by
      have hany := anyWanted_ok Line.isDirective (b.turn .access).inbox.lines
      rw [hnone] at hany
      unfold Inbox.register
      rw [show anyWanted wantsDirective _ = _ from hany, hclosed]
      exact ⟨_, rfl⟩
    rcases hregister with ⟨inbox, hregister⟩
    rw [hregister] at hwaiting
    have hwake : ((b.turn .access).listening.turn .waiting).wake = .asleep := hwaiting.turn.2
    have hlisten := listen_of_pending hnone hclosed
    rw [hwake] at hlisten
    exact .inr ⟨_, hlisten⟩

/-- The failures of a wait. -/
theorem waitFails (hsound : b.inbox.Sound)
    (h : waitForDelay s b = (.error (.error cause), next)) (hquiet : LeftAlone (waitCourse s b)) :
    next.own = b.own ∧ WaitFails b next cause := by
  rcases hquiet.of_append with ⟨hsearch, hafter⟩
  rcases hsearch.of_append.1.turn with ⟨hinbox, -⟩
  rcases hfound : (b.turn .access).inbox.lines.filter Line.isDirective with
    _ | ⟨directive, superseded⟩
  · have hopen := openWindow_of_nothing s hfound
    rw [onward, hopen] at hafter
    have hplain : ∀ line ∈ (b.turn .access).inbox.lines, line.isDirective = false :=
      fun line hline => Bool.eq_false_iff.mpr (List.filter_eq_nil_iff.mp hfound line hline)
    have hown := own_listen (b.turn .access)
    rcases listen_leftAlone hafter.of_append.1 hplain with ⟨hclosed, last, hlisten, hlast⟩ |
      ⟨last, hlisten⟩
    · rw [waitForDelay_of_closed hopen hlisten] at h
      rcases Prod.mk.inj h with ⟨hhalt, rfl⟩
      rcases Halt.error.inj (Except.error.inj hhalt)
      rw [hlisten, own_turn] at hown
      rw [hinbox] at hclosed hplain hlast
      exact ⟨hown, .ended hclosed hplain hlast (hlast ▸ hsound.unheard hclosed)⟩
    · rw [waitForDelay_of_closed hopen hlisten] at h
      cases (Prod.mk.inj h).1
  · rcases hdelay : directive.delay? with _ | delay
    · rcases openWindow_of_malformed s hfound hdelay with ⟨last, hopen, hown, -, hlast⟩
      rw [waitForDelay_of_found hopen (by intro heq; cases heq)] at h
      rcases Prod.mk.inj h with ⟨hhalt, rfl⟩
      rcases Halt.error.inj (Except.error.inj hhalt)
      rw [hinbox] at hfound hlast
      refine ⟨hown, .malformed directive ?_ hdelay hlast⟩
      rw [← List.head?_filter, hfound]
      rfl
    · rcases openWindow_of_directive s hfound hdelay with ⟨last, hopen, -⟩
      rw [waitForDelay_of_found hopen (allowed_ne _)] at h
      generalize (s.grant delay).1 = granted at h
      cases granted with
      | ok _ => cases (Prod.mk.inj h).1
      | error fault => cases (Prod.mk.inj h).1

end Bench

/-! ### What a bench does to its inbox -/

namespace Inbox

variable {κ : Type}

open Relation

theorem moves_afterAct (inbox : Inbox κ) (act : Act) :
    ReflTransGen Move inbox (inbox.afterAct act) := by
  cases act with
  | push line =>
    rcases hpush : inbox.push line with fault | ⟨_ | due, next⟩
    · simp only [afterAct, hpush]
      exact .refl
    · rw [afterAct, hpush, (push_eq_discarded hpush).2]
    · simp only [afterAct, hpush]
      exact .single (.push hpush)
  | close => exact .single .close
  | elapse duration => exact .refl

theorem moves_after (inbox : Inbox κ) (acts : List Act) :
    ReflTransGen Move inbox (inbox.after acts) := by
  induction acts generalizing inbox with
  | nil => exact .refl
  | cons act rest ih => exact (moves_afterAct inbox act).trans (ih _)

theorem Sound.moves {inbox next : Inbox κ} (hsound : Sound inbox)
    (h : ReflTransGen Move inbox next) : Sound next := by
  induction h with
  | refl => exact hsound
  | tail _ hmove ih => exact ih.move hmove

end Inbox

namespace Bench

open Relation

variable {ε σ α β : Type}

/-- The inbox undergoes a series of changes. -/
def Moves (work : BenchM ε σ α) : Prop :=
  ∀ b, ReflTransGen Inbox.Move b.inbox (work b).2.inbox

namespace Moves

theorem bind {x : BenchM ε σ α} {f : α → BenchM ε σ β} (hx : Moves x) (hf : ∀ a, Moves (f a)) :
    Moves (x >>= f) := fun b => by
  have hfirst := hx b
  rcases hwork : x b with ⟨halt | a, next⟩
  · rw [hwork] at hfirst
    rw [bind_of_error hwork]
    exact hfirst
  · rw [hwork] at hfirst
    rw [bind_of_ok hwork]
    exact hfirst.trans (hf a next)

theorem of_eq {work : BenchM ε σ α} (h : ∀ b, (work b).2.inbox = b.inbox) : Moves work :=
  fun b => by rw [h b]

theorem advance (s : SimulatedTime) : Moves (Bench.advance s : BenchM ε σ Unit) := by
  refine of_eq fun b => ?_
  unfold Bench.advance
  split <;> rfl

variable [Environment ε]

theorem turn (moment : Moment) (b : Bench ε σ) :
    ReflTransGen Inbox.Move b.inbox (b.turn moment).inbox := by
  rw [inbox_turn]
  exact Inbox.moves_after _ _

theorem extract (wants : Predicate) : Moves (Bench.extract wants : BenchM ε σ (List Line)) := by
  intro b
  have hmove := (b.turn .access).inbox.move_extract wants
  simp only [Bench.extract]
  split
  · next hextract =>
    rw [hextract] at hmove
    exact (turn .access b).tail hmove
  · next hextract =>
    rw [hextract] at hmove
    exact (turn .access b).tail hmove

theorem openWindow (s : SimulatedTime) : Moves (Bench.openWindow s : BenchM ε σ Bool) := by
  intro b
  have hswept : ReflTransGen Inbox.Move b.inbox { (b.turn .access).inbox with
      lines := (b.turn .access).inbox.lines.filter fun line => !line.isDirective } :=
    (turn .access b).tail (.take List.filter_sublist)
  rcases hfound : (b.turn .access).inbox.lines.filter Line.isDirective with
    _ | ⟨directive, superseded⟩
  · rw [openWindow_of_nothing s hfound]
    exact turn .access b
  · rcases hdelay : directive.delay? with _ | delay
    · rcases openWindow_of_malformed s hfound hdelay with ⟨next, hopen, -, -, hinbox⟩
      rw [hopen, hinbox]
      exact hswept
    · rcases openWindow_of_directive s hfound hdelay with ⟨next, hopen, -, -, hinbox⟩
      rw [hopen, hinbox]
      exact hswept

theorem listen : Moves (Bench.listen : BenchM ε σ Unit) := by
  intro b
  rcases listen_cases b with ⟨-, hlisten⟩ | ⟨-, hlisten⟩ | ⟨hregister, result, -, hlisten⟩
  · rw [hlisten]
    exact turn .access b
  · rw [hlisten]
    exact turn .access b
  · rw [hlisten]
    exact ((turn .access b).tail (.register hregister)).trans (turn .waiting _)

theorem waitForDelay (s : SimulatedTime) : Moves (Bench.waitForDelay s : BenchM ε σ Unit) := by
  refine (openWindow s).bind fun found => ?_
  split
  · exact fun _ => .refl
  · refine listen.bind fun _ => (openWindow s).bind fun found => ?_
    split
    · exact fun _ => .refl
    · exact fun _ => .refl

theorem deliver (text : String) (b : Bench ε σ) :
    ReflTransGen Inbox.Move b.inbox (b.deliver text).2.inbox := by
  rcases haccept : Environment.accept text b.environment with ⟨cause | _, environment⟩
  · rw [deliver_of_refused haccept]
  · rcases deliver_of_taken haccept with ⟨next, hdeliver, -, hinbox, -⟩
    rw [hdeliver, hinbox]
    exact Inbox.moves_after _ _

theorem closeWindow (s : SimulatedTime) : Moves (Bench.closeWindow s : BenchM ε σ Unit) := by
  refine bind (fun b => ?_) fun _ => bind (fun _ => .refl) fun _ => waitForDelay s
  have hdeliver := deliver s.report b
  rcases hreport : b.deliver s.report with ⟨cause | _, next⟩ <;> rw [hreport] at hdeliver
  · simp only [raising, hreport]
    exact hdeliver
  · simp only [raising, hreport]
    exact hdeliver

theorem start : Moves (Bench.start : BenchM ε σ Unit) := by
  refine bind (fun _ => .refl) fun b => ?_
  split
  · exact fun _ => .refl
  · exact (waitForDelay _).bind fun _ _ => .refl

theorem settle : Moves (Bench.settle : BenchM ε σ Unit) := by
  refine bind (fun _ => .refl) fun _ => bind (fun _ => .refl) fun b => ?_
  split
  · refine bind (fun b => ?_) fun _ _ => .refl
    unfold sleep
    split
    · next wall _ => exact turn .slept { b with wall }
    · exact .refl
  · split
    · exact (closeWindow _).bind fun _ _ => .refl
    · exact (advance _).bind fun _ _ => .refl

theorem answer (b : Bench ε σ) (c : Call) :
    ReflTransGen Inbox.Move b.inbox (b.answer c).2.inbox := by
  cases c with
  | inputReady | resetTime | value clock => exact turn .access b
  | read =>
    refine (turn .access b).trans ?_
    cases hlines : (b.turn .access).inbox.lines with
    | nil =>
      simp only [Bench.answer, read, Inbox.read?, hlines]
      exact .refl
    | cons line rest =>
      simp only [Bench.answer, read, Inbox.read?, hlines]
      refine .single (.take ?_)
      rw [hlines]
      exact List.sublist_cons_self line rest
  | write text => exact deliver text (b.note (.outputEmitted text))
  | note system fields => exact .refl

theorem updateOn (system : System σ) : Moves (system.updateOn : BenchM ε σ Progress) := by
  have hrun : ∀ {γ : Type} (p : Program γ) (b : Bench ε σ),
      ReflTransGen Inbox.Move b.inbox (p.runOn b).2.inbox := by
    intro γ p b
    induction p generalizing b with
    | pure a => exact .refl
    | call c next ih => exact (answer b c).trans (ih _ _)
  intro b
  rw [updateOn_eq]
  exact hrun _ b

theorem runStep (system : System σ) (limit : Nat) :
    Moves (Bench.runStep system.updateOn limit : BenchM ε σ Nat) := by
  have htransitions : ∀ limit count,
      Moves (transitions (system.updateOn : BenchM ε σ Progress) limit count) := by
    intro limit
    induction limit with
    | zero => exact fun _ _ => .refl
    | succ limit ih =>
      intro count b
      have hupdate := updateOn system b
      unfold transitions
      rcases hresult : system.updateOn b with ⟨halt | _ | _, next⟩ <;> rw [hresult] at hupdate
      · exact hupdate
      · exact hupdate.trans (ih (count + 1) next)
      · exact hupdate
  exact bind (fun _ => .refl) fun _ => (htransitions limit 0).bind fun _ _ => .refl

end Moves

variable [Environment ε]

/-- However a bench is used, its inbox undergoes changes only. -/
theorem moves_use {b next : Bench ε σ} (h : Use b next) :
    ReflTransGen Inbox.Move b.inbox next.inbox := by
  cases h with
  | start => exact Moves.start b
  | settle => exact Moves.settle b
  | runStep system limit => exact Moves.runStep system limit b
  | answer c => exact Moves.answer b c
  | extract wants => exact Moves.extract wants b
  | receive inCall act =>
    rw [(receive_eq inCall b act).2.1]
    exact Inbox.moves_afterAct _ _

theorem sound_uses {b later : Bench ε σ} (h : ReflTransGen Use b later) (hb : b.inbox.Sound) :
    later.inbox.Sound := by
  induction h with
  | refl => exact hb
  | tail _ huse ih => exact ih.moves (moves_use huse)

/-! ### Failures after any uses -/

/-- The report comes first, whether or not it is taken. -/
structure Offers (b : Bench ε σ) (text : String) : Prop where
  refused : ∀ failure environment,
    Environment.accept text b.environment = (.error failure, environment) →
      (settle b).1 = .error (.error (.output failure))
  taken : ∀ environment, Environment.accept text b.environment = (.ok (), environment) →
    ∃ first rest, b.settleCourse = first :: rest ∧ first.bench.written = text :: b.written

variable {b next : Bench ε σ} {s : SimulatedTime} {cause : ExecutionError}

theorem offers_of_due (hpolicy : b.policy = .simulated s)
    (hdue : (b.hasOutput || s.isExhausted) = true) : b.Offers s.report := by
  refine ⟨fun failure environment haccept => ?_, fun environment haccept => ?_⟩
  · have hclose := closeWindow_of_refused (b := { b with phase := .awaitingNextStep }) haccept
    rw [settle_simulated hpolicy, if_pos hdue, bind_of_error hclose]
  · rw [settleCourse_simulated hpolicy, if_pos hdue]
    simp only [closeWindowCourse, deliverCourse, haccept]
    exact ⟨_, _, rfl, rfl⟩

/-- A window that cannot be closed: the report was refused, or the wait behind it has failed. -/
theorem closeWindow_fails (hsound : b.inbox.Sound)
    (h : closeWindow s b = (.error (.error cause), next))
    (hquiet : LeftAlone (closeWindowCourse s b)) :
    (∃ failure environment, cause = .output failure ∧ next = { b with environment }) ∨
    (next.own = { b.own.writing [s.report] with hasOutput := false } ∧ WaitFails b next cause) := by
  rcases haccept : Environment.accept s.report b.environment with ⟨failure | _, environment⟩
  · rw [closeWindow_of_refused haccept] at h
    rcases Prod.mk.inj h with ⟨hcause, rfl⟩
    exact .inl ⟨failure, environment, (Halt.error.inj (Except.error.inj hcause)).symm, rfl⟩
  · rcases deliver_of_taken haccept with ⟨mid, hdeliver, hown, hinbox, -⟩
    rw [closeWindow_of_ok hdeliver] at h
    rcases hquiet.of_append with ⟨hreport, hwait⟩
    have hraising : raising (deliver s.report) b = (.ok (), mid) := by
      simp only [raising, hdeliver]
    rw [onward, hraising] at hwait
    rw [deliverCourse, haccept] at hreport
    have hturn := hreport.of_cons.2.turn.1
    rw [inbox_turn] at hturn
    have hsame : mid.inbox = b.inbox := hinbox.trans hturn
    have hstill : ({ mid with hasOutput := false }.note (.windowClosed s.delayed)).inbox.Sound :=
      hsame.symm ▸ hsound
    rcases waitFails hstill h hwait with ⟨hlast, hfails⟩
    refine .inr ⟨hlast.trans ?_, hfails.of_inbox hsame⟩
    exact congrArg (fun own => { own with hasOutput := false }) hown

/-- The failures of a bench that settles. -/
theorem settle_fails (hpolicy : b.policy = .simulated s) (hsound : b.inbox.Sound)
    (h : settle b = (.error (.error cause), next)) (hquiet : LeftAlone b.settleCourse) :
    next.policy = b.policy ∧ next.virtualTime = b.virtualTime ∧
      ((∃ failure, cause = .output failure ∧ next.hasOutput = b.hasOutput ∧
          next.inbox = b.inbox ∧ next.written = b.written ∧
          b.Offers s.report ∧ next.Offers s.report) ∨
        (WaitFails b next cause ∧ next.hasOutput = false ∧
          next.written = s.report :: b.written)) := by
  rw [settle_simulated hpolicy] at h
  rw [settleCourse_simulated hpolicy] at hquiet
  by_cases hdue : (b.hasOutput || s.isExhausted) = true
  · rw [if_pos hdue] at h hquiet
    rcases hclose : closeWindow s { b with phase := .awaitingNextStep } with ⟨halt | _, last⟩
    · rw [bind_of_error hclose] at h
      rcases Prod.mk.inj h with ⟨hhalt, rfl⟩
      rw [Except.error.inj hhalt] at hclose
      rcases closeWindow_fails (b := { b with phase := .awaitingNextStep }) hsound hclose hquiet with
        ⟨failure, environment, hcause, rfl⟩ | ⟨hown, hfails⟩
      · exact ⟨rfl, rfl, .inl ⟨failure, hcause, rfl, rfl, rfl, offers_of_due hpolicy hdue,
          offers_of_due hpolicy hdue⟩⟩
      · exact ⟨congrArg Own.policy hown, congrArg Own.virtualTime hown,
          .inr ⟨hfails.of_inbox rfl, congrArg Own.hasOutput hown, congrArg Own.written hown⟩⟩
    · rw [bind_of_ok hclose] at h
      cases (Prod.mk.inj h).1
  -- A millisecond passes or there is none left, which is no error of this kind.
  · rw [if_neg hdue] at h
    rcases htick : s.tick? with _ | later
    · rw [bind_of_error (advance_of_none htick)] at h
      cases (Prod.mk.inj h).1
    · rw [bind_of_ok (advance_of_ok htick)] at h
      cases (Prod.mk.inj h).1

/-- The failures of a bench that starts. -/
theorem start_fails (hpolicy : b.policy = .simulated s) (hsound : b.inbox.Sound)
    (h : start b = (.error (.error cause), next)) (hquiet : LeftAlone b.startCourse) :
    next.own = b.own ∧ WaitFails b next cause := by
  rw [start_simulated hpolicy] at h
  simp only [startCourse, hpolicy] at hquiet
  rcases hwait : waitForDelay s b with ⟨halt | _, last⟩
  · rw [bind_of_error hwait] at h
    rcases Prod.mk.inj h with ⟨hhalt, rfl⟩
    rw [Except.error.inj hhalt] at hwait
    exact waitFails hsound hwait hquiet
  · rw [bind_of_ok hwait] at h
    cases (Prod.mk.inj h).1

/-- However a bench in simulated time has been used, if it starts or settles with nobody
    interfering and fails, then the time and its window are as they were, and so is the time that
    is published.

    A start that fails has changed nothing else of the bench's own either. If it settles and the
    report is refused then nothing is written, the mark of output and the inbox are as they were,
    and the next attempt offers the same report. Otherwise exactly the report is written, with the
    whole milliseconds of the window, and the mark is removed.

    In either case a wait fails with the earliest directive, when it is malformed: then all
    directives are gone and all other lines are left in order. Or it fails because the input has
    ended: then the inbox is closed, it holds no directive and has no listeners, and it is as it
    was. -/
theorem failed_waits_can_be_resumed {first b : Bench ε σ} {t : Timestamp}
    (hpolicy : first.policy = .simulated (.startingAt t)) (hpublished : first.virtualTime = t)
    (hsound : first.inbox.Sound) (huses : ReflTransGen Use first b) :
    ∃ s, b.Shows s ∧
      (∀ cause next, start b = (.error (.error cause), next) → LeftAlone b.startCourse →
        next.Shows s ∧ next.own = b.own ∧ WaitFails b next cause) ∧
      ∀ cause next, settle b = (.error (.error cause), next) → LeftAlone b.settleCourse →
        next.Shows s ∧
          ((∃ failure, cause = .output failure ∧ next.hasOutput = b.hasOutput ∧
              next.inbox = b.inbox ∧ next.written = b.written ∧
              b.Offers s.report ∧ next.Offers s.report) ∨
            (WaitFails b next cause ∧ next.hasOutput = false ∧
              ∃ millis, s.opened.add? (Duration.ofMillis millis) = some s.now ∧
                next.written = ("Delayed: " ++ Nat.repr millis) :: b.written)) := by
  rcases uses huses ⟨hpolicy, hpublished⟩ (SimulatedTime.isSound_startingAt t) with
    ⟨s, hshows, htime, -⟩
  have hinbox := sound_uses huses hsound
  refine ⟨s, hshows, fun cause next h hquiet => ?_, fun cause next h hquiet => ?_⟩
  · rcases start_fails hshows.policy hinbox h hquiet with ⟨hown, hfails⟩
    exact ⟨hshows.of_own hown, hown, hfails⟩
  · rcases settle_fails hshows.policy hinbox h hquiet with ⟨hsame, htold, hfails⟩
    refine ⟨⟨hsame.trans hshows.policy, htold.trans hshows.published⟩, ?_⟩
    rcases hfails with hrefused | ⟨hfails, hnone, hwritten⟩
    · exact .inl hrefused
    · rcases htime.add?_elapsed with ⟨millis, hmillis⟩
      refine .inr ⟨hfails, hnone, millis, hmillis, ?_⟩
      rw [hwritten, SimulatedTime.report, SimulatedTime.delayed, Timestamp.since_of_add? hmillis,
        Duration.millis_ofMillis]

/-- A bench at the very beginning, with an output channel that takes some lines. -/
def untouched (lines : Nat) : Bench (Scripted (Limited Recorder)) Echo where
  inbox := .empty
  hasOutput := true
  policy := .simulated (.startingAt .epoch)
  phase := .running
  virtualTime := .epoch
  wall := .epoch
  wake := .asleep
  environment := ⟨⟨.empty, some lines, .brokenPipe⟩, none, reportMark, [], []⟩
  system := {}
  written := []
  journal := .empty none

/-- It is given a line, a directive that is malformed, and a better one too late. -/
def misled (lines : Nat) : Bench (Scripted (Limited Recorder)) Echo :=
  (((untouched lines).receive false (.push ⟨"coin"⟩)).receive false
    (.push ⟨"Delay: soon"⟩)).receive false (.push ⟨"Delay: 3"⟩)

theorem uses_misled (lines : Nat) : ReflTransGen Use (untouched lines) (misled lines) :=
  ((ReflTransGen.single (.receive false _)).tail (.receive false _)).tail (.receive false _)

/-- With a channel that takes the report the directives are gone and the coin is still there,
    and with one that does not nothing is changed. -/
theorem failed_waits_can_be_resumed_misled :
    ((settle (misled 1)).1 = .error (.error (.malformedDelay ⟨"Delay: soon"⟩)) ∧
      (settle (misled 1)).2.inbox.lines = [⟨"coin"⟩] ∧
      (settle (misled 1)).2.written = ["Delayed: 0"]) ∧
    (settle (misled 0)).1 = .error (.error (.output .brokenPipe)) ∧
      (settle (misled 0)).2.inbox = (misled 0).inbox := by
  have hmalformed : (settle (misled 1)).1
      = .error (.error (.malformedDelay ⟨"Delay: soon"⟩)) := by decide +kernel
  have hrefused : (settle (misled 0)).1 = .error (.error (.output .brokenPipe)) := by
    decide +kernel
  have hquiet : ∀ lines ∈ [0, 1], ∀ p ∈ (misled lines).settleCourse,
      p.happening.disturbs = false := by decide +kernel
  refine ⟨⟨hmalformed, ?_⟩, hrefused, ?_⟩
  · rcases failed_waits_can_be_resumed rfl rfl Inbox.sound_empty (uses_misled 1) with
      ⟨s, hshows, -, hsettle⟩
    rcases hsettle _ _ (Prod.ext hmalformed rfl) (hquiet 1 (by decide)) with
      ⟨-, ⟨failure, hcause, -⟩ | ⟨hfails, -, millis, hmillis, hwritten⟩⟩
    · cases hcause
    · have hstart : SimulatedTime.startingAt .epoch = s := Policy.simulated.inj hshows.policy
      have hnone := Timestamp.add?_eq_some.mp hmillis
      subst hstart
      simp only [SimulatedTime.startingAt, Timestamp.epoch, Duration.ofMillis] at hnone
      rw [show millis = 0 by omega] at hwritten
      cases hfails with
      | malformed directive hfirst hdelay hinbox =>
        exact ⟨(congrArg Inbox.lines hinbox).trans (by decide +kernel), hwritten⟩
  · rcases failed_waits_can_be_resumed rfl rfl Inbox.sound_empty (uses_misled 0) with
      ⟨s, -, -, hsettle⟩
    rcases hsettle _ _ (Prod.ext hrefused rfl) (hquiet 0 (by decide)) with
      ⟨-, ⟨-, -, -, hinbox, -⟩ | ⟨hfails, -⟩⟩
    · exact hinbox
    · cases hfails

end Bench

end Testbench
