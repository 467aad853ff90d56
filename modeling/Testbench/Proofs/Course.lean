import Mathlib.Logic.Basic
import Testbench.Proofs.Answers
import Testbench.Proofs.Trace
import Testbench.Proofs.Waiting

/-!
# The Course of a Run

A run answers with a result and a last bench, and says nothing of what was between. Its
course does. It is the list of all that happens, each with the bench right after it: the
acts of the environment one by one, the lines that the system under test consumes and
writes, the searches for a directive, and how virtual time is granted, passes and is
reported. So every state is in it that the environment could come upon, and any prefix
of it is a point of the run.

The course is read off the run and never leads it. Each piece of work has a course, put
together as the work itself is, from the benches that the work goes through.

What happens does so in order. Between the opening of a window and its report the window
is open. Lines are consumed and time passes only then, and searches are made only
otherwise. `Leads` says this of a course, together with what each happening does to the
lines held and to the policy. That it holds of every run in simulated time is shown of
one piece of work after another.

## Main definitions

* `Happening`, `Point`, `Course`: What happens, with the bench right after it.
* `Bench.runCourse`: The course of a run.
* `Happening.window`: Whether a window is open afterwards.
* `Happening.Fits`: What a happening does to a bench.
* `Leads`: A course that leads from one bench to another.

## Theorems

* `Leads.upTo`: A course leads to every point of it.
* `Bench.leads_runOn`: A program, while a window is open.
* `Bench.covers_waitForDelay`: A wait ends with an open window.
* `Bench.leads_runCourse`: The course of a run leads to its end.
-/

namespace Testbench

inductive Happening
  /-- A line has been accepted. -/
  | arrived (line : Line)
  /-- A line has not been accepted. -/
  | turnedAway (line : Line)
  | closed
  | elapsed (duration : Duration)
  | consumed (line : Line)
  /-- The system under test has written a line. -/
  | wrote (text : String)
  /-- All directives held have been taken out. -/
  | swept (directives : List Line)
  | opened (delay : Duration)
  /-- The end of the window would be beyond the last timestamp. -/
  | refused (delay : Duration)
  | ticked
  | reported (delayed : Duration)
  deriving DecidableEq

structure Point (ε σ : Type) where
  happening : Happening
  bench : Bench ε σ

abbrev Course (ε σ : Type) := List (Point ε σ)

namespace Bench

variable {ε σ α : Type}

/-! ### The course of each piece of work -/

/-- What an act of the environment is to the bench. -/
def meets (b : Bench ε σ) : Act → Happening
  | .push line =>
    match b.inbox.push line with
    | .ok (.held _, _) => .arrived line
    | _ => .turnedAway line
  | .close => .closed
  | .elapse duration => .elapsed duration

def actsCourse (inCall : Bool) : List Act → Bench ε σ → Course ε σ
  | [], _ => []
  | act :: rest, b =>
    ⟨b.meets act, b.receive inCall act⟩ :: actsCourse inCall rest (b.receive inCall act)

/-- The course of what comes after some work, if the work has not stopped. -/
def onward (work : BenchM ε σ α) (b : Bench ε σ) (next : α → Bench ε σ → Course ε σ) :
    Course ε σ :=
  match work b with
  | (.ok a, b) => next a b
  | (.error _, _) => []

def advanceCourse (s : SimulatedTime) (b : Bench ε σ) : Course ε σ :=
  match advance s b with
  | (.ok (), next) => [⟨.ticked, next⟩]
  | (.error _, _) => []

variable [Environment ε]

def turnCourse (moment : Moment) (b : Bench ε σ) : Course ε σ :=
  let (acts, environment) := Environment.acts moment b.environment
  actsCourse moment.isInCall acts { b with environment }

/-- The line is written before the environment acts on it. -/
def deliverCourse (happening : Happening) (text : String) (b : Bench ε σ) : Course ε σ :=
  match Environment.accept text b.environment with
  | (.ok (), environment) =>
    ⟨happening, { b with environment, written := text :: b.written }⟩ ::
      turnCourse (.wrote text) { b with environment, written := text :: b.written }
  | (.error _, _) => []

def answerCourse (b : Bench ε σ) : Call → Course ε σ
  | .inputReady | .resetTime | .value _ => b.turnCourse .access
  | .read =>
    b.turnCourse .access ++ match b.read with
      | (.ok line, next) => [⟨.consumed line, next⟩]
      | (.error _, _) => []
  | .write text => deliverCourse (.wrote text) text (b.note (.outputEmitted text))
  | .note _ _ => []

/-- A directive that is found and well-formed either opens a window or has no window. -/
def openWindowCourse (s : SimulatedTime) (b : Bench ε σ) : Course ε σ :=
  b.turnCourse .access ++ onward (extract wantsDirective) b fun directives swept =>
    ⟨.swept directives, swept⟩ ::
      match directives.head?.bind Line.delay?, openWindow s b with
      | some delay, (.ok _, next) => [⟨.opened delay, next⟩]
      | some delay, (.error _, next) => [⟨.refused delay, next⟩]
      | none, _ => []

def listenCourse (b : Bench ε σ) : Course ε σ :=
  b.turnCourse .access ++
    match (b.turn .access).inbox.register ⟨wantsDirective, ()⟩ with
    | .ok (.pending, _) => (b.turn .access).listening.turnCourse .waiting
    | _ => []

def waitCourse (s : SimulatedTime) (b : Bench ε σ) : Course ε σ :=
  openWindowCourse s b ++ onward (openWindow s) b fun found b =>
    if found then [] else
      listenCourse b ++ onward listen b fun _ b => openWindowCourse s b

def closeWindowCourse (s : SimulatedTime) (b : Bench ε σ) : Course ε σ :=
  deliverCourse (.reported s.delayed) s.report b ++
    onward (raising (deliver s.report)) b fun _ b =>
      waitCourse s ({ b with hasOutput := false }.note (.windowClosed s.delayed))

def startCourse (b : Bench ε σ) : Course ε σ :=
  match b.policy with
  | .realTime _ => []
  | .simulated s => waitCourse s b

def settleCourse (b : Bench ε σ) : Course ε σ :=
  match b.policy with
  | .realTime r =>
    match b.wall.add? r.pollPeriod with
    | some wall => turnCourse .slept { b with phase := .awaitingNextStep, wall }
    | none => []
  | .simulated s =>
    if b.hasOutput || s.isExhausted then
      closeWindowCourse s { b with phase := .awaitingNextStep }
    else advanceCourse s { b with phase := .awaitingNextStep }

end Bench

def Program.course {ε σ α : Type} [Environment ε] : Program α → Bench ε σ → Course ε σ
  | .pure _, _ => []
  | .call c next, b => b.answerCourse c ++ (next (b.answer c).1).course (b.answer c).2

namespace Bench

variable {ε σ : Type} [Environment ε]

def updateCourse (system : System σ) (b : Bench ε σ) : Course ε σ :=
  (system.update.run.run b.system).course b

def transitionsCourse (system : System σ) : Nat → Bench ε σ → Course ε σ
  | 0, _ => []
  | limit + 1, b =>
    updateCourse system b ++ onward system.updateOn b fun progress next =>
      match progress with
      | .transitioned => transitionsCourse system limit next
      | .quiescent => []

def stepCourse (system : System σ) (limit : Nat) (b : Bench ε σ) : Course ε σ :=
  transitionsCourse system limit { b with phase := .running }

def driveCourse (system : System σ) (limit : Nat) : Nat → Bench ε σ → Course ε σ
  | 0, _ => []
  | steps + 1, b =>
    stepCourse system limit b ++ onward (runStep system.updateOn limit) b fun _ b =>
      settleCourse b ++ onward settle b fun _ b => driveCourse system limit steps b

def runCourse (system : System σ) (limit steps : Nat) (b : Bench ε σ) : Course ε σ :=
  startCourse b ++ onward start b fun _ b => driveCourse system limit steps b

end Bench

/-! ### What happens fits -/

/-- What a course is about: the lines held, how time passes and what was written. -/
@[ext]
structure Scene where
  lines : List Line
  policy : Policy
  /-- Newest first. -/
  written : List String

def Bench.scene {ε σ : Type} (b : Bench ε σ) : Scene := ⟨b.inbox.lines, b.policy, b.written⟩

namespace Happening

/-- Whether a window is open afterwards. -/
def window : Happening → Bool → Bool
  | .opened _, _ => true
  | .reported _, _ => false
  | _, isOpen => isOpen

/-- What the happening does, and whether a window has to be open for it. -/
def Fits (isOpen : Bool) (v next : Scene) : Happening → Prop
  | .arrived line => next = { v with lines := v.lines ++ [line] }
  | .consumed line => isOpen = true ∧ v = { next with lines := line :: next.lines }
  | .swept directives => isOpen = false ∧ directives = v.lines.filter Line.isDirective ∧
      next = { v with lines := v.lines.filter fun line => !line.isDirective }
  | .opened delay => isOpen = false ∧ (∀ line ∈ v.lines, line.isDirective = false) ∧
      ∃ s limit, v.policy = .simulated s ∧
        (s.now.add? delay = some limit ∧ ∃ directive : Line, directive.delay? = some delay) ∧
        next = { v with policy := .simulated { s with opened := s.now, limit } }
  | .refused delay => isOpen = false ∧ ∃ s, v.policy = .simulated s ∧ s.now.add? delay = none ∧
      next = { v with policy := .simulated { s with opened := s.now } }
  | .ticked => isOpen = true ∧ ∃ s later, v.policy = .simulated s ∧
      (s.isExhausted = false ∧ s.tick? = some later) ∧ next = { v with policy := .simulated later }
  | .reported delayed => isOpen = true ∧
      next = { v with written := reportOf delayed.millis :: v.written } ∧
      ∃ s, v.policy = .simulated s ∧ delayed = s.delayed
  | .wrote text => next = { v with written := text :: v.written }
  | .turnedAway _ | .closed | .elapsed _ => next = v

theorem Fits.simulated {happening : Happening} {isOpen : Bool} {v next : Scene}
    (h : happening.Fits isOpen v next) (hv : ∃ s, v.policy = .simulated s) :
    ∃ s, next.policy = .simulated s := by
  cases happening with
  | arrived line =>
    rcases h with rfl
    exact hv
  | turnedAway line | closed | elapsed duration | wrote text =>
    rcases h with rfl
    exact hv
  | consumed line =>
    rcases h with ⟨-, rfl⟩
    exact hv
  | swept directives =>
    rcases h with ⟨-, -, rfl⟩
    exact hv
  | opened delay =>
    rcases h with ⟨-, -, s, limit, -, -, rfl⟩
    exact ⟨_, rfl⟩
  | refused delay =>
    rcases h with ⟨-, s, -, -, rfl⟩
    exact ⟨_, rfl⟩
  | ticked =>
    rcases h with ⟨-, s, later, -, -, rfl⟩
    exact ⟨_, rfl⟩
  | reported delayed =>
    rcases h with ⟨-, rfl, -⟩
    exact hv

end Happening

/-- All that happens on the way from one scene to another fits. -/
inductive Leads {ε σ : Type} : Bool → Scene → Course ε σ → Bool → Scene → Prop
  | nil {isOpen : Bool} {v : Scene} : Leads isOpen v [] isOpen v
  | cons {isOpen isOpen' : Bool} {v next : Scene} {p : Point ε σ} {rest : Course ε σ}
      (hfits : p.happening.Fits isOpen v p.bench.scene)
      (hrest : Leads (p.happening.window isOpen) p.bench.scene rest isOpen' next) :
      Leads isOpen v (p :: rest) isOpen' next

/-- The bench at the end of a course that begins at `b`. -/
def lastOf {ε σ : Type} (b : Bench ε σ) : Course ε σ → Bench ε σ
  | [] => b
  | p :: rest => lastOf p.bench rest

namespace Leads

variable {ε σ : Type} {isOpen isOpen' isOpen'' : Bool} {v mid next : Scene}

theorem append {c c' : Course ε σ} (h : Leads isOpen v c isOpen' mid)
    (h' : Leads isOpen' mid c' isOpen'' next) : Leads isOpen v (c ++ c') isOpen'' next := by
  induction h with
  | nil => exact h'
  | cons hfits _ ih => exact .cons hfits (ih h')

theorem single {p : Point ε σ} (h : p.happening.Fits isOpen v p.bench.scene) :
    Leads isOpen v [p] (p.happening.window isOpen) p.bench.scene :=
  .cons h .nil

/-- A course leads to every point of it. -/
theorem upTo {b : Bench ε σ} {past rest : Course ε σ}
    (h : Leads isOpen b.scene (past ++ rest) isOpen' next) :
    ∃ between, Leads isOpen b.scene past between (lastOf b past).scene := by
  induction past generalizing isOpen b with
  | nil => exact ⟨isOpen, .nil⟩
  | cons p past ih =>
    cases h with
    | cons hfits hrest =>
      rcases ih hrest with ⟨between, hpast⟩
      exact ⟨between, .cons hfits hpast⟩

/-- It leads to its last point. -/
theorem last {b : Bench ε σ} {c : Course ε σ} (h : Leads isOpen v c isOpen' next)
    (hv : v = b.scene) : next = (lastOf b c).scene := by
  induction h generalizing b with
  | nil => exact hv
  | cons _ _ ih => exact ih rfl

/-- Time is simulated to the end. -/
theorem simulated {c : Course ε σ} (h : Leads isOpen v c isOpen' next)
    (hv : ∃ s, v.policy = .simulated s) : ∃ s, next.policy = .simulated s := by
  induction h with
  | nil => exact hv
  | cons hfits _ ih => exact ih (hfits.simulated hv)

end Leads

namespace Bench

variable {ε σ : Type}

/-! ### What leads where -/

theorem leads_of_eq {isOpen : Bool} {b next : Bench ε σ} (h : next.scene = b.scene) :
    Leads isOpen b.scene ([] : Course ε σ) isOpen next.scene := by
  rw [h]
  exact .nil

/-- An act of the environment fits at any time, and neither opens a window nor closes one. -/
theorem fits_receive (isOpen inCall : Bool) (b : Bench ε σ) (act : Act) :
    (b.meets act).Fits isOpen b.scene (b.receive inCall act).scene ∧
      (b.meets act).window isOpen = isOpen := by
  cases act with
  | push line =>
    rcases hpush : b.inbox.push line with fault | ⟨_ | due, inbox⟩
    · simp only [meets, receive, hpush]
      exact ⟨rfl, rfl⟩
    · simp only [meets, receive, hpush]
      refine ⟨?_, rfl⟩
      split
      · exact rfl
      · exact rfl
    · rcases Inbox.push_eq_held hpush with ⟨-, -, hlines, -, -⟩
      simp only [meets, receive, hpush, Happening.Fits, Happening.window, scene, hlines, and_self]
  | close => exact ⟨rfl, rfl⟩
  | elapse duration =>
    refine ⟨?_, rfl⟩
    simp only [meets, receive]
    split
    · exact rfl
    · exact rfl

theorem leads_acts (isOpen inCall : Bool) (acts : List Act) (b : Bench ε σ) :
    Leads isOpen b.scene (actsCourse inCall acts b) isOpen
      (acts.foldl (receive inCall) b).scene := by
  induction acts generalizing b with
  | nil => exact .nil
  | cons act rest ih =>
    rcases fits_receive isOpen inCall b act with ⟨hfits, hwindow⟩
    refine .cons hfits ?_
    rw [hwindow]
    exact ih (b.receive inCall act)

/-- The course covers some work: it leads to its end, and whether a window is open then
    is told by the answer. None is open when the input has ended. -/
def Covers {α : Type} (isOpen : Bool) (b : Bench ε σ) (c : Course ε σ)
    (outcome : Except Halt α × Bench ε σ) (isOpenAfter : α → Bool) : Prop :=
  ∃ last, Leads isOpen b.scene c last outcome.2.scene ∧
    (∀ a, outcome.1 = .ok a → last = isOpenAfter a) ∧
    (outcome.1 = .error (.error .inputClosed) → last = false)

namespace Covers

variable {α β : Type} {isOpen : Bool} {b : Bench ε σ} {c : Course ε σ} {work : BenchM ε σ α}
  {f : α → BenchM ε σ β} {after : α → Bool} {afterwards : β → Bool}

theorem bind {next : α → Bench ε σ → Course ε σ} (h : Covers isOpen b c (work b) after)
    (hnext : ∀ a b', work b = (.ok a, b') → Covers (after a) b' (next a b') (f a b') afterwards) :
    Covers isOpen b (c ++ onward work b next) ((work >>= f) b) afterwards := by
  rcases h with ⟨last, hleads, hafter, hended⟩
  rcases hwork : work b with ⟨halt | a, b'⟩
  · rw [hwork] at hleads hended
    simp only [onward, hwork, List.append_nil]
    rw [bind_of_error hwork]
    exact ⟨last, hleads, nofun, fun h => hended (congrArg Except.error (Except.error.inj h))⟩
  · rw [hwork] at hleads hafter
    rcases hnext a b' hwork with ⟨final, hfinal, hfinally⟩
    simp only [onward, hwork]
    rw [bind_of_ok hwork]
    rw [hafter a rfl] at hleads
    exact ⟨final, hleads.append hfinal, hfinally⟩

/-- Something that does not count may be done afterwards. -/
theorem andThen (h : Covers isOpen b c (work b) after)
    (hnext : ∀ a b', work b = (.ok a, b') → (f a b').2.scene = b'.scene ∧
      (∀ answer, (f a b').1 = .ok answer → after a = afterwards answer) ∧
      ((f a b').1 = .error (.error .inputClosed) → after a = false)) :
    Covers isOpen b c ((work >>= f) b) afterwards := by
  have hnothing : c ++ onward work b (fun _ _ => []) = c := by
    unfold onward
    split
    · exact List.append_nil c
    · exact List.append_nil c
  rw [← hnothing]
  refine h.bind fun a b' hwork => ?_
  rcases hnext a b' hwork with ⟨hscene, hanswer⟩
  exact ⟨after a, leads_of_eq hscene, hanswer⟩

end Covers

theorem covers_advance {b : Bench ε σ} {s : SimulatedTime} (h : b.policy = .simulated s)
    (hleft : s.isExhausted = false) :
    Covers true b (advanceCourse s b) (advance s b) fun _ => true := by
  unfold advanceCourse advance
  rcases htick : s.tick? with _ | later
  · exact ⟨true, .nil, fun _ _ => rfl, nofun⟩
  · exact ⟨true, .single ⟨rfl, s, later, h, ⟨hleft, htick⟩, rfl⟩, fun _ _ => rfl, nofun⟩

variable [Environment ε]

theorem leads_turn (isOpen : Bool) (moment : Moment) (b : Bench ε σ) :
    Leads isOpen b.scene (b.turnCourse moment) isOpen (b.turn moment).scene :=
  leads_acts isOpen moment.isInCall (Environment.acts moment b.environment).1
    { b with environment := (Environment.acts moment b.environment).2 }

/-- A line that is not taken leaves things as they are. -/
theorem leads_deliver {isOpen : Bool} {happening : Happening} (text : String) {b : Bench ε σ}
    (h : happening.Fits isOpen b.scene { b.scene with written := text :: b.written }) :
    ∃ last, Leads isOpen b.scene (deliverCourse happening text b) last
        (b.deliver text).2.scene ∧
      (last = happening.window isOpen ∨
        (last = isOpen ∧ ∃ cause, (b.deliver text).1 = .error (.output cause))) := by
  rcases haccept : Environment.accept text b.environment with ⟨cause | _, environment⟩
  · simp only [deliverCourse, deliver, haccept]
    exact ⟨isOpen, leads_of_eq rfl, .inr ⟨rfl, _, rfl⟩⟩
  · simp only [deliverCourse, deliver, haccept]
    exact ⟨_, .cons h (leads_turn _ _ _), .inl rfl⟩

theorem leads_answer (b : Bench ε σ) (c : Call) :
    Leads true b.scene (b.answerCourse c) true (b.answer c).2.scene := by
  cases c with
  | inputReady | resetTime | value clock => exact leads_turn true .access b
  | read =>
    refine (leads_turn true .access b).append ?_
    cases hlines : (b.turn .access).inbox.lines with
    | nil =>
      have hread : b.read = (.error .noInput, b.turn .access) := by
        simp only [read, Inbox.read?, hlines]
      simp only [answer, hread]
      exact .nil
    | cons line rest =>
      simp only [answer, read, Inbox.read?, hlines]
      refine .single ⟨rfl, ?_⟩
      simp only [scene, hlines]
      rfl
  | write text =>
    have hfits : (Happening.wrote text).Fits true (b.note (.outputEmitted text)).scene
      { (b.note (.outputEmitted text)).scene with written := text :: b.written } := rfl
    rcases leads_deliver text hfits with ⟨last, hleads, rfl | ⟨rfl, -⟩⟩
    · exact hleads
    · exact hleads
  | note system fields => exact leads_of_eq rfl

/-- A program, while a window is open. -/
theorem leads_runOn {α : Type} (p : Program α) (b : Bench ε σ) :
    Leads true b.scene (p.course b) true (p.runOn b).2.scene := by
  induction p generalizing b with
  | pure a => exact .nil
  | call c next ih => exact (leads_answer b c).append (ih _ _)

theorem leads_updateOn (system : System σ) (b : Bench ε σ) :
    Leads true b.scene (updateCourse system b) true (system.updateOn b).2.scene := by
  have hscene : (system.updateOn b).2.scene
      = ((system.update.run.run b.system).runOn b).2.scene := by
    rw [updateOn_eq]
    rfl
  rw [hscene]
  exact leads_runOn _ b

theorem leads_transitions (system : System σ) (limit count : Nat) (b : Bench ε σ) :
    Leads true b.scene (transitionsCourse system limit b) true
      (transitions system.updateOn limit count b).2.scene := by
  induction limit generalizing count b with
  | zero => exact .nil
  | succ limit ih =>
    have hupdate := leads_updateOn system b
    unfold transitionsCourse transitions onward
    rcases hresult : system.updateOn b with ⟨halt | _ | _, next⟩
    · rw [hresult] at hupdate
      exact hupdate.append .nil
    · rw [hresult] at hupdate
      exact hupdate.append (ih (count + 1) next)
    · rw [hresult] at hupdate
      exact hupdate.append .nil

theorem leads_runStep (system : System σ) (limit : Nat) (b : Bench ε σ) :
    Leads true b.scene (stepCourse system limit b) true
      (runStep system.updateOn limit b).2.scene := by
  have htransitions := leads_transitions system limit 0 { b with phase := .running }
  rcases hrun : transitions system.updateOn limit 0 { b with phase := .running } with
    ⟨halt | count, next⟩
  · rw [hrun] at htransitions
    rw [runStep_of_error hrun]
    exact htransitions
  · rw [hrun] at htransitions
    rw [runStep_of_ok hrun]
    exact htransitions

/-! ### Windows -/

theorem covers_openWindow {b : Bench ε σ} {s : SimulatedTime} (h : b.policy = .simulated s) :
    Covers false b (openWindowCourse s b) (openWindow s b) id := by
  have hpolicy : (b.turn .access).policy = .simulated s :=
    (congrArg Own.policy (own_turn .access b)).trans h
  have hwritten : (b.turn .access).written = b.written :=
    congrArg Own.written (own_turn .access b)
  have hturn := leads_turn false .access b
  unfold openWindowCourse onward
  rw [extract_directives]
  -- What is found first decides what is left to say after the sweep.
  rcases hfound : (b.turn .access).inbox.lines.filter Line.isDirective with
    _ | ⟨directive, superseded⟩
  · have hnone : ∀ line ∈ (b.turn .access).inbox.lines, line.isDirective = false :=
      fun line hline => Bool.eq_false_iff.mpr (List.filter_eq_nil_iff.mp hfound line hline)
    have hkept : (b.turn .access).inbox.lines.filter (fun line => !line.isDirective)
        = (b.turn .access).inbox.lines :=
      List.filter_eq_self.mpr fun line hline => by rw [hnone line hline, Bool.not_false]
    rw [openWindow_of_none s hnone]
    refine ⟨false, hturn.append (.cons ⟨rfl, hfound.symm, rfl⟩ (leads_of_eq ?_)),
      fun found hanswer => Except.ok.inj hanswer, fun _ => rfl⟩
    exact Scene.ext hkept.symm rfl rfl
  · rcases hdelay : directive.delay? with _ | delay
    · rcases openWindow_of_malformed s hfound hdelay with ⟨next, hopen, hown, -, hinbox⟩
      rw [hopen]
      simp only [List.head?_cons, Option.bind_some, hdelay]
      refine ⟨false, hturn.append (.cons ⟨rfl, hfound.symm, rfl⟩ (leads_of_eq ?_)),
        (fun _ hanswer => by cases hanswer), fun _ => rfl⟩
      exact Scene.ext (congrArg Inbox.lines hinbox)
        ((congrArg Own.policy hown).trans (h.trans hpolicy.symm))
        ((congrArg Own.written hown).trans hwritten.symm)
    · rcases openWindow_of_directive s hfound hdelay with ⟨next, hopen, hown, -, hinbox⟩
      have hlines := congrArg Inbox.lines hinbox
      have htime := congrArg Own.policy hown
      have hsame := (congrArg Own.written hown).trans hwritten.symm
      rw [hopen]
      simp only [List.head?_cons, Option.bind_some, hdelay]
      rcases hadd : s.now.add? delay with _ | limit
      · simp only [SimulatedTime.grant, hadd] at htime
        simp only [SimulatedTime.grant, hadd, allowed]
        refine ⟨false, hturn.append (.cons ⟨rfl, hfound.symm, rfl⟩ (.single
          ⟨rfl, s, hpolicy, hadd, Scene.ext hlines htime hsame⟩)),
          (fun _ hanswer => by cases hanswer), fun _ => rfl⟩
      · simp only [SimulatedTime.grant, hadd] at htime
        simp only [SimulatedTime.grant, hadd, allowed]
        refine ⟨true, hturn.append (.cons ⟨rfl, hfound.symm, rfl⟩ (.single
          ⟨rfl, ?_, s, limit, hpolicy, ⟨hadd, directive, hdelay⟩, Scene.ext hlines htime hsame⟩)),
          fun found hanswer => Except.ok.inj hanswer, (fun hended => by cases hended)⟩
        -- The sweep has left no directive behind.
        intro line hline
        have hplain := (List.mem_filter.mp hline).2
        rw [Bool.not_eq_true'] at hplain
        exact hplain

/-- A search that was in vain changes nothing of the bench's own. -/
theorem own_openWindow_of_vain {b next : Bench ε σ} {s : SimulatedTime}
    (h : openWindow s b = (.ok false, next)) : next.own = b.own := by
  rcases hfound : (b.turn .access).inbox.lines.filter Line.isDirective with
    _ | ⟨directive, superseded⟩
  · rw [openWindow_of_nothing s hfound] at h
    rw [← (Prod.mk.inj h).2, own_turn]
  · rcases hdelay : directive.delay? with _ | delay
    · rcases openWindow_of_malformed s hfound hdelay with ⟨_, hopen, -⟩
      rw [hopen] at h
      exact absurd (Prod.mk.inj h).1 nofun
    · rcases openWindow_of_directive s hfound hdelay with ⟨_, hopen, -⟩
      rw [hopen] at h
      exact absurd (Prod.mk.inj h).1 (allowed_ne _)

theorem own_listen (b : Bench ε σ) : (listen b).2.own = b.own := by
  rcases listen_cases b with ⟨-, hlisten⟩ | ⟨-, hlisten⟩ | ⟨-, result, -, hlisten⟩
  · rw [hlisten]
    exact own_turn .access b
  · rw [hlisten]
    exact own_turn .access b
  · rw [hlisten, own_turn]
    exact own_turn .access b

theorem leads_listen (b : Bench ε σ) :
    Leads false b.scene (listenCourse b) false (listen b).2.scene := by
  have hturn := leads_turn false .access b
  unfold listenCourse
  rcases listen_cases b with ⟨hregister, hlisten⟩ | ⟨hregister, hlisten⟩ |
    ⟨hregister, result, -, hlisten⟩
  · rw [hlisten, hregister]
    exact hturn.append .nil
  · rw [hlisten, hregister]
    exact hturn.append .nil
  · rw [hlisten, hregister]
    exact hturn.append (leads_turn false .waiting (b.turn .access).listening)

/-- A wait ends with an open window, if it ends well. -/
theorem covers_waitForDelay {b : Bench ε σ} {s : SimulatedTime} (h : b.policy = .simulated s) :
    Covers false b (waitCourse s b) (waitForDelay s b) fun _ => true := by
  unfold waitCourse waitForDelay
  refine (covers_openWindow h).bind fun found b₁ hfirst => ?_
  cases found with
  | true => exact ⟨true, .nil, fun _ _ => rfl, nofun⟩
  | false =>
    have hpolicy₁ : b₁.policy = .simulated s :=
      (congrArg Own.policy (own_openWindow_of_vain hfirst)).trans h
    simp only [Bool.false_eq_true, if_false]
    refine Covers.bind ⟨false, leads_listen b₁, fun _ _ => rfl, fun _ => rfl⟩ fun _ b₂ hlisten => ?_
    have hpolicy₂ : b₂.policy = .simulated s := by
      have hown := congrArg Own.policy (own_listen b₁)
      rw [hlisten] at hown
      exact hown.trans hpolicy₁
    refine (covers_openWindow hpolicy₂).andThen fun found b₃ _ => ?_
    cases found with
    | true => exact ⟨rfl, fun _ _ => rfl, nofun⟩
    | false => exact ⟨rfl, nofun, fun _ => rfl⟩

theorem covers_start {b : Bench ε σ} {s : SimulatedTime} (h : b.policy = .simulated s) :
    Covers false b (startCourse b) (start b) fun _ => true := by
  unfold startCourse
  rw [start_simulated h, h]
  exact (covers_waitForDelay h).andThen fun _ _ _ => ⟨rfl, fun _ _ => rfl, nofun⟩

theorem covers_closeWindow {b : Bench ε σ} {s : SimulatedTime} (h : b.policy = .simulated s) :
    Covers true b (closeWindowCourse s b) (closeWindow s b) fun _ => true := by
  have hreport : Covers true b (deliverCourse (.reported s.delayed) s.report b)
      (raising (deliver s.report) b) fun _ => false := by
    have hfits : (Happening.reported s.delayed).Fits true b.scene
        { b.scene with written := s.report :: b.written } := ⟨rfl, rfl, s, h, rfl⟩
    rcases leads_deliver s.report hfits with ⟨last, hleads, hlast⟩
    unfold raising
    rcases hdeliver : b.deliver s.report with ⟨cause | _, next⟩
    · rw [hdeliver] at hleads hlast
      refine ⟨last, hleads, nofun, fun hended => ?_⟩
      -- A line that is not taken is a failure of the channel, and no end of the input.
      rcases hlast with rfl | ⟨-, failure, hfailure⟩
      · rfl
      · rw [Except.error.inj hfailure] at hended
        exact absurd hended nofun
    · rw [hdeliver] at hleads hlast
      rcases hlast with rfl | ⟨-, cause, hcause⟩
      · exact ⟨false, hleads, fun _ _ => rfl, nofun⟩
      · exact absurd hcause nofun
  unfold closeWindowCourse closeWindow
  refine hreport.bind fun _ next hdeliver => ?_
  rw [bind_of_ok (x := modify _) rfl]
  have hpolicy : next.policy = .simulated s := by
    rcases own_deliver s.report b with ⟨new, hnew⟩
    have hsame : next = (b.deliver s.report).2 := by
      unfold raising at hdeliver
      split at hdeliver
      · next htaken => rw [htaken, (Prod.mk.inj hdeliver).2]
      · exact absurd (Prod.mk.inj hdeliver).1 nofun
    rw [hsame]
    exact (congrArg Own.policy hnew).trans h
  exact covers_waitForDelay (b := { next with hasOutput := false }.note _) hpolicy

theorem settleCourse_simulated {b : Bench ε σ} {s : SimulatedTime} (h : b.policy = .simulated s) :
    settleCourse b = if b.hasOutput || s.isExhausted then
      closeWindowCourse s { b with phase := .awaitingNextStep }
      else advanceCourse s { b with phase := .awaitingNextStep } := by
  unfold settleCourse
  split
  · next r hreal => exact absurd (hreal.symm.trans h) nofun
  · next s' hsimulated => rw [Policy.simulated.inj (hsimulated.symm.trans h)]

theorem covers_settle {b : Bench ε σ} {s : SimulatedTime} (h : b.policy = .simulated s) :
    Covers true b (settleCourse b) (settle b) fun _ => true := by
  have hphase : ({ b with phase := .awaitingNextStep } : Bench ε σ).policy = .simulated s := h
  rw [settle_simulated h, settleCourse_simulated h]
  by_cases hclose : (b.hasOutput || s.isExhausted) = true
  · rw [if_pos hclose, if_pos hclose]
    refine (covers_closeWindow hphase).andThen ?_
    exact fun _ _ _ => ⟨rfl, fun _ _ => rfl, nofun⟩
  · rw [if_neg hclose, if_neg hclose]
    have hleft : s.isExhausted = false := by
      rw [Bool.not_eq_true, Bool.or_eq_false_iff] at hclose
      exact hclose.2
    refine (covers_advance hphase hleft).andThen ?_
    exact fun _ _ _ => ⟨rfl, fun _ _ => rfl, nofun⟩

/-! ### Runs -/

theorem leads_driveCourse (system : System σ) (limit steps : Nat) {b : Bench ε σ}
    (h : ∃ s, b.policy = .simulated s) :
    ∃ last, Leads true b.scene (driveCourse system limit steps b) last
      (drive system.updateOn limit steps b).2.scene := by
  induction steps generalizing b with
  | zero => exact ⟨true, .nil⟩
  | succ steps ih =>
    have hstep := leads_runStep system limit b
    unfold driveCourse onward
    rcases hrun : runStep system.updateOn limit b with ⟨halt | count, b₁⟩
    · rw [hrun] at hstep
      rw [(drive_of_error steps (cycle_of_stopped hrun)).1]
      exact ⟨true, hstep.append .nil⟩
    · rw [hrun] at hstep
      rcases hstep.simulated h with ⟨s, hpolicy⟩
      rcases covers_settle (b := b₁) hpolicy with ⟨last, hleads, hopen, -⟩
      simp only
      rcases hsettle : settle b₁ with ⟨halt | _, b₂⟩
      · rw [hsettle] at hleads
        rw [(drive_of_error steps (cycle_of_unsettled hrun hsettle)).1]
        exact ⟨last, hstep.append (hleads.append .nil)⟩
      · rw [hsettle] at hleads hopen
        rw [hopen () rfl] at hleads
        rw [(drive_of_ok steps (cycle_of_settled hrun hsettle)).1]
        rcases ih (hleads.simulated ⟨s, hpolicy⟩) with ⟨final, hrest⟩
        exact ⟨final, hstep.append (hleads.append hrest)⟩

/-- The course of a run leads to its end. -/
theorem leads_runCourse (system : System σ) (limit steps : Nat) {b : Bench ε σ}
    {s : SimulatedTime} (h : b.policy = .simulated s) :
    ∃ last, Leads false b.scene (runCourse system limit steps b) last
      (run system.updateOn limit steps b).2.scene := by
  have hstart := covers_start h
  unfold runCourse onward
  rcases hresult : start b with ⟨halt | _, next⟩
  · have hend : (run system.updateOn limit steps b).2.scene = next.scene := by
      simp only [run, hresult]
      split
      · rfl
      · rfl
    rw [hresult] at hstart
    rcases hstart with ⟨last, hleads, -⟩
    rw [hend]
    exact ⟨last, hleads.append .nil⟩
  · have hend : (run system.updateOn limit steps b).2.scene
        = (drive system.updateOn limit steps next).2.scene := by
      simp only [run, hresult]
      split
      · rfl
      · rfl
    rw [hresult] at hstart
    rcases hstart with ⟨last, hleads, hopen, -⟩
    rw [hopen () rfl] at hleads
    rcases leads_driveCourse system limit steps (hleads.simulated ⟨s, h⟩) with ⟨final, hrest⟩
    rw [hend]
    exact ⟨final, hleads.append hrest⟩

end Bench

end Testbench
