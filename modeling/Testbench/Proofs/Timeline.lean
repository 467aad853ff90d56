import Mathlib.Data.List.Basic
import Testbench.Proofs.InputOrder
import Testbench.Proofs.Stages
import Testbench.Proofs.VirtualTime

/-!
# The Timeline of a Run

Virtual time has a ledger. A window is granted some milliseconds, uses some of them one
by one, and is reported with what it has used. Nothing else lets virtual time pass, so the
windows of a run account for all of it: what has passed since the start is what the
reports say, and what the open window has used if there is one.

The timeline of a course is what it has of grants, milliseconds and reports. A `Span`
stands for one window, and the timeline of any point of a run is that of the windows
reported by then, and of at most one more, which is still open. What is used is bounded
by what is granted, because a millisecond passes only if the window is not over.

A window is granted by a directive. Which one is told by the course as well: right before
the opening all directives were taken out, and the earliest of them has the delay of the
window.

## Main definitions

* `Span`: A window, by the milliseconds granted and used.
* `timeline`: What happens to virtual time along a course.
* `grantedIn`, `reportedIn`: The milliseconds granted and reported.
* `writtenIn`: The lines written.
* `Accounts`: The windows account for the time that has passed.
* `IsFounded`: Every window is granted by a directive.

## Theorems

* `Happening.Fits.accounts`: What one happening does to the accounts.
* `Leads.accounts`: The accounts along a course.
* `Bench.isFounded_runCourse`: The directives of a run.
* `Bench.every_millisecond_is_accounted_for`: The accounts at every point of a run.
-/

namespace Testbench

namespace Happening

/-- Something happens to virtual time. -/
def isTemporal : Happening → Bool
  | .opened _ | .ticked | .reported _ => true
  | _ => false

def grant? : Happening → Option Nat
  | .opened delay => some delay.millis
  | _ => none

def report? : Happening → Option Nat
  | .reported delayed => some delayed.millis
  | _ => none

/-- The line that is written. -/
def text? : Happening → Option String
  | .wrote text => some text
  | .reported delayed => some (reportOf delayed.millis)
  | _ => none

/-- A window is opened by the earliest of the directives just taken out. -/
def IsFoundedOn (previous : Option Happening) : Happening → Prop
  | .opened delay => ∃ directive superseded,
      previous = some (.swept (directive :: superseded)) ∧ directive.delay? = some delay
  | _ => True

theorem grant?_of_not_temporal (happening : Happening) (h : happening.isTemporal = false) :
    happening.grant? = none := by
  cases happening with
  | opened delay => exact absurd h nofun
  | _ => rfl

theorem report?_of_not_temporal (happening : Happening) (h : happening.isTemporal = false) :
    happening.report? = none := by
  cases happening with
  | reported delayed => exact absurd h nofun
  | _ => rfl

end Happening

/-- A window, in milliseconds. -/
structure Span where
  granted : Nat
  used : Nat

namespace Span

/-- What happens to virtual time until now, if the window is still open. -/
def begun (w : Span) : List Happening :=
  .opened (.ofMillis w.granted) :: List.replicate w.used .ticked

def ended (w : Span) : List Happening := w.begun ++ [.reported (.ofMillis w.used)]

theorem begun_succ (w : Span) :
    begun { w with used := w.used + 1 } = w.begun ++ [.ticked] := by
  simp only [begun, List.replicate_succ', List.cons_append]

end Span

variable {ε σ : Type}

def happenings (c : Course ε σ) : List Happening := c.map Point.happening

def timeline (c : Course ε σ) : List Happening := (happenings c).filter Happening.isTemporal

def grantedIn (c : Course ε σ) : List Nat := (happenings c).filterMap Happening.grant?

def reportedIn (c : Course ε σ) : List Nat := (happenings c).filterMap Happening.report?

def writtenIn (c : Course ε σ) : List String := (happenings c).filterMap Happening.text?

/-- Every window along the course is granted by a directive, where `previous` has happened
    right before. -/
def IsFounded : Option Happening → Course ε σ → Prop
  | _, [] => True
  | previous, p :: rest => p.happening.IsFoundedOn previous ∧ IsFounded (some p.happening) rest

/-! ### Views of a course -/

theorem timeline_append (c c' : Course ε σ) : timeline (c ++ c') = timeline c ++ timeline c' := by
  simp only [timeline, happenings, List.map_append, List.filter_append]

theorem filterMap_timeline {α : Type} {f : Happening → Option α}
    (hf : ∀ happening : Happening, happening.isTemporal = false → f happening = none)
    (c : Course ε σ) : (happenings c).filterMap f = (timeline c).filterMap f := by
  rw [timeline, List.filterMap_filter]
  refine List.filterMap_congr fun happening _ => ?_
  split
  · rfl
  · next hoff => exact hf happening (Bool.eq_false_iff.mpr hoff)

theorem filterMap_ticked {α : Type} {f : Happening → Option α} (hf : f .ticked = none)
    (count : Nat) : (List.replicate count Happening.ticked).filterMap f = [] :=
  List.filterMap_eq_nil_iff.mpr fun happening hmem => by rw [List.eq_of_mem_replicate hmem, hf]

theorem filterMap_ended {α : Type} {f : Happening → Option α} {g : Span → α}
    (hf : ∀ w : Span, w.ended.filterMap f = [g w]) (closed : List Span) :
    (closed.flatMap Span.ended).filterMap f = closed.map g := by
  induction closed with
  | nil => rfl
  | cons w rest ih => rw [List.flatMap_cons, List.filterMap_append, hf, ih]; rfl

theorem filterMap_grant_begun (w : Span) : w.begun.filterMap Happening.grant? = [w.granted] := by
  simp only [Span.begun, List.filterMap_cons, Happening.grant?, Duration.millis_ofMillis,
    filterMap_ticked (f := Happening.grant?) rfl]

theorem filterMap_report_begun (w : Span) : w.begun.filterMap Happening.report? = [] := by
  simp only [Span.begun, List.filterMap_cons, Happening.report?,
    filterMap_ticked (f := Happening.report?) rfl]

/-! ### Accounts -/

/-- The windows `closed` and `current` account for the time that has passed since `start`. -/
structure Accounts (start : Timestamp) (past : Course ε σ) (isOpen : Bool) (s : SimulatedTime)
    (closed : List Span) (current : Option Span) : Prop where
  timeline : timeline past = closed.flatMap Span.ended ++ current.toList.flatMap Span.begun
  isOpen : current.isSome = isOpen
  bounded : ∀ w ∈ closed ++ current.toList, w.used ≤ w.granted
  now : s.now.nanos
    = start.nanos + (((closed ++ current.toList).map Span.used).sum : Nat) * 1000000
  elapsed : ∀ w ∈ current, s.now.nanos = s.opened.nanos + (w.used : Int) * 1000000
  limit : ∀ w ∈ current, s.limit.nanos = s.opened.nanos + (w.granted : Int) * 1000000

namespace Accounts

variable {start : Timestamp} {past : Course ε σ} {isOpen : Bool} {s : SimulatedTime}
  {closed : List Span} {current : Option Span} {p : Point ε σ}

theorem atFirst (s : SimulatedTime) : Accounts s.now ([] : Course ε σ) false s [] none :=
  ⟨rfl, rfl, fun _ hw => absurd hw List.not_mem_nil, (Int.add_zero _).symm, nofun, nofun⟩

/-- The window that is open. -/
theorem exists_current (h : Accounts start past true s closed current) : ∃ w, current = some w :=
  Option.isSome_iff_exists.mp h.isOpen

theorem eq_none (h : Accounts start past false s closed current) : current = none :=
  Option.isNone_iff_eq_none.mp (Option.isSome_eq_false_iff.mp h.isOpen)

theorem timeline_snoc (h : Accounts start past isOpen s closed current) :
    Testbench.timeline (past ++ [p])
      = closed.flatMap Span.ended ++ current.toList.flatMap Span.begun
        ++ [p.happening].filter Happening.isTemporal := by
  rw [timeline_append, h.timeline]
  rfl

/-- What is no matter of virtual time does not count. -/
theorem kept (h : Accounts start past isOpen s closed current)
    (hp : p.happening.isTemporal = false) :
    Accounts start (past ++ [p]) isOpen s closed current := by
  refine ⟨?_, h.isOpen, h.bounded, h.now, h.elapsed, h.limit⟩
  rw [h.timeline_snoc, List.filter_cons_of_neg (ne_true_of_eq_false hp), List.filter_nil,
    List.append_nil]

/-- A moment of opening that no window follows does not count either. -/
theorem refused (h : Accounts start past false s closed current) :
    Accounts start past false { s with opened := s.now } closed current := by
  rcases h.eq_none with rfl
  exact ⟨h.timeline, rfl, h.bounded, h.now, nofun, nofun⟩

theorem opened {granted : Nat} {limit : Timestamp}
    (h : Accounts start past false s closed current)
    (hp : p.happening = .opened (.ofMillis granted))
    (hlimit : s.now.add? (.ofMillis granted) = some limit) :
    Accounts start (past ++ [p]) true { s with opened := s.now, limit } closed
      (some ⟨granted, 0⟩) := by
  rcases h.eq_none with rfl
  refine ⟨?_, rfl, ?_, ?_, ?_, ?_⟩
  · rw [h.timeline_snoc, hp]
    simp [Happening.isTemporal, Span.begun]
  · intro w hw
    rcases List.mem_append.mp hw with hold | hnew
    · exact h.bounded w (List.mem_append_left _ hold)
    · rw [List.mem_singleton.mp hnew]
      exact Nat.zero_le _
  · have hnow := h.now
    simpa using hnow
  · intro w hw
    rw [← Option.mem_some.mp hw]
    simp
  · intro w hw
    rw [← Option.mem_some.mp hw]
    exact Timestamp.add?_eq_some.mp hlimit

/-- A millisecond passes in the window that is open, and was granted. -/
theorem ticked {later : SimulatedTime} (h : Accounts start past true s closed current)
    (hp : p.happening = .ticked) (hleft : s.isExhausted = false) (hlater : s.tick? = some later) :
    ∃ w, Accounts start (past ++ [p]) true later closed (some w) := by
  rcases h.exists_current with ⟨w, rfl⟩
  rcases SimulatedTime.tick?_cases hlater with ⟨now, rfl, hnow⟩
  have hused := h.elapsed w rfl
  have hgranted := h.limit w rfl
  -- The present and the end of the window are whole milliseconds away from its opening.
  have hmore : w.used + 1 ≤ w.granted := by
    have hbefore : ¬ s.limit.nanos ≤ s.now.nanos := of_decide_eq_false hleft
    omega
  refine ⟨{ w with used := w.used + 1 }, ?_, rfl, ?_, ?_, ?_, ?_⟩
  · rw [h.timeline_snoc, hp]
    simp [Happening.isTemporal, Span.begun_succ]
  · intro w' hw'
    rcases List.mem_append.mp hw' with hold | hnew
    · exact h.bounded w' (List.mem_append_left _ hold)
    · rw [List.mem_singleton.mp hnew]
      exact hmore
  · have htotal := h.now
    simp only [Option.toList_some, List.map_append, List.map_singleton, List.sum_append,
      List.sum_singleton] at htotal ⊢
    omega
  · intro w' hw'
    rw [← Option.mem_some.mp hw']
    change now.nanos = s.opened.nanos + ((w.used + 1 : Nat) : Int) * 1000000
    omega
  · intro w' hw'
    rw [← Option.mem_some.mp hw']
    exact hgranted

/-- A report tells what the window has used. -/
theorem reported (h : Accounts start past true s closed current)
    (hp : p.happening = .reported s.delayed) :
    ∃ w, Accounts start (past ++ [p]) false s (closed ++ [w]) none := by
  rcases h.exists_current with ⟨w, rfl⟩
  -- No part of a millisecond has passed that the report could leave out.
  have hused : s.delayed = .ofMillis w.used :=
    Timestamp.since_of_add? (Timestamp.add?_eq_some.mpr (h.elapsed w rfl))
  refine ⟨w, ?_, rfl, ?_, ?_, nofun, nofun⟩
  · rw [h.timeline_snoc, hp, hused]
    simp [Happening.isTemporal, Span.ended]
  · intro w' hw'
    exact h.bounded w' (by simpa using hw')
  · have htotal := h.now
    simpa using htotal

/-- The windows grant what the course says. -/
theorem grantedIn_eq (h : Accounts start past isOpen s closed current) :
    grantedIn past = (closed ++ current.toList).map Span.granted := by
  have hended : ∀ w : Span, w.ended.filterMap Happening.grant? = [w.granted] := fun w => by
    rw [Span.ended, List.filterMap_append, filterMap_grant_begun]
    rfl
  rw [grantedIn, filterMap_timeline Happening.grant?_of_not_temporal, h.timeline,
    List.filterMap_append, filterMap_ended hended, List.map_append]
  cases current with
  | none => rfl
  | some w => exact congrArg _ (by simp [filterMap_grant_begun])

/-- The windows that are closed have used what was reported. -/
theorem reportedIn_eq (h : Accounts start past isOpen s closed current) :
    reportedIn past = closed.map Span.used := by
  have hended : ∀ w : Span, w.ended.filterMap Happening.report? = [w.used] := fun w => by
    rw [Span.ended, List.filterMap_append, filterMap_report_begun]
    simp [Happening.report?]
  rw [reportedIn, filterMap_timeline Happening.report?_of_not_temporal, h.timeline,
    List.filterMap_append, filterMap_ended hended]
  cases current with
  | none => exact List.append_nil _
  | some w => exact (congrArg _ (by simp [filterMap_report_begun])).trans (List.append_nil _)

/-- What has passed was reported, or has passed in the window that is open. -/
theorem passed (h : Accounts start past isOpen s closed current) :
    s.now.nanos - start.nanos = ((reportedIn past).sum : Nat) * 1000000
      + (if current.isSome then s.now.nanos - s.opened.nanos else 0) := by
  have hnow := h.now
  rw [h.reportedIn_eq]
  cases current with
  | none =>
    simp only [Option.toList_none, List.append_nil, Option.isSome_none] at hnow ⊢
    simp only [Bool.false_eq_true, if_false]
    omega
  | some w =>
    have helapsed := h.elapsed w rfl
    simp only [Option.toList_some, List.map_append, List.map_singleton, List.sum_append,
      List.sum_singleton] at hnow
    simp only [Option.isSome_some, if_true]
    omega

end Accounts

/-! ### What a happening does to the accounts -/

theorem Happening.Fits.accounts {start : Timestamp} {past : Course ε σ} {isOpen : Bool}
    {s : SimulatedTime} {closed : List Span} {current : Option Span} {v : Scene} {p : Point ε σ}
    (h : p.happening.Fits isOpen v p.bench.scene) (hv : v.policy = .simulated s)
    (haccounts : Accounts start past isOpen s closed current) :
    ∃ s' closed' current', p.bench.scene.policy = .simulated s' ∧
      Accounts start (past ++ [p]) (p.happening.window isOpen) s' closed' current' := by
  rcases p with ⟨happening, next⟩
  generalize next.scene = scene at h ⊢
  cases happening with
  | arrived line | turnedAway line | closed | elapsed duration | wrote text =>
    rcases h with rfl
    exact ⟨s, closed, current, hv, haccounts.kept rfl⟩
  | consumed line =>
    rcases h with ⟨-, rfl⟩
    exact ⟨s, closed, current, hv, haccounts.kept rfl⟩
  | swept directives =>
    rcases h with ⟨-, -, rfl⟩
    exact ⟨s, closed, current, hv, haccounts.kept rfl⟩
  | opened delay =>
    rcases h with ⟨rfl, -, s', limit, hpolicy, ⟨hlimit, directive, hdelay⟩, rfl⟩
    rcases Policy.simulated.inj (hv.symm.trans hpolicy) with rfl
    -- A directive counts whole milliseconds.
    rcases Line.delay?_eq_some_iff.mp hdelay with ⟨digits, -, -, -, -, rfl⟩
    exact ⟨_, closed, _, rfl, haccounts.opened rfl hlimit⟩
  | refused delay =>
    rcases h with ⟨rfl, s', hpolicy, -, rfl⟩
    rcases Policy.simulated.inj (hv.symm.trans hpolicy) with rfl
    exact ⟨_, closed, current, rfl, haccounts.refused.kept rfl⟩
  | ticked =>
    rcases h with ⟨rfl, s', later, hpolicy, ⟨hleft, hlater⟩, rfl⟩
    rcases Policy.simulated.inj (hv.symm.trans hpolicy) with rfl
    rcases haccounts.ticked (p := ⟨.ticked, next⟩) rfl hleft hlater with ⟨w, hnow⟩
    exact ⟨later, closed, some w, rfl, hnow⟩
  | reported delayed =>
    rcases h with ⟨rfl, rfl, s', hpolicy, rfl⟩
    rcases Policy.simulated.inj (hv.symm.trans hpolicy) with rfl
    rcases haccounts.reported (p := ⟨.reported s.delayed, next⟩) rfl with ⟨w, hnow⟩
    exact ⟨s, closed ++ [w], none, hv, hnow⟩

theorem Leads.accounts {start : Timestamp} {past c : Course ε σ} {isOpen isOpen' : Bool}
    {s : SimulatedTime} {closed : List Span} {current : Option Span} {v next : Scene}
    (h : Leads isOpen v c isOpen' next) (hv : v.policy = .simulated s)
    (haccounts : Accounts start past isOpen s closed current) :
    ∃ s' closed' current', next.policy = .simulated s' ∧
      Accounts start (past ++ c) isOpen' s' closed' current' := by
  induction h generalizing past s closed current with
  | nil => exact ⟨s, closed, current, hv, by rwa [List.append_nil]⟩
  | @cons _ _ _ _ p rest hfits _ ih =>
    rcases hfits.accounts hv haccounts with ⟨s', closed', current', hpolicy, hnow⟩
    rw [← List.singleton_append, ← List.append_assoc]
    exact ih hpolicy hnow

/-- What was written is what the course says. -/
theorem Happening.Fits.written {isOpen : Bool} {happening : Happening} {v next : Scene}
    (h : happening.Fits isOpen v next) :
    next.written.reverse = v.written.reverse ++ happening.text?.toList := by
  have hkept : v.written.reverse = v.written.reverse ++ [] := (List.append_nil _).symm
  cases happening with
  | arrived line | turnedAway line | closed | elapsed duration =>
    rcases h with rfl
    exact hkept
  | wrote text =>
    rcases h with rfl
    exact List.reverse_cons
  | consumed line =>
    rcases h with ⟨-, rfl⟩
    exact hkept
  | swept directives =>
    rcases h with ⟨-, -, rfl⟩
    exact hkept
  | opened delay =>
    rcases h with ⟨-, -, s, limit, -, -, rfl⟩
    exact hkept
  | refused delay =>
    rcases h with ⟨-, s, -, -, rfl⟩
    exact hkept
  | ticked =>
    rcases h with ⟨-, s, later, -, -, rfl⟩
    exact hkept
  | reported delayed =>
    rcases h with ⟨-, rfl, -⟩
    exact List.reverse_cons

theorem Leads.written {isOpen isOpen' : Bool} {c : Course ε σ} {v next : Scene}
    (h : Leads isOpen v c isOpen' next) :
    next.written.reverse = v.written.reverse ++ writtenIn c := by
  induction h with
  | nil => exact (List.append_nil _).symm
  | @cons _ _ v last p rest hfits _ ih =>
    have hfirst : writtenIn (p :: rest) = p.happening.text?.toList ++ writtenIn rest :=
      filterMap_cons_toList _ _ _
    rw [ih, hfits.written, hfirst, List.append_assoc]

/-! ### Directives -/

namespace IsFounded

variable {previous : Option Happening} {c c' : Course ε σ}

theorem of_none (h : IsFounded none c) : IsFounded previous c := by
  cases c with
  | nil => trivial
  | cons p rest =>
    rcases h with ⟨hp, hrest⟩
    refine ⟨?_, hrest⟩
    cases hhappening : p.happening with
    | opened delay =>
      -- A window at the very beginning would have no directive before it.
      rw [hhappening] at hp
      rcases hp with ⟨directive, superseded, hnone, -⟩
      exact absurd hnone nofun
    | _ => trivial

theorem append (h : IsFounded previous c) (h' : IsFounded none c') :
    IsFounded previous (c ++ c') := by
  induction c generalizing previous with
  | nil => exact h'.of_none
  | cons p rest ih => exact ⟨h.1, ih h.2⟩

theorem of_append (h : IsFounded previous (c ++ c')) : IsFounded previous c := by
  induction c generalizing previous with
  | nil => trivial
  | cons p rest ih => exact ⟨h.1, ih h.2⟩

theorem flatMap {α : Type} {ts : List α} {course : α → Course ε σ}
    (h : ∀ t, IsFounded none (course t)) : IsFounded none (ts.flatMap course) := by
  induction ts with
  | nil => trivial
  | cons t rest ih => exact (h t).append ih

/-- Where no window is opened none needs a directive. -/
theorem of_unopened (h : ∀ p ∈ c, p.happening.grant? = none) : IsFounded previous c := by
  induction c generalizing previous with
  | nil => trivial
  | cons p rest ih =>
    refine ⟨?_, ih fun q hq => h q (List.mem_cons_of_mem p hq)⟩
    have hp := h p List.mem_cons_self
    cases hhappening : p.happening with
    | opened delay =>
      rw [hhappening] at hp
      exact absurd hp nofun
    | _ => trivial

end IsFounded

theorem Happening.grant?_of_actor {happening : Happening} (h : happening.actor ≠ .policy) :
    happening.grant? = none := by
  cases happening with
  | opened delay => exact absurd rfl h
  | _ => rfl

namespace Bench

variable [Environment ε]

theorem isFounded_turn (moment : Moment) (b : Bench ε σ) :
    IsFounded none (b.turnCourse moment) :=
  .of_unopened fun p hp => Happening.grant?_of_actor (by rw [actor_turn hp]; exact nofun)

omit [Environment ε] in
theorem isFounded_onward {α : Type} {work : BenchM ε σ α} {b : Bench ε σ}
    {next : α → Bench ε σ → Course ε σ} (h : ∀ a b', IsFounded none (next a b')) :
    IsFounded none (onward work b next) := by
  unfold onward
  split
  · exact h _ _
  · trivial

theorem isFounded_openWindow (s : SimulatedTime) (b : Bench ε σ) :
    IsFounded none (openWindowCourse s b) := by
  refine (isFounded_turn .access b).append (isFounded_onward fun directives swept => ?_)
  refine ⟨trivial, ?_⟩
  cases directives with
  | nil => trivial
  | cons directive superseded =>
    rcases hdelay : directive.delay? with _ | delay
    · simp only [List.head?_cons, Option.bind_some, hdelay]
      trivial
    · simp only [List.head?_cons, Option.bind_some, hdelay]
      split
      -- In the course the opening stands right behind the sweep.
      · next hfound _ =>
        rw [Option.some.inj hfound] at hdelay
        exact ⟨⟨directive, superseded, rfl, hdelay⟩, trivial⟩
      · exact ⟨trivial, trivial⟩
      · trivial

theorem isFounded_wait (s : SimulatedTime) (b : Bench ε σ) : IsFounded none (waitCourse s b) := by
  refine (isFounded_openWindow s b).append (isFounded_onward fun found b₁ => ?_)
  split
  · trivial
  · refine IsFounded.append ?_ (isFounded_onward fun _ b₂ => isFounded_openWindow s b₂)
    exact .of_unopened fun p hp =>
      Happening.grant?_of_actor (by rw [actor_listen hp]; exact nofun)

theorem isFounded_settle (b : Bench ε σ) : IsFounded none b.settleCourse := by
  unfold settleCourse
  split
  · split
    · exact isFounded_turn _ _
    · trivial
  · split
    · refine IsFounded.append (.of_unopened fun p hp => ?_)
        (isFounded_onward fun _ _ => isFounded_wait _ _)
      rcases actor_deliver hp with hreport | hturn
      · rw [hreport]
        rfl
      · exact Happening.grant?_of_actor (by rw [hturn]; exact nofun)
    · unfold advanceCourse
      split
      · exact ⟨trivial, trivial⟩
      · trivial

theorem isFounded_stretch (system : System σ) (t : Stretch ε σ) :
    IsFounded none (t.course system) := by
  rcases t with ⟨_ | _ | _, b⟩
  · change IsFounded none b.startCourse
    unfold startCourse
    split
    · trivial
    · exact isFounded_wait _ b
  · exact .of_unopened fun p hp => Happening.grant?_of_actor (actor_program hp)
  · exact isFounded_settle b

/-- Every window of a run is granted by a directive. -/
theorem isFounded_runCourse (system : System σ) (limit steps : Nat) (b : Bench ε σ) :
    IsFounded none (runCourse system limit steps b) := by
  rw [runCourse_eq]
  exact .flatMap (isFounded_stretch system)

/-- At every point of every run in simulated time, windows are opened and reported in
    turn, the first of them is opened first, and milliseconds pass only in between. Each
    report tells how many have passed, which are no more than were granted. So the time that
    has passed is what was reported, and what has passed since the opening if a window is
    open. The window was granted by the directive that had been taken out right before, as
    the earliest one. What was written is what the course says, and the course ends where
    the run does. -/
theorem every_millisecond_is_accounted_for (system : System σ) (limit steps : Nat)
    {b : Bench ε σ} {s : SimulatedTime} (hpolicy : b.policy = .simulated s) {past : Course ε σ}
    (hpast : past <+: runCourse system limit steps b) :
    ∃ (s' : SimulatedTime) (closed : List Span) (current : Option Span),
      (lastOf b past).policy = .simulated s' ∧
      timeline past = closed.flatMap Span.ended ++ current.toList.flatMap Span.begun ∧
      (∀ w ∈ closed ++ current.toList, w.used ≤ w.granted) ∧
      s'.now.nanos - s.now.nanos = ((reportedIn past).sum : Nat) * 1000000
        + (if current.isSome then s'.now.nanos - s'.opened.nanos else 0) ∧
      IsFounded none past ∧
      (lastOf b past).written.reverse = b.written.reverse ++ writtenIn past ∧
      (lastOf b (runCourse system limit steps b)).scene
        = (run system.updateOn limit steps b).2.scene := by
  rcases leads_runCourse system limit steps hpolicy with ⟨final, hrun⟩
  have hend := hrun.last rfl
  have hfounded := isFounded_runCourse system limit steps b
  -- A course can be left at any of its points, and the accounts are right there.
  rcases hpast with ⟨rest, hrest⟩
  rw [← hrest] at hrun hfounded
  rcases hrun.upTo with ⟨isOpen, hleads⟩
  rcases hleads.accounts hpolicy (.atFirst s) with ⟨s', closed, current, hnow, haccounts⟩
  exact ⟨s', closed, current, hnow, haccounts.timeline, haccounts.bounded, haccounts.passed,
    hfounded.of_append, hleads.written, hend.symm⟩

theorem every_millisecond_is_accounted_for_echoing :
    ∃ (closed : List Span) (current : Option Span),
      timeline (runCourse Echo.system 9 9 echoing.fed)
        = closed.flatMap Span.ended ++ current.toList.flatMap Span.begun ∧
      (∀ w ∈ closed ++ current.toList, w.used ≤ w.granted) ∧
      writtenIn (runCourse Echo.system 9 9 echoing.fed)
        = ["Delayed: 1", "hello", "Delayed: 0"] := by
  have hleft : (run Echo.system.updateOn 9 9 echoing.fed).2.written
      = ["Delayed: 0", "hello", "Delayed: 1"] := by decide +kernel
  rcases every_millisecond_is_accounted_for Echo.system 9 9 (b := echoing.fed) rfl
    (List.prefix_refl _) with ⟨_, closed, current, -, htimeline, hbounded, -, -, hwritten, hend⟩
  have hlast := (congrArg Scene.written hend).trans hleft
  change (lastOf echoing.fed _).written = _ at hlast
  rw [hlast] at hwritten
  exact ⟨closed, current, htimeline, hbounded, hwritten.symm⟩

end Bench

end Testbench
