import Testbench.Proofs.Dialogue
import Testbench.Systems.CarAlarm

/-!
# The Edges of the Car Alarm

The automaton of the car alarm as a table. An edge leads from one location to another. It
takes an input, or gives outputs because they are due, and never does both.

What an update does is told in full once, with the whole dialogue. It asks the clock first
where something may be due, and an input is looked for only if nothing is. There is one
exception: an armed alarm looks for an input before it asks the clock. Then one edge is
taken, or nothing is done at all, or the update fails where it stands, with some of the
outputs given if the failure was that of the channel.

All that is said of the alarm elsewhere follows from this. What does not depend on the clock
follows from the table alone: an update takes one edge at most.

## Main definitions

* `CarAlarm.Edge`: An edge.
* `CarAlarm.edges`: The table.
* `CarAlarm.Over`: The clock has passed the bound of a location.
* `CarAlarm.Asks`, `CarAlarm.Finds`: What comes before an input and before outputs.
* `CarAlarm.Goes`: The ways in which an update can go.
* `CarAlarm.Edge.Taken`: A dialogue that takes an edge.
* `CarAlarm.Moves`: What an update does by the table.

## Theorems

* `CarAlarm.ensures_update_heeding`, `CarAlarm.ensures_update_timed`,
  `CarAlarm.ensures_update_passing`: The automaton, by what an update asks for first.
* `CarAlarm.ensures_update_goes`: The updates of the alarm.
* `CarAlarm.ensures_update`: An update takes one edge at most.
-/

namespace Testbench

namespace CarAlarm

open Location Procedure

structure Edge where
  input : Option String
  outputs : List String
  target : Location
  deriving DecidableEq

def edges : Location → List Edge
  | openUnlocked => [⟨some "close", [], closedUnlocked⟩, ⟨some "lock", [], openLocked⟩]
  | closedUnlocked => [⟨some "open", [], openUnlocked⟩, ⟨some "lock", [], arming⟩]
  | openLocked => [⟨some "unlock", [], openUnlocked⟩, ⟨some "close", [], arming⟩]
  | arming => [⟨none, ["armedOn"], armed⟩, ⟨some "unlock", [], closedUnlocked⟩,
      ⟨some "open", [], openLocked⟩]
  | armed => [⟨none, ["armedOff"], closedUnlocked⟩, ⟨some "unlock", [], disarming⟩,
      ⟨some "open", [], triggered⟩]
  | disarming => [⟨none, ["armedOff"], closedUnlocked⟩]
  | triggered => [⟨none, ["armedOff", "flashOn", "soundOn"], sounding⟩]
  | sounding => [⟨none, ["soundOff"], flashing⟩, ⟨some "unlock", [], stopping⟩]
  | stopping => [⟨none, ["soundOff", "flashOff"], openUnlocked⟩]
  | flashing => [⟨none, ["soundOff", "flashOff"], silent⟩, ⟨some "unlock", [], stopping⟩]
  | silent => [⟨some "close", [], rearming⟩, ⟨some "unlock", [], openUnlocked⟩]
  | rearming => [⟨none, ["armedOn"], armed⟩]

/-- The clock is reset on the way. -/
def Edge.resets (location : Location) (e : Edge) : Bool :=
  match e.target with
  | arming | disarming | triggered | stopping | rearming => true
  | closedUnlocked => location == armed
  | _ => false

/-! ### What an update does -/

/-- The clock reads a time at which the outputs of the location are due. -/
def Over (a : CarAlarm) (time : Float) : Prop :=
  match a.location with
  | arming => time ≥ armingDelay
  | armed => time > rearmingDelay
  | sounding => time > soundDuration
  | flashing => time > flashDuration
  | openUnlocked | closedUnlocked | openLocked | disarming | triggered | stopping | silent
  | rearming => False

/-- What comes before an input is looked for. -/
inductive Asks (a : CarAlarm) : List Answered → Prop
  | nothing (hlocation : a.location ∈ [openUnlocked, closedUnlocked, openLocked, armed, silent]) :
      Asks a []
  | early (time : Float) (hlocation : a.location ∈ [arming, sounding, flashing])
      (hearly : ¬ a.Over time) : Asks a [⟨.value a.x, time⟩]

/-- There is nothing to do. -/
inductive Rests (a : CarAlarm) : List Answered → Prop
  | unready {d : List Answered} (hasks : a.Asks d)
      (hmark : a.location = armed → a.alarmLocked = false) :
      Rests a (d ++ [⟨.inputReady, false⟩])
  | early (time : Float) (hlocation : a.location = armed) (hmark : a.alarmLocked = true)
      (hearly : ¬ a.Over time) : Rests a [⟨.inputReady, false⟩, ⟨.value a.x, time⟩]

/-- What comes before outputs are given, and the clock as it is left. -/
inductive Finds (a : CarAlarm) : List Answered → Anchor → Prop
  | nothing (hlocation : a.location ∈ [disarming, triggered, stopping, rearming]) :
      Finds a [] a.x
  | late (time : Float) (hlocation : a.location ∈ [arming, sounding, flashing])
      (hover : a.Over time) : Finds a [⟨.value a.x, time⟩] a.x
  | overdue (time : Float) (x : Anchor) (hlocation : a.location = armed)
      (hmark : a.alarmLocked = true) (hover : a.Over time) :
      Finds a [⟨.inputReady, false⟩, ⟨.value a.x, time⟩, ⟨.resetTime, x⟩] x

/-- What comes after an input, and the clock as it is left. -/
inductive Edge.Winds (e : Edge) (a : CarAlarm) : List Answered → Anchor → Prop
  | keeps (hkeeps : e.resets a.location = false) : Winds e a [] a.x
  | resets (x : Anchor) (hresets : e.resets a.location = true) : Winds e a [⟨.resetTime, x⟩] x

/-- The output channel has taken the line. -/
def wrote (text : String) : Answered := ⟨.write text, .ok ()⟩

def Edge.noted (e : Edge) (a : CarAlarm) : Answered :=
  ⟨.note "car alarm" [("from", inspect a.location), ("to", inspect e.target)], ()⟩

/-- The alarm behind an edge, with its clock as it is left. -/
def Edge.reached (e : Edge) (a : CarAlarm) (x : Anchor) : CarAlarm where
  location := e.target
  x := x
  alarmLocked := if e.target = armed then decide (a.location = rearming) else a.alarmLocked

/-- The ways in which an update can go, each with the whole dialogue. -/
inductive Goes (a : CarAlarm) : Procedure.Post CarAlarm Progress
  | unread {d : List Answered} (hasks : a.Asks d) (cause : ExecutionError) :
      Goes a (d ++ [⟨.inputReady, true⟩, ⟨.read, .error cause⟩]) (.error cause) a
  | refused {d : List Answered} (hasks : a.Asks d) (line : Line)
      (hother : ∀ e ∈ edges a.location, e.input.map Line.mk ≠ some line) :
      Goes a (d ++ [⟨.inputReady, true⟩, ⟨.read, .ok line⟩])
        (.error (.unexpected a.location line)) a
  | takes {d clock : List Answered} (hasks : a.Asks d) {e : Edge} (he : e ∈ edges a.location)
      {input : String} (hinput : e.input = some input) {x : Anchor} (hclock : e.Winds a clock x) :
      Goes a (d ++ [⟨.inputReady, true⟩, ⟨.read, .ok ⟨input⟩⟩] ++ clock ++ [e.noted a])
        (.ok .transitioned) (e.reached a x)
  | rests {d : List Answered} (hrests : a.Rests d) : Goes a d (.ok .quiescent) a
  | gives {d : List Answered} {x : Anchor} (hfinds : a.Finds d x) {e : Edge}
      (he : e ∈ edges a.location) (hinput : e.input = none) :
      Goes a (d ++ e.outputs.map wrote ++ [e.noted a]) (.ok .transitioned) (e.reached a x)
  | broke {d : List Answered} {x : Anchor} (hfinds : a.Finds d x) {e : Edge}
      (he : e ∈ edges a.location) (hinput : e.input = none) (given : List String)
      {rest : List String} {text : String} (hsplit : e.outputs = given ++ text :: rest)
      (cause : ExecutionError) :
      Goes a (d ++ given.map wrote ++ [⟨.write text, .error cause⟩]) (.error cause) { a with x }

theorem ensures_refuse {a : CarAlarm} {input : Line}
    {post : Procedure.Post CarAlarm (Option Location)} :
    (refuse input).Ensures a post ↔ post [] (.error (.unexpected a.location input)) a := by
  simp only [refuse, ensures_bind, ensures_get, ensures_throw, List.append_nil]

theorem ensures_clock {a : CarAlarm} {post : Procedure.Post CarAlarm Float} :
    clock.Ensures a post ↔ ∀ time, post [⟨.value a.x, time⟩] (.ok time) a := by
  simp only [clock, ensures_bind, ensures_get, ensures_value, List.nil_append]

theorem ensures_resetClock {a : CarAlarm} {post : Procedure.Post CarAlarm Unit} :
    resetClock.Ensures a post ↔ ∀ x, post [⟨.resetTime, x⟩] (.ok ()) { a with x } := by
  simp only [resetClock, ensures_bind, ensures_resetTime, ensures_modify, List.append_nil]

/-- An update is the choice of a location, with a note of it if there is one. -/
theorem ensures_update_iff {a : CarAlarm} {post : Procedure.Post CarAlarm Progress} :
    update.Ensures a post ↔ next.Ensures a fun d result s => match result with
      | .ok (some target) => post
          (d ++ [⟨.note "car alarm" [("from", inspect s.location), ("to", inspect target)], ()⟩])
          (.ok .transitioned) { s with location := target }
      | .ok none => post d (.ok .quiescent) s
      | .error cause => post d (.error cause) s := by
  unfold update
  rw [ensures_bind]
  refine iff_of_eq (congrArg _ ?_)
  funext d result s
  rcases result with cause | _ | target
  · rfl
  · simp only [ensures_pure, List.append_nil]
  · simp only [ensures_bind, ensures_get, ensures_note, ensures_modify, ensures_pure]
    rfl

section

variable {a : CarAlarm}

/-- An input is looked for first. Of these locations only the armed one may do without. -/
theorem ensures_update_heeding
    (h : a.location ∈ [openUnlocked, closedUnlocked, openLocked, armed, silent]) :
    update.Ensures a (Goes a) := by
  have hasks : a.Asks [] := .nothing h
  rw [ensures_update_iff]
  rcases a with ⟨location, x, alarmLocked⟩
  cases location with
  | openUnlocked =>
    simp only [next, ensures_bind, ensures_get, ensures_nextInput?, ensures_pure]
    refine ⟨.rests (.unready hasks (by simp)), fun line => ?_, .unread hasks⟩
    split
    · next h => cases h
    · next h =>
      cases h
      exact .takes hasks (.head _) rfl (.keeps rfl)
    · next h =>
      cases h
      exact .takes hasks (.tail _ (.head _)) rfl (.keeps rfl)
    · next hclose hlock h =>
      cases h
      exact .refused hasks _ (by simpa [edges, eq_comm] using ⟨hclose, hlock⟩)
  | closedUnlocked | openLocked =>
    simp only [next, ensures_bind, ensures_get, ensures_nextInput?, ensures_pure]
    refine ⟨.rests (.unready hasks (by simp)), fun line => ?_, .unread hasks⟩
    split
    · next h => cases h
    · next h =>
      cases h
      exact .takes hasks (.head _) rfl (.keeps rfl)
    · next h =>
      cases h
      exact fun x' => .takes hasks (.tail _ (.head _)) rfl (.resets x' rfl)
    · next hfirst hsecond h =>
      cases h
      exact .refused hasks _ (by simpa [edges, eq_comm] using ⟨hfirst, hsecond⟩)
  | armed =>
    simp only [next, ensures_bind, ensures_get, ensures_nextInput?, ensures_pure, ensures_ite,
      ensures_clock, ensures_resetClock, ensures_write]
    refine ⟨?_, fun line => ?_, .unread hasks⟩
    -- Without an input the alarm may still disarm, and resets its clock before it says so.
    · split
      · next hmark => exact .rests (.unready hasks fun _ => by simpa using hmark)
      · next hmark =>
        have hlocked : alarmLocked = true := by simpa using hmark
        intro time
        split
        · next hover =>
          intro x'
          have hfinds : Finds ⟨armed, x, alarmLocked⟩ _ x' := .overdue time x' rfl hlocked hover
          exact ⟨.gives hfinds (.head _) rfl, .broke hfinds (.head _) rfl [] rfl⟩
        · next hearly => exact .rests (.early time rfl hlocked hearly)
    · split
      · next h => cases h
      · next h =>
        cases h
        exact fun x' => .takes hasks (.tail _ (.head _)) rfl (.resets x' rfl)
      · next h =>
        cases h
        exact fun x' => .takes hasks (.tail _ (.tail _ (.head _))) rfl (.resets x' rfl)
      · next hunlock hopen h =>
        cases h
        exact .refused hasks _ (by simpa [edges, eq_comm] using ⟨hunlock, hopen⟩)
  | silent =>
    simp only [next, ensures_bind, ensures_get, ensures_nextInput?, ensures_pure]
    refine ⟨.rests (.unready hasks (by simp)), fun line => ?_, .unread hasks⟩
    split
    · next h => cases h
    · next h =>
      cases h
      exact fun x' => .takes hasks (.head _) rfl (.resets x' rfl)
    · next h =>
      cases h
      exact .takes hasks (.tail _ (.head _)) rfl (.keeps rfl)
    · next hclose hunlock h =>
      cases h
      exact .refused hasks _ (by simpa [edges, eq_comm] using ⟨hclose, hunlock⟩)
  | _ => simp at h

/-- The clock is asked first, and an input is looked for only if nothing is due. -/
theorem ensures_update_timed (h : a.location ∈ [arming, sounding, flashing]) :
    update.Ensures a (Goes a) := by
  have hlate : ∀ time, a.Over time → a.Finds _ a.x := fun time => .late time h
  have hearly : ∀ time, ¬ a.Over time → a.Asks _ := fun time => .early time h
  rw [ensures_update_iff]
  rcases a with ⟨location, x, alarmLocked⟩
  cases location with
  | arming =>
    simp only [next, ensures_bind, ensures_get, ensures_clock, ensures_ite, ensures_write,
      ensures_modify, ensures_nextInput?, ensures_pure]
    intro time
    split
    · next hover =>
      have hfinds := hlate time hover
      exact ⟨.gives hfinds (.head _) rfl, .broke hfinds (.head _) rfl [] rfl⟩
    · next hover =>
      have hasks := hearly time hover
      refine ⟨.rests (.unready hasks (by simp)), fun line => ?_, .unread hasks⟩
      split
      · next h => cases h
      · next h =>
        cases h
        exact .takes hasks (.tail _ (.head _)) rfl (.keeps rfl)
      · next h =>
        cases h
        exact .takes hasks (.tail _ (.tail _ (.head _))) rfl (.keeps rfl)
      · next hunlock hopen h =>
        cases h
        exact .refused hasks _ (by simpa [edges, eq_comm] using ⟨hunlock, hopen⟩)
  | sounding =>
    simp only [next, ensures_bind, ensures_get, ensures_clock, ensures_ite, ensures_write,
      ensures_nextInput?, ensures_pure]
    intro time
    split
    · next hover =>
      have hfinds := hlate time hover
      exact ⟨.gives hfinds (.head _) rfl, .broke hfinds (.head _) rfl [] rfl⟩
    · next hover =>
      have hasks := hearly time hover
      refine ⟨.rests (.unready hasks (by simp)), fun line => ?_, .unread hasks⟩
      split
      · next h => cases h
      · next h =>
        cases h
        exact fun x' => .takes hasks (.tail _ (.head _)) rfl (.resets x' rfl)
      · next hunlock h =>
        cases h
        exact .refused hasks _ (by simpa [edges, eq_comm] using hunlock)
  | flashing =>
    simp only [next, writeAll, ensures_bind, ensures_get, ensures_clock, ensures_ite,
      ensures_write, ensures_nextInput?, ensures_pure]
    intro time
    split
    · next hover =>
      have hfinds := hlate time hover
      refine ⟨⟨.gives hfinds (.head _) rfl, ?_⟩, .broke hfinds (.head _) rfl [] rfl⟩
      exact .broke hfinds (.head _) rfl ["soundOff"] rfl
    · next hover =>
      have hasks := hearly time hover
      refine ⟨.rests (.unready hasks (by simp)), fun line => ?_, .unread hasks⟩
      split
      · next h => cases h
      · next h =>
        cases h
        exact fun x' => .takes hasks (.tail _ (.head _)) rfl (.resets x' rfl)
      · next hunlock h =>
        cases h
        exact .refused hasks _ (by simpa [edges, eq_comm] using hunlock)
  | _ => simp at h

/-- The outputs are given without a look at anything. Each of the writes may fail after those
    before it have been taken. -/
theorem ensures_update_passing (h : a.location ∈ [disarming, triggered, stopping, rearming]) :
    update.Ensures a (Goes a) := by
  have hfinds : a.Finds [] a.x := .nothing h
  rw [ensures_update_iff]
  rcases a with ⟨location, x, alarmLocked⟩
  cases location with
  | disarming | rearming =>
    simp only [next, ensures_bind, ensures_get, ensures_write, ensures_modify, ensures_pure]
    exact ⟨.gives hfinds (.head _) rfl, .broke hfinds (.head _) rfl [] rfl⟩
  | triggered =>
    simp only [next, writeAll, ensures_bind, ensures_get, ensures_write, ensures_pure]
    refine ⟨⟨⟨.gives hfinds (.head _) rfl, ?_⟩, ?_⟩, .broke hfinds (.head _) rfl [] rfl⟩
    · exact .broke hfinds (.head _) rfl ["armedOff", "flashOn"] rfl
    · exact .broke hfinds (.head _) rfl ["armedOff"] rfl
  | stopping =>
    simp only [next, writeAll, ensures_bind, ensures_get, ensures_write, ensures_pure]
    refine ⟨⟨.gives hfinds (.head _) rfl, ?_⟩, .broke hfinds (.head _) rfl [] rfl⟩
    exact .broke hfinds (.head _) rfl ["soundOff"] rfl
  | _ => simp at h

end

/-- The updates of the alarm. Whatever else is said of them follows from this, and the automaton
    is not taken apart again. -/
theorem ensures_update_goes (a : CarAlarm) : update.Ensures a (Goes a) := by
  cases hlocation : a.location with
  | openUnlocked | closedUnlocked | openLocked | armed | silent =>
    exact ensures_update_heeding (by simp [hlocation])
  | arming | sounding | flashing => exact ensures_update_timed (by simp [hlocation])
  | disarming | triggered | stopping | rearming =>
    exact ensures_update_passing (by simp [hlocation])

/-! ### What an update does by the table -/

/-- An edge that takes an input gives no outputs, and any other gives some. -/
theorem outputs_eq_nil_iff (location : Location) :
    ∀ e ∈ edges location, e.outputs = [] ↔ e.input ≠ none := by
  cases location <;> decide

theorem said_wrote (outputs : List String) : said (outputs.map wrote) = outputs := by
  induction outputs with
  | nil => rfl
  | cons text rest ih => exact congrArg (text :: ·) ih

theorem heard_wrote (outputs : List String) : heard (outputs.map wrote) = [] := by
  induction outputs with
  | nil => rfl
  | cons text rest ih => exact ih

section

variable {a : CarAlarm} {e : Edge} {d clock : List Answered} {x : Anchor}

theorem Asks.quiet (h : a.Asks d) : heard d = [] ∧ said d = [] := by
  cases h with
  | nothing | early => exact ⟨rfl, rfl⟩

theorem Rests.quiet (h : a.Rests d) : heard d = [] ∧ said d = [] := by
  cases h with
  | unready hasks =>
    rw [heard_append, said_append, hasks.quiet.1, hasks.quiet.2]
    exact ⟨rfl, rfl⟩
  | early => exact ⟨rfl, rfl⟩

theorem Finds.quiet (h : a.Finds d x) : heard d = [] ∧ said d = [] := by
  cases h with
  | nothing | late | overdue => exact ⟨rfl, rfl⟩

theorem Edge.Winds.quiet (h : e.Winds a clock x) : heard clock = [] ∧ said clock = [] := by
  cases h with
  | keeps | resets => exact ⟨rfl, rfl⟩

/-- The dialogue takes the edge. -/
structure Edge.Taken (e : Edge) (d : List Answered) : Prop where
  heard : heard d = (e.input.map Line.mk).toList
  said : said d = e.outputs

theorem Edge.Taken.of_input (hasks : a.Asks d) (he : e ∈ edges a.location) {input : String}
    (hinput : e.input = some input) (hclock : e.Winds a clock x) :
    e.Taken (d ++ [⟨.inputReady, true⟩, ⟨.read, .ok ⟨input⟩⟩] ++ clock ++ [e.noted a]) := by
  have hnone : e.outputs = [] := (outputs_eq_nil_iff a.location e he).mpr (by simp [hinput])
  constructor
  · rw [heard_append, heard_append, heard_append, hasks.quiet.1, hclock.quiet.1, hinput]
    rfl
  · rw [said_append, said_append, said_append, hasks.quiet.2, hclock.quiet.2, hnone]
    rfl

theorem Edge.Taken.of_outputs (hfinds : a.Finds d x) (hinput : e.input = none) :
    e.Taken (d ++ e.outputs.map wrote ++ [e.noted a]) := by
  constructor
  · rw [heard_append, heard_append, hfinds.quiet.1, heard_wrote, hinput]
    rfl
  · rw [said_append, said_append, hfinds.quiet.2, said_wrote]
    exact List.append_nil _

end

/-- The dialogue breaks off before all outputs have been given, or is about none. -/
def BreaksOff (a : CarAlarm) (d : List Answered) : Prop :=
  said d = [] ∨ ∃ e ∈ edges a.location, said d <+: e.outputs

/-- What an update does. -/
def Moves (a : CarAlarm) : Procedure.Post CarAlarm Progress := fun d result next =>
  match result with
  | .ok .quiescent => next.location = a.location ∧ heard d = [] ∧ said d = []
  | .ok .transitioned => ∃ e ∈ edges a.location, next.location = e.target ∧ e.Taken d
  | .error _ => next.location = a.location ∧ a.BreaksOff d

/-- An update takes one edge at most. -/
theorem ensures_update (a : CarAlarm) : update.Ensures a (Moves a) := by
  refine (ensures_update_goes a).mono fun d result next h => ?_
  cases h with
  | unread hasks | refused hasks =>
    refine ⟨rfl, .inl ?_⟩
    rw [said_append, hasks.quiet.2]
    rfl
  | takes hasks he hinput hclock => exact ⟨_, he, rfl, .of_input hasks he hinput hclock⟩
  | rests hrests => exact ⟨rfl, hrests.quiet⟩
  | gives hfinds he hinput => exact ⟨_, he, rfl, .of_outputs hfinds hinput⟩
  | @broke d x hfinds e he hinput given rest text hsplit cause =>
    refine ⟨rfl, .inr ⟨e, he, text :: rest, ?_⟩⟩
    rw [said_append, said_append, hfinds.quiet.2, said_wrote, hsplit, List.nil_append]
    simp [said, Answered.said?]

end CarAlarm

end Testbench
