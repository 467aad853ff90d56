import Testbench.Proofs.Ranking

/-!
# The Contract of an Update

What the step loop relies on. An update of a system under test takes the earliest line, or
gives lines of its own, or rests because no line is ready, or refuses the line that it took,
or breaks off because the output channel does. It does one of these and nothing besides: a
line that is taken is accepted or refused, never lost, and a system that rests has changed
nothing.

An update that reads without having asked could find no line. The systems in this library
ask first, and as nobody else consumes lines, one that is ready is still there when it is
read.

## Main definitions

* `Looks`: A dialogue in which no line is ready and one clock is read.
* `System.Honours`: The contract, as a statement about all dialogues.
* `Conduct`: The five ways in which an update can go.
* `System.Shows`: An update that goes so on a bench.

## Theorems

* `System.own_updateOn_eq`: What an update does to the bench's own.
* `System.Honours.shows`: The contract on a bench.
* `CarAlarm.honours`, `FishRetailer.honours`: Two systems that honour it.
* `systems_honour_the_contract`: Each update goes in exactly one of the five ways.
-/

namespace Testbench

/-! ### The contract -/

/-- Only the given clock is read, and no line is ready at any time. -/
inductive Looks (clock : Anchor) : List Answered → Prop
  | nil : Looks clock []
  | unready {rest : List Answered} (hrest : Looks clock rest) :
      Looks clock (⟨.inputReady, false⟩ :: rest)
  | value {rest : List Answered} (v : Float) (hrest : Looks clock rest) :
      Looks clock (⟨.value clock, v⟩ :: rest)

namespace Looks

variable {clock : Anchor} {d : List Answered}

theorem head {c : Call} {answer : c.Answer} (h : Looks clock (⟨c, answer⟩ :: d)) :
    (c = .inputReady ∨ c = .value clock) ∧ Looks clock d := by
  cases h with
  | unready hrest => exact ⟨.inl rfl, hrest⟩
  | value v hrest => exact ⟨.inr rfl, hrest⟩

theorem heard_eq (h : Looks clock d) : heard d = [] := by
  induction h with
  | nil => rfl
  | unready _ ih | value _ _ ih => exact ih

theorem said_eq (h : Looks clock d) : said d = [] := by
  induction h with
  | nil => rfl
  | unready _ ih | value _ _ ih => exact ih

end Looks

section Contract

variable {σ : Type} (name : σ → String) (clock : σ → Anchor)

/-- What the contract says of a dialogue, the result and the state that is left. -/
inductive Conducts (s : σ) : Procedure.Post σ Progress
  | takes {d : List Answered} {next : σ} (line : Line) (hheard : heard d = [line])
      (hsaid : said d = []) : Conducts s d (.ok .transitioned) next
  | gives {d : List Answered} {next : σ} (hheard : heard d = []) (hsaid : said d ≠ []) :
      Conducts s d (.ok .transitioned) next
  | rests {d : List Answered} (hlooks : Looks (clock s) d) (hunready : ⟨.inputReady, false⟩ ∈ d) :
      Conducts s d (.ok .quiescent) s
  | refuses {d : List Answered} (line : Line) (hheard : heard d = [line]) (hsaid : said d = []) :
      Conducts s d (.error (.unexpectedInput (name s) line)) s
  | breaks {d : List Answered} {next : σ} (text : String) (cause : ExecutionError)
      (hheard : heard d = []) (hbroken : ⟨.write text, .error cause⟩ ∈ d) :
      Conducts s d (.error cause) next
  /-- A line was ready and could not be read. This happens on no bench. -/
  | unread {next : σ} (before : List Answered) (cause : ExecutionError) :
      Conducts s (before ++ [⟨.inputReady, true⟩, ⟨.read, .error cause⟩]) (.error cause) next

def System.Honours (system : System σ) : Prop :=
  ∀ s, system.update.Ensures s (Conducts name clock s)

end Contract

/-! ### What it means on a bench -/

section

variable {ε σ : Type} [Environment ε] {b : Bench ε σ} {d : List Answered}

theorem Played.drop {before : List Answered} (h : Played b (before ++ d)) :
    ∃ later : Bench ε σ, Played later d := by
  induction before generalizing b with
  | nil => exact ⟨b, h⟩
  | cons e rest ih =>
    cases h with
    | cons hrest => exact ih hrest

/-- A line that is ready can be read. -/
theorem Played.not_unread {before : List Answered} {cause : ExecutionError}
    (h : Played b (before ++ [⟨.inputReady, true⟩, ⟨.read, .error cause⟩])) : False := by
  rcases h.drop with ⟨later, hlater⟩
  cases hlines : (later.turn .access).inbox.lines with
  | nil => exact absurd (hlater.unready_iff.mpr hlines) nofun
  | cons line rest => exact absurd (hlater.read_eq hlines) nofun

/-- If no line was ready there was none before, as nobody has taken any. -/
theorem Played.lines_of_looks {clock : Anchor} (h : Played b d) (hlooks : Looks clock d)
    (hunready : ⟨.inputReady, false⟩ ∈ d) : b.inbox.lines = [] := by
  have hturn : ∀ {b : Bench ε σ}, (b.turn .access).inbox.lines = [] → b.inbox.lines = [] := by
    intro b hnone
    rw [b.lines_turn] at hnone
    exact (List.append_eq_nil_iff.mp hnone).1
  induction hlooks generalizing b with
  | nil => exact absurd hunready List.not_mem_nil
  | unready _ _ => exact hturn (h.unready_iff.mp rfl)
  | value v _ ih =>
    rcases List.mem_cons.mp hunready with heq | hmem
    · cases heq
    · cases h with
      | cons hrest => exact hturn (ih hrest hmem)

namespace Bench

/-- What a look does, the environment does. -/
theorem course_of_looks {α : Type} {clock : Anchor} (p : Program α)
    (hlooks : Looks clock (p.dialogue b)) :
    (∀ q ∈ p.course b, q.happening.actor = .environment) ∧
      (p.course b = [] → (p.runOn b).2.inbox = b.inbox) := by
  have hturn : ∀ b : Bench ε σ, b.turnCourse .access = [] → (b.turn .access).inbox = b.inbox := by
    intro b hnone
    rw [inbox_turn]
    unfold turnCourse at hnone
    rcases hacts : Environment.acts .access b.environment with ⟨_ | ⟨act, rest⟩, environment⟩
    · rfl
    · rw [hacts] at hnone
      exact absurd hnone (List.cons_ne_nil _ _)
  induction p generalizing b with
  | pure a => exact ⟨fun q hq => absurd hq List.not_mem_nil, fun _ => rfl⟩
  | call c next ih =>
    rcases hlooks.head with ⟨rfl | rfl, hrest⟩ <;> rcases ih _ hrest with ⟨hactor, hinbox⟩
    all_goals
      refine ⟨fun q hq => (List.mem_append.mp hq).elim actor_turn (hactor q), fun hnone => ?_⟩
      rcases List.append_eq_nil_iff.mp hnone with ⟨hfirst, hlater⟩
      exact (hinbox hlater).trans (hturn b hfirst)

end Bench

end

/-- The ways in which an update can go. -/
inductive Conduct
  | takes
  | gives
  | rests
  | refuses
  | breaks
  deriving DecidableEq

namespace System

variable {ε σ : Type} [Environment ε] (system : System σ) (name : σ → String)
  (clock : σ → Anchor) (b : Bench ε σ)

/-- An update changes nothing of the bench's own but the lines written and the system. -/
theorem own_updateOn_eq :
    (system.updateOn b).2.own = { b.own.writing (said (system.dialogueOn b)).reverse with
      system := (system.updateOn b).2.system } := by
  rcases Bench.own_updateOn system b with ⟨new, state, hown⟩
  have hstate : (system.updateOn b).2.system = state := congrArg Own.system hown
  have hnew : (system.updateOn b).2.written = new ++ b.written := congrArg Own.written hown
  rw [Bench.written_updateOn] at hnew
  rw [hown, hstate, List.append_cancel_right hnew]

/-- The update consumes the earliest lines that have been there or have arrived. -/
def Consumes (lines : List Line) : Prop :=
  consumedIn (Bench.updateCourse system b) = lines ∧
    lines ++ (system.updateOn b).2.inbox.lines
      = b.inbox.lines ++ arrivedIn (Bench.updateCourse system b)

/-- The update writes the lines, newest first, and moves the system on. -/
def Writes (new : List String) : Prop :=
  (system.updateOn b).2.own
    = { b.own.writing new with system := (system.updateOn b).2.system }

/-- No line is ready, and nothing is changed but by the environment. -/
structure Rests : Prop where
  lines : b.inbox.lines = []
  unready : ⟨.inputReady, false⟩ ∈ system.dialogueOn b
  consumes : system.Consumes b []
  own : (system.updateOn b).2.own = b.own
  actor : ∀ p ∈ Bench.updateCourse system b, p.happening.actor = .environment
  inbox : Bench.updateCourse system b = [] → (system.updateOn b).2.inbox = b.inbox

/-- How the update goes, and what it leaves alone. -/
def Shows : Conduct → Prop
  | .takes => (system.updateOn b).1 = .ok .transitioned ∧ (∃ line, system.Consumes b [line]) ∧
      system.Writes b []
  | .gives => (system.updateOn b).1 = .ok .transitioned ∧ system.Consumes b [] ∧
      ∃ new, new ≠ [] ∧ system.Writes b new
  | .rests => (system.updateOn b).1 = .ok .quiescent ∧ system.Rests b
  | .refuses => ∃ line,
      (system.updateOn b).1 = .error (.error (.unexpectedInput (name b.system) line)) ∧
        system.Consumes b [line] ∧ (system.updateOn b).2.own = b.own
  | .breaks => ∃ failure, (system.updateOn b).1 = .error (.error (.output failure)) ∧
      system.Consumes b []

variable {system name clock b}

theorem consumes_of_heard {lines : List Line} (h : heard (system.dialogueOn b) = lines) :
    system.Consumes b lines :=
  ⟨(system.consumedIn_update b).trans h, h ▸ system.lines_updateOn b⟩

theorem writes_of_said {lines : List String} (h : said (system.dialogueOn b) = lines) :
    system.Writes b lines.reverse := h ▸ system.own_updateOn_eq b

theorem own_eq_of_said (hsaid : said (system.dialogueOn b) = [])
    (hsame : (system.updateOn b).2.system = b.system) : (system.updateOn b).2.own = b.own := by
  rw [own_updateOn_eq, hsaid, hsame]
  exact Own.writing_nil b.own

/-- The contract on a bench. -/
theorem Honours.shows (h : system.Honours name clock) (b : Bench ε σ) :
    ∃ conduct, system.Shows name b conduct := by
  have hplayed := system.played_dialogueOn b
  rcases system.ensures_updateOn (h b.system) with ⟨result, hconducts, hresult⟩
  generalize hd : system.dialogueOn b = d at hconducts
  generalize hnext : (system.updateOn b).2.system = next at hconducts
  rw [hd] at hplayed
  cases hconducts with
  | takes line hheard hsaid =>
    exact ⟨.takes, hresult, ⟨line, consumes_of_heard (hd ▸ hheard)⟩, writes_of_said (hd ▸ hsaid)⟩
  | gives hheard hsaid =>
    exact ⟨.gives, hresult, consumes_of_heard (hd ▸ hheard), _, mt List.reverse_eq_nil_iff.mp hsaid,
      writes_of_said (congrArg said hd)⟩
  | rests hlooks hunready =>
    have hsame : (system.updateOn b).2.inbox
        = ((system.update.run.run b.system).runOn b).2.inbox := by rw [Bench.updateOn_eq]
    rcases Bench.course_of_looks _ (Eq.mpr (congrArg _ hd) hlooks) with ⟨hactor, hinbox⟩
    exact ⟨.rests, hresult, hplayed.lines_of_looks hlooks hunready, hd ▸ hunready,
      consumes_of_heard (hd ▸ hlooks.heard_eq), own_eq_of_said (hd ▸ hlooks.said_eq) hnext,
      hactor, fun hnone => hsame.trans (hinbox hnone)⟩
  | refuses line hheard hsaid =>
    exact ⟨.refuses, line, hresult, consumes_of_heard (hd ▸ hheard),
      own_eq_of_said (hd ▸ hsaid) hnext⟩
  | breaks text cause hheard hbroken =>
    rcases hplayed.refused hbroken with ⟨failure, rfl⟩
    exact ⟨.breaks, failure, hresult, consumes_of_heard (hd ▸ hheard)⟩
  | unread before cause => exact hplayed.not_unread.elim

/-- The result and the lines consumed tell the conduct. -/
def conductOf (result : Except Halt Progress) (consumed : List Line) : Conduct :=
  match result, consumed with
  | .ok .transitioned, [] => .gives
  | .ok .transitioned, _ => .takes
  | .ok .quiescent, _ => .rests
  | .error _, [] => .breaks
  | .error _, _ => .refuses

theorem Shows.conduct_eq {conduct : Conduct} (h : system.Shows name b conduct) :
    conduct = conductOf (system.updateOn b).1 (consumedIn (Bench.updateCourse system b)) := by
  cases conduct with
  | takes =>
    rcases h with ⟨hresult, ⟨line, hconsumes⟩, -⟩
    rw [hresult, hconsumes.1]
    rfl
  | gives =>
    rcases h with ⟨hresult, hconsumes, -⟩
    rw [hresult, hconsumes.1]
    rfl
  | rests => rw [h.1, conductOf]
  | refuses =>
    rcases h with ⟨line, hresult, hconsumes, -⟩
    rw [hresult, hconsumes.1]
    rfl
  | breaks =>
    rcases h with ⟨failure, hresult, hconsumes⟩
    rw [hresult, hconsumes.1]
    rfl

theorem Shows.ne_noInput {conduct : Conduct} (h : system.Shows name b conduct) :
    (system.updateOn b).1 ≠ .error (.error .noInput) := by
  cases conduct with
  | takes | gives | rests =>
    rw [h.1]
    exact nofun
  | refuses =>
    rcases h with ⟨line, hresult, -⟩
    rw [hresult]
    exact nofun
  | breaks =>
    rcases h with ⟨failure, hresult, -⟩
    rw [hresult]
    exact nofun

theorem Honours.exactly_one (h : system.Honours name clock) (b : Bench ε σ) :
    (∃! conduct, system.Shows name b conduct) ∧
      (system.updateOn b).1 ≠ .error (.error .noInput) := by
  rcases h.shows b with ⟨conduct, hshows⟩
  exact ⟨⟨conduct, hshows, fun other hother => hother.conduct_eq.trans hshows.conduct_eq.symm⟩,
    hshows.ne_noInput⟩

end System

/-! ### The systems of this library -/

namespace CarAlarm

def locationName (a : CarAlarm) : String := inspect a.location

theorem Asks.looks {a : CarAlarm} {d : List Answered} (h : a.Asks d) {rest : List Answered}
    (hrest : Looks a.x rest) : Looks a.x (d ++ rest) := by
  cases h with
  | nothing => exact hrest
  | early time => exact .value time hrest

/-- Whoever rests has found no line ready. -/
theorem Rests.looks {a : CarAlarm} {d : List Answered} (h : a.Rests d) :
    Looks a.x d ∧ ⟨.inputReady, false⟩ ∈ d := by
  cases h with
  | unready hasks =>
    exact ⟨hasks.looks (.unready .nil), List.mem_append_right _ List.mem_cons_self⟩
  | early time => exact ⟨.unready (.value time .nil), .head _⟩

theorem honours : system.Honours locationName CarAlarm.x := by
  intro a
  refine (ensures_update_goes a).mono fun d result next h => ?_
  cases h with
  | unread _ cause => exact .unread _ cause
  | refused hasks line =>
    refine .refuses line ?_ ?_
    · rw [heard_append, hasks.quiet.1]
      rfl
    · rw [said_append, hasks.quiet.2]
      rfl
  | @takes _ _ hasks e he input hinput _ hclock =>
    have htaken := Edge.Taken.of_input hasks he hinput hclock
    have hnone : e.outputs = [] := (outputs_eq_nil_iff a.location e he).mpr (by simp [hinput])
    exact .takes ⟨input⟩ (htaken.heard.trans (by rw [hinput]; rfl)) (htaken.said.trans hnone)
  | rests hrests => exact .rests hrests.looks.1 hrests.looks.2
  | @gives _ _ hfinds e he hinput =>
    have htaken := Edge.Taken.of_outputs (a := a) hfinds hinput
    have hsome : e.outputs ≠ [] := fun hnone =>
      (outputs_eq_nil_iff a.location e he).mp hnone hinput
    exact .gives (htaken.heard.trans (by rw [hinput]; rfl)) (htaken.said.symm ▸ hsome)
  | broke hfinds _ _ _ _ cause =>
    refine .breaks _ cause ?_ (List.mem_append_right _ List.mem_cons_self)
    rw [heard_append, heard_append, hfinds.quiet.1, heard_wrote]
    rfl

end CarAlarm

namespace FishRetailer

def locationName (r : FishRetailer) : String := inspect r.location

theorem honours : system.Honours locationName FishRetailer.x := by
  intro r
  refine (ensures_update_serves r).mono fun d result next h => ?_
  cases h with
  | unread cause => exact .unread [] cause
  | refused line hother => exact .refuses line rfl rfl
  | paid x note hlocation => exact .takes _ rfl rfl
  | idle howed => exact .rests (.unready .nil) (.head _)
  | waits text v howed hdue => exact .rests (.unready (.value v .nil)) (.head _)
  | serves text v note howed hdue => exact .gives rfl (List.cons_ne_nil _ _)
  | broke text v cause howed hdue => exact .breaks text cause rfl (List.mem_of_getLast? rfl)

end FishRetailer

/-- Whatever the state, the lines held and the clocks, and whatever the environment does in
    between, an update of either system takes the earliest line and writes nothing, gives lines
    and takes none, rests with nothing changed because no line is ready, refuses the line that it
    took, or breaks off at a line that cannot be written and has taken none. It does exactly one
    of these, and never finds that there was nothing to read. -/
theorem systems_honour_the_contract {ε : Type} [Environment ε] :
    (∀ b : Bench ε CarAlarm,
      (∃! conduct, CarAlarm.system.Shows CarAlarm.locationName b conduct) ∧
        (CarAlarm.system.updateOn b).1 ≠ .error (.error .noInput)) ∧
    ∀ b : Bench ε FishRetailer,
      (∃! conduct, FishRetailer.system.Shows FishRetailer.locationName b conduct) ∧
        (FishRetailer.system.updateOn b).1 ≠ .error (.error .noInput) :=
  ⟨CarAlarm.honours.exactly_one, FishRetailer.honours.exactly_one⟩

end Testbench
