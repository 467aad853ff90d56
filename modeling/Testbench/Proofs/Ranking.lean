import Testbench.Proofs.AlarmEdges
import Testbench.Proofs.Limits
import Testbench.Proofs.RetailUpdates

/-!
# Steps that End

A step goes on until the system under test has nothing to do, and a system could always
find something. Those in this library do not. Each of their transitions either reads a
line, or brings the system closer to rest by itself: an output that is due is given once,
and leads to a state with fewer outputs to come.

A rank measures this closeness. In a scripted environment the lines that can be read in a
step are bounded as well, by those held and those still to be sent. So a transition lowers
the one or the other, the lines first, and a system with a rank ends all of its steps,
whatever the clocks say.

## Main definitions

* `System.IsRanked`: Transitions without an input lower the rank, and nothing that is
  written looks like a report.
* `Bench.Orderly`: A step that ends and writes no report.
* `Bench.supply`: The lines that could still be read.

## Theorems

* `Bench.supply_updateOn`: A line that is read is used up.
* `System.IsRanked.orderly`: The steps of a ranked system are orderly.
* `CarAlarm.isRanked`, `FishRetailer.isRanked`: Two systems with a rank.
-/

namespace Testbench

/-- An update writes no line that looks like a report, and a transition that reads nothing
    lowers the rank. -/
def Descends {σ : Type} (rank : σ → Nat) (state : σ) : Procedure.Post σ Progress :=
  fun d result next => (∀ text ∈ said d, isReport text = false) ∧
    (result = .ok .transitioned → heard d = [] → rank next < rank state)

def System.IsRanked {σ : Type} (system : System σ) (rank : σ → Nat) : Prop :=
  ∀ state, system.update.Ensures state (Descends rank state)

namespace Descends

variable {σ : Type} {rank : σ → Nat} {state next : σ} {d : List Answered}
  {result : Except ExecutionError Progress}

theorem of_stopped (hsaid : said d = []) (hresult : result ≠ .ok .transitioned) :
    Descends rank state d result next := by
  refine ⟨fun text htext => ?_, fun h => absurd h hresult⟩
  rw [hsaid] at htext
  exact absurd htext List.not_mem_nil

theorem of_heard (hsaid : said d = []) (hheard : heard d ≠ []) :
    Descends rank state d result next := by
  refine ⟨fun text htext => ?_, fun _ h => absurd h hheard⟩
  rw [hsaid] at htext
  exact absurd htext List.not_mem_nil

theorem of_said {text : String} (hsaid : said d = [text]) (hquiet : isReport text = false)
    (hrank : rank next < rank state) : Descends rank state d result next := by
  refine ⟨fun other hother => ?_, fun _ _ => hrank⟩
  rw [hsaid, List.mem_singleton] at hother
  rw [hother]
  exact hquiet

end Descends

namespace Inbox

variable {κ : Type}

theorem length_afterAct_push (inbox : Inbox κ) (line : Line) :
    (inbox.afterAct (.push line)).lines.length ≤ inbox.lines.length + 1 := by
  rcases hpush : inbox.push line with fault | ⟨_ | due, next⟩
  · simp only [afterAct, hpush]
    exact Nat.le_succ _
  · simp only [afterAct, hpush, (push_eq_discarded hpush).2]
    exact Nat.le_succ _
  · rcases push_eq_held hpush with ⟨-, -, hlines, -⟩
    simp only [afterAct, hpush, hlines, List.length_append, List.length_singleton]
    exact Nat.le_refl _

/-- Whoever listens, a chunk adds no more lines than it has. -/
theorem length_after_chunk (inbox : Inbox κ) (chunk : List Line) :
    (inbox.after (chunk.map .push)).lines.length ≤ inbox.lines.length + chunk.length := by
  induction chunk generalizing inbox with
  | nil => exact Nat.le_refl _
  | cons line rest ih =>
    have hfirst := inbox.length_afterAct_push line
    have hrest := ih (inbox.afterAct (.push line))
    change ((inbox.afterAct (.push line)).after (rest.map .push)).lines.length ≤ _
    rw [List.length_cons]
    omega

end Inbox

/-- The number of lines that are still to be sent. -/
def Scripted.remaining {τ : Type} (e : Scripted τ) : Nat :=
  ((e.script.getD []).map List.length).sum

theorem Scripted.remaining_sendNext {τ κ : Type} (e : Scripted τ) (inbox : Inbox κ) :
    (inbox.after e.sendNext.1).lines.length + e.sendNext.2.remaining
      ≤ inbox.lines.length + e.remaining := by
  unfold remaining sendNext
  rcases hscript : e.script with _ | _ | ⟨chunk, rest⟩
  · simp only [hscript]
    exact Nat.le_refl _
  · simp only [hscript]
    exact Nat.le_refl _
  · have hsent := inbox.length_after_chunk chunk
    simp only [Option.getD_some, List.map_cons, List.sum_cons]
    omega

namespace Bench

variable {ε σ τ : Type}

/-- The step that begins at `b` ends, and up to any limit writes no report. -/
structure Orderly (update : BenchM ε σ Progress) (b : Bench ε σ) : Prop where
  ends : Ends update b
  quiet : ∀ limit, ∀ text ∈ stepOutput update limit b, isReport text = false

/-- The lines that the system under test could still read. -/
def supply (b : Bench (Scripted τ) σ) : Nat := b.inbox.lines.length + b.environment.remaining

/-! ### What a call costs -/

theorem written_answer [Environment ε] (b : Bench ε σ) (c : Call) :
    (b.answer c).2.written = (Answered.mk c (b.answer c).1).said?.toList ++ b.written := by
  cases c with
  | inputReady | resetTime | value clock => exact congrArg Own.written (own_turn .access b)
  | read =>
    have hturn := congrArg Own.written (own_turn .access b)
    simp only [answer, read]
    split
    · exact hturn
    · exact hturn
  | write text =>
    rcases haccept : Environment.accept text b.environment with ⟨cause | _, environment⟩
    · rw [answer, write, deliver_of_refused (b := b.note (.outputEmitted text)) haccept]
      rfl
    · rcases deliver_of_taken (b := b.note (.outputEmitted text)) haccept with
        ⟨next, hdeliver, hown, -⟩
      rw [answer, write, hdeliver]
      exact congrArg Own.written hown
  | note system fields => rfl

theorem written_runOn [Environment ε] {α : Type} (p : Program α) (b : Bench ε σ) :
    (p.runOn b).2.written = (said (p.dialogue b)).reverse ++ b.written := by
  induction p generalizing b with
  | pure a => rfl
  | call c next ih =>
    have hfirst : said ((Program.call c next).dialogue b)
        = (Answered.mk c (b.answer c).1).said?.toList
          ++ said ((next (b.answer c).1).dialogue (b.answer c).2) :=
      filterMap_cons_toList _ _ _
    rw [hfirst, Program.runOn, ih, written_answer, List.reverse_append, List.append_assoc]
    cases (Answered.mk c (b.answer c).1).said? with
    | none => rfl
    | some text => rfl

theorem written_updateOn [Environment ε] (system : System σ) (b : Bench ε σ) :
    (system.updateOn b).2.written = (said (system.dialogueOn b)).reverse ++ b.written := by
  rw [updateOn_eq]
  exact written_runOn (system.update.run.run b.system) b

variable [Sink τ]

/-- A line that is written calls for what was to be sent anyway. -/
theorem remaining_wrote (text : String) (e : Scripted τ) (inbox : Inbox Unit) :
    (inbox.after (Environment.acts (.wrote text) e).1).lines.length
        + (Environment.acts (.wrote text) e).2.remaining
      ≤ inbox.lines.length + e.remaining := by
  change (inbox.after (e.acts (.wrote text)).1).lines.length
    + (e.acts (.wrote text)).2.remaining ≤ _
  unfold Scripted.acts
  simp only
  split
  · exact e.remaining_sendNext inbox
  · exact Nat.le_refl _

/-- A line that is read is used up. -/
theorem supply_answer (b : Bench (Scripted τ) σ) (c : Call) :
    (Answered.mk c (b.answer c).1).heard?.toList.length + (b.answer c).2.supply ≤ b.supply := by
  cases c with
  | inputReady | resetTime | value clock | note system fields =>
    exact Nat.le_of_eq (Nat.zero_add _)
  | read =>
    -- In a script nothing happens before a call is answered.
    have hturn : (b.turn .access).inbox = b.inbox := rfl
    rcases hread : b.inbox.read? with _ | ⟨line, inbox⟩
    · simp only [answer, read, hturn, hread]
      exact Nat.le_of_eq (Nat.zero_add _)
    · simp only [answer, read, hturn, hread]
      unfold Inbox.read? at hread
      split at hread
      · cases hread
      · next first rest hlines =>
        rcases Prod.mk.inj (Option.some.inj hread) with ⟨rfl, rfl⟩
        change 1 + (rest.length + b.environment.remaining) ≤ b.inbox.lines.length + _
        rw [hlines, List.length_cons]
        omega
  | write text =>
    have haccept := accept_eq text b.environment
    rcases hresult : (Sink.writeLine text b.environment.sink).1 with cause | _
    · rw [hresult] at haccept
      rw [answer, write, deliver_of_refused (b := b.note (.outputEmitted text)) haccept]
      exact Nat.le_of_eq (Nat.zero_add _)
    · rw [hresult] at haccept
      rcases deliver_of_taken (b := b.note (.outputEmitted text)) haccept with
        ⟨next, hdeliver, -, hinbox, henvironment⟩
      rw [answer, write, hdeliver]
      unfold supply
      rw [hinbox, henvironment]
      exact Nat.le_trans (Nat.le_of_eq (Nat.zero_add _)) (remaining_wrote text _ b.inbox)

theorem supply_runOn {α : Type} (p : Program α) (b : Bench (Scripted τ) σ) :
    (heard (p.dialogue b)).length + (p.runOn b).2.supply ≤ b.supply := by
  induction p generalizing b with
  | pure a => exact Nat.le_of_eq (Nat.zero_add _)
  | call c next ih =>
    have hfirst : heard ((Program.call c next).dialogue b)
        = (Answered.mk c (b.answer c).1).heard?.toList
          ++ heard ((next (b.answer c).1).dialogue (b.answer c).2) :=
      filterMap_cons_toList _ _ _
    have hcall := supply_answer b c
    have hrest := ih (b.answer c).1 (b.answer c).2
    change _ + ((next (b.answer c).1).runOn (b.answer c).2).2.supply ≤ _
    rw [hfirst, List.length_append]
    omega

/-- An update uses up what it reads. -/
theorem supply_updateOn (system : System σ) (b : Bench (Scripted τ) σ) :
    (heard (system.dialogueOn b)).length + (system.updateOn b).2.supply ≤ b.supply := by
  rw [updateOn_eq]
  exact supply_runOn (system.update.run.run b.system) b

end Bench

/-! ### Ranked systems -/

namespace System.IsRanked

open Bench

variable {σ τ : Type} [Sink τ] {system : System σ} {rank : σ → Nat}

/-- What the updates of a ranked system write looks like no report. -/
theorem quiet_transitions {ε : Type} [Environment ε] (h : system.IsRanked rank) (limit count : Nat)
    (b : Bench ε σ) :
    ∃ new, (transitions system.updateOn limit count b).2.written = new ++ b.written ∧
      ∀ text ∈ new, isReport text = false := by
  induction limit generalizing count b with
  | zero => exact ⟨[], rfl, nofun⟩
  | succ limit ih =>
    have hwritten := written_updateOn system b
    rcases system.ensures_updateOn (h b.system) with ⟨_, ⟨hsaid, -⟩, -⟩
    have hquiet : ∀ text ∈ (said (system.dialogueOn b)).reverse, isReport text = false :=
      fun text htext => hsaid text (List.mem_reverse.mp htext)
    unfold transitions
    rcases hupdate : system.updateOn b with ⟨halt | _ | _, next⟩
    · rw [hupdate] at hwritten
      exact ⟨_, hwritten, hquiet⟩
    · rw [hupdate] at hwritten
      rcases ih (count + 1) next with ⟨later, hlater, hlaterQuiet⟩
      refine ⟨later ++ (said (system.dialogueOn b)).reverse, ?_, fun text htext => ?_⟩
      · rw [hlater, hwritten, List.append_assoc]
      · exact (List.mem_append.mp htext).elim (hlaterQuiet text) (hquiet text)
    · rw [hupdate] at hwritten
      exact ⟨_, hwritten, hquiet⟩

theorem quiet {ε : Type} [Environment ε] (h : system.IsRanked rank) (limit : Nat) (b : Bench ε σ) :
    ∀ text ∈ stepOutput system.updateOn limit b, isReport text = false := by
  rcases h.quiet_transitions limit 0 { b with phase := .running } with ⟨new, hnew, hquiet⟩
  have hwritten : (runStep system.updateOn limit b).2.written = new ++ b.written := by
    rcases hmoves : transitions system.updateOn limit 0 { b with phase := .running } with
      ⟨halt | count, next⟩
    · rw [hmoves] at hnew
      rw [runStep_of_error hmoves]
      exact hnew
    · rw [hmoves] at hnew
      rw [runStep_of_ok hmoves]
      exact hnew
  rw [stepOutput_eq hwritten]
  exact fun text htext => hquiet text (List.mem_reverse.mp htext)

/-- A transition uses up a line, or lowers the rank. -/
theorem lowers (h : system.IsRanked rank) {b next : Bench (Scripted τ) σ}
    (hupdate : system.updateOn b = (.ok .transitioned, next)) :
    next.supply < b.supply ∨ next.supply = b.supply ∧ rank next.system < rank b.system := by
  have hsupply := supply_updateOn system b
  rcases system.ensures_updateOn (h b.system) with ⟨result, ⟨-, hlower⟩, hresult⟩
  rw [hupdate] at hsupply hlower hresult
  simp only at hsupply
  rcases result with cause | progress
  · exact absurd hresult nofun
  · rcases Except.ok.inj hresult with rfl
    -- The rank may rise with an input, but then the supply has shrunk.
    cases hheard : heard (system.dialogueOn b) with
    | nil =>
      have hrank := hlower rfl hheard
      rw [hheard, List.length_nil, Nat.zero_add] at hsupply
      exact (Nat.lt_or_eq_of_le hsupply).imp id fun hsame => ⟨hsame, hrank⟩
    | cons line rest =>
      rw [hheard, List.length_cons] at hsupply
      omega

/-- By the lines that are left, and then by the rank. -/
theorem transitions_end (h : system.IsRanked rank) (count : Nat) (b : Bench (Scripted τ) σ) :
    ∃ limit, (transitions system.updateOn limit count b).1 ≠ .error .exhausted := by
  have hstopped : ∀ cause, (.error (.error cause) : Except Halt Nat) ≠ .error .exhausted := nofun
  have hrested : (.ok count : Except Halt Nat) ≠ .error .exhausted := nofun
  rcases hupdate : system.updateOn b with ⟨halt | _ | _, next⟩
  · rcases updateOn_error system hupdate with ⟨cause, rfl⟩
    refine ⟨1, ?_⟩
    simp only [transitions, hupdate]
    exact hstopped cause
  · have hlower : Prod.Lex (· < ·) (· < ·) (next.supply, rank next.system)
        (b.supply, rank b.system) := Prod.lex_def.mpr (h.lowers hupdate)
    rcases h.transitions_end (count + 1) next with ⟨limit, hlimit⟩
    refine ⟨limit + 1, ?_⟩
    simp only [transitions, hupdate]
    exact hlimit
  · refine ⟨1, ?_⟩
    simp only [transitions, hupdate]
    exact hrested
termination_by (b.supply, rank b.system)
decreasing_by exact hlower

/-- The steps of a ranked system are orderly. -/
theorem orderly (h : system.IsRanked rank) (b : Bench (Scripted τ) σ) :
    Orderly system.updateOn b := by
  refine ⟨?_, fun limit => h.quiet limit b⟩
  rcases h.transitions_end 0 { b with phase := .running } with ⟨limit, hlimit⟩
  refine ⟨limit, fun hspent => hlimit ?_⟩
  rcases hmoves : transitions system.updateOn limit 0 { b with phase := .running } with
    ⟨halt | count, next⟩
  · rw [runStep_of_error hmoves] at hspent
    exact hspent
  · rw [runStep_of_ok hmoves] at hspent
    exact absurd hspent nofun

end System.IsRanked

/-! ### The systems of this library -/

namespace CarAlarm

open Location

/-- The number of transitions that the alarm may still take by itself. -/
def rank : Location → Nat
  | triggered => 3
  | arming | sounding | rearming => 2
  | armed | disarming | stopping | flashing => 1
  | openUnlocked | closedUnlocked | openLocked | silent => 0

theorem rank_lt_of_mem_edges (location : Location) : ∀ e ∈ edges location,
    (∀ text ∈ e.outputs, isReport text = false) ∧
      (e.input = none → rank e.target < rank location) := by
  cases location <;> decide

theorem isRanked : system.IsRanked fun a => rank a.location := by
  intro a
  refine (ensures_update a).mono fun d result next h => ?_
  have hedges := rank_lt_of_mem_edges a.location
  rcases result with cause | _ | _
  · refine ⟨fun text htext => ?_, nofun⟩
    rcases h with ⟨-, hnone | ⟨e, he, hpart⟩⟩
    · rw [hnone] at htext
      exact absurd htext List.not_mem_nil
    · exact (hedges e he).1 text (hpart.mem htext)
  · rcases h with ⟨e, he, htarget, hheard, hsaid⟩
    refine ⟨fun text htext => ?_, fun _ hnone => ?_⟩
    · rw [hsaid] at htext
      exact (hedges e he).1 text htext
    · change rank next.location < rank a.location
      rw [htarget]
      refine (hedges e he).2 ?_
      rw [hheard] at hnone
      cases hinput : e.input with
      | none => rfl
      | some input =>
        rw [hinput] at hnone
        exact absurd hnone nofun
  · rcases h with ⟨-, -, hsaid⟩
    exact .of_stopped hsaid nofun

end CarAlarm

namespace FishRetailer

open Location Procedure

/-- A tuna that is to come, and a garnish that is owed. -/
def rank (r : FishRetailer) : Nat :=
  match r.location with
  | waiting => if r.free then 1 else 0
  | coinGranted => 2

theorem isRanked : system.IsRanked rank := by
  intro r
  refine (ensures_update_serves r).mono fun d result next h => ?_
  cases h with
  | unread | refused | idle | waits | broke => exact .of_stopped rfl nofun
  | paid => exact .of_heard rfl nofun
  | serves text v note howed hdue =>
    rcases r with ⟨location, x, free⟩
    cases location with
    -- A garnish is given only if it is owed, and is owed no more then.
    | waiting =>
      cases free with
      | false => exact absurd howed nofun
      | true =>
        rcases Option.some.inj howed
        exact .of_said rfl (by decide) Nat.one_pos
    -- The tuna may leave a garnish owed, but no more than that.
    | coinGranted =>
      rcases Option.some.inj howed
      refine .of_said rfl (by decide) ?_
      cases free with
      | false => exact Nat.two_pos
      | true => exact Nat.one_lt_two

end FishRetailer

end Testbench
