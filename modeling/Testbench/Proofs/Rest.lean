import Testbench.Proofs.Clocks
import Testbench.Proofs.Contract

/-!
# Coming to Rest

How long a step can be, and what is left to do after it. A transition takes a line or lowers
the rank of the system, so with nothing else arriving, the lines held and the rank together
bound the number of transitions. A line that is taken may raise the rank again, but never
above its greatest value, so a line pays for that many transitions and its own.

A step that succeeds has ended in an update that rests. By the contract, that update has
only looked: no line was ready, and one clock was read. As long as no line arrives and the
clock reads the same, there is nothing else to be seen, so the next update looks at the same
things, gets the same answers and rests as well.

## Main definitions

* `Bench.moves`: The number of transitions of a step, also of one that fails.
* `Still`: A course on which nothing arrives and a clock does not move.
* `System.Settles`: What is to be said of a step to which nothing is pushed.

## Theorems

* `System.IsRanked.moves_le`: The transitions of a ranked system.
* `still_simulated`: Simulated time does not move in a step.
* `Program.runOn_of_looks`: The same answers lead to the same result.
* `System.Honours.rests_again`: A system at rest stays so.
* `System.Honours.runStep_again`: After a step that has succeeded, nothing is left to do.
* `systems_settle`: The steps of the two systems.
-/

namespace Testbench

/-! ### The length of a step -/

namespace Bench

variable {ε σ : Type} {update : BenchM ε σ Progress}

/-- The transitions taken in at most `limit` updates. -/
def moves (update : BenchM ε σ Progress) : Nat → Bench ε σ → Nat
  | 0, _ => 0
  | limit + 1, b =>
    match update b with
    | (.ok .transitioned, next) => moves update limit next + 1
    | _ => 0

theorem transitions_ok {limit count n : Nat} {b next : Bench ε σ}
    (h : transitions update limit count b = (.ok n, next)) : n = count + moves update limit b := by
  induction limit generalizing count b with
  | zero => simp only [transitions, Prod.mk.injEq, reduceCtorEq, false_and] at h
  | succ limit ih =>
    rcases hupdate : update b with ⟨halt | _ | _, b₁⟩
    · simp only [transitions, hupdate, Prod.mk.injEq, reduceCtorEq, false_and] at h
    · simp only [transitions, hupdate] at h
      simp only [moves, hupdate]
      rw [ih h]
      omega
    · simp only [transitions, hupdate] at h
      simp only [moves, hupdate]
      exact (Except.ok.inj (Prod.mk.inj h).1).symm

variable [Environment ε]

/-- Only as many updates as are allowed use up what is allowed. -/
theorem moves_of_exhausted {system : System σ} {limit count : Nat} {b : Bench ε σ}
    (h : (transitions system.updateOn limit count b).1 = .error .exhausted) :
    moves system.updateOn limit b = limit := by
  induction limit generalizing count b with
  | zero => rfl
  | succ limit ih =>
    rcases hupdate : system.updateOn b with ⟨halt | _ | _, b₁⟩
    · rcases updateOn_error system hupdate with ⟨cause, rfl⟩
      simp only [transitions, hupdate, Except.error.injEq, reduceCtorEq] at h
    · simp only [transitions, hupdate] at h
      simp only [moves, hupdate, ih h]
    · simp only [transitions, hupdate, reduceCtorEq] at h

end Bench

open Bench

variable {ε σ : Type} [Environment ε]

/-- By the lines that are left, and then by the rank. -/
theorem System.IsRanked.moves_le {system : System σ} {rank : σ → Nat} (h : system.IsRanked rank)
    {top : Nat} (htop : ∀ s, rank s ≤ top) (limit : Nat) {b : Bench ε σ}
    (hquiet : arrivedIn (transitionsCourse system limit b) = []) :
    moves system.updateOn limit b ≤ (top + 1) * b.inbox.lines.length + rank b.system := by
  induction limit generalizing b with
  | zero => exact Nat.zero_le _
  | succ limit ih =>
    have hlines := congrArg List.length (system.lines_updateOn b)
    rcases system.ensures_updateOn (h b.system) with ⟨result, ⟨-, hlower⟩, hresult⟩
    unfold transitionsCourse onward at hquiet
    rw [arrivedIn_append] at hquiet
    rcases List.append_eq_nil_iff.mp hquiet with ⟨hnone, hlater⟩
    rcases hupdate : system.updateOn b with ⟨halt | _ | _, next⟩
    · simp only [moves, hupdate]
      exact Nat.zero_le _
    · rw [hupdate] at hlines hlower hresult hlater
      rw [hnone, List.append_nil, List.length_append] at hlines
      have hrest := ih hlater
      simp only [moves, hupdate] at hlines hlower hrest ⊢
      rcases result with cause | progress
      · simp only [Except.mapError, reduceCtorEq] at hresult
      rcases Except.ok.inj hresult with rfl
      cases hheard : heard (system.dialogueOn b) with
      | nil =>
        have hrank := hlower rfl hheard
        rw [hheard, List.length_nil, Nat.zero_add] at hlines
        rw [hlines] at hrest
        omega
      | cons line rest =>
        -- The rank may rise with an input, but the line has paid for that.
        have hrank := htop next.system
        rw [hheard, List.length_cons] at hlines
        have hpaid : (top + 1) * (next.inbox.lines.length + 1)
            ≤ (top + 1) * b.inbox.lines.length := Nat.mul_le_mul_left _ (by omega)
        rw [Nat.mul_succ] at hpaid
        omega
    · simp only [moves, hupdate]
      exact Nat.zero_le _

/-! ### What does not move -/

/-- Nothing arrives, and the clock reads the same throughout. -/
structure Still {ε σ : Type} (clock : Anchor) (time : Float) (c : Course ε σ) : Prop where
  arrivals : arrivedIn c = []
  readings : ∀ p ∈ c, p.bench.reading clock = time

theorem still_append {ε σ : Type} {clock : Anchor} {time : Float} {c c' : Course ε σ} :
    Still clock time (c ++ c') ↔ Still clock time c ∧ Still clock time c' := by
  constructor
  · rintro ⟨harrivals, hreadings⟩
    rw [arrivedIn_append, List.append_eq_nil_iff] at harrivals
    exact ⟨⟨harrivals.1, fun p hp => hreadings p (List.mem_append_left _ hp)⟩,
      ⟨harrivals.2, fun p hp => hreadings p (List.mem_append_right _ hp)⟩⟩
  · rintro ⟨h, h'⟩
    refine ⟨?_, fun p hp => (List.mem_append.mp hp).elim (h.readings p) (h'.readings p)⟩
    rw [arrivedIn_append, h.arrivals, h'.arrivals]
    rfl

namespace Still

variable {clock : Anchor} {time : Float} {b : Bench ε σ}

omit [Environment ε] in
theorem acts {inCall : Bool} {acts : List Act} (h : Still clock time (actsCourse inCall acts b))
    (hb : b.reading clock = time) : (acts.foldl (receive inCall) b).reading clock = time := by
  induction acts generalizing b with
  | nil => exact hb
  | cons act rest ih =>
    rcases (still_append (c := [_])).mp h with ⟨hfirst, hrest⟩
    exact ih hrest (hfirst.readings _ (.head _))

theorem turn {moment : Moment} (h : Still clock time (b.turnCourse moment))
    (hb : b.reading clock = time) : (b.turn moment).reading clock = time :=
  acts (b := { b with environment := (Environment.acts moment b.environment).2 }) h hb

theorem lines_turn {moment : Moment} (h : Still clock time (b.turnCourse moment))
    (hlines : b.inbox.lines = []) : (b.turn moment).inbox.lines = [] := by
  rw [b.lines_turn, h.arrivals, hlines]
  rfl

/-- A call is answered at the same reading. -/
theorem answer {c : Call} (h : Still clock time (b.answerCourse c))
    (hb : b.reading clock = time) : (b.answer c).2.reading clock = time := by
  cases c with
  | inputReady | resetTime | value x => exact h.turn hb
  | read =>
    have hturn := (still_append.mp h).1.turn hb
    simp only [Bench.answer, Bench.read]
    split
    · exact hturn
    · exact hturn
  | write text =>
    rcases haccept : Environment.accept text b.environment with ⟨cause | _, environment⟩
    · simp only [Bench.answer, Bench.write, Bench.deliver, Bench.note, haccept]
      exact hb
    · simp only [Bench.answerCourse, Bench.deliverCourse, Bench.note, haccept] at h
      simp only [Bench.answer, Bench.write, Bench.deliver, Bench.note, haccept]
      rcases (still_append (c := [_])).mp h with ⟨hfirst, hrest⟩
      exact hrest.turn (hfirst.readings _ (.head _))
  | note system fields => exact hb

theorem runOn {α : Type} {p : Program α} (h : Still clock time (p.course b))
    (hb : b.reading clock = time) : (p.runOn b).2.reading clock = time := by
  induction p generalizing b with
  | pure a => exact hb
  | call c next ih =>
    rcases still_append.mp h with ⟨hfirst, hrest⟩
    exact ih _ hrest (hfirst.answer hb)

theorem updateOn {system : System σ} (h : Still clock time (updateCourse system b))
    (hb : b.reading clock = time) : (system.updateOn b).2.reading clock = time := by
  rw [updateOn_eq]
  exact h.runOn hb

end Still

/-! ### Simulated time does not move in a step -/

theorem Bench.actor_transitions (system : System σ) (limit : Nat) (b : Bench ε σ) :
    ∀ p ∈ transitionsCourse system limit b, p.happening.actor ≠ .policy := by
  induction limit generalizing b with
  | zero => exact fun p hp => absurd hp List.not_mem_nil
  | succ limit ih =>
    intro p hp
    rcases List.mem_append.mp hp with hfirst | hrest
    · exact actor_program hfirst
    · rcases mem_onward hrest with ⟨progress, next, -, hlater⟩
      cases progress with
      | transitioned => exact ih next p hlater
      | quiescent => exact absurd hlater List.not_mem_nil

/-- While time is simulated, a step to which nothing is pushed is still by itself. -/
theorem still_simulated {system : System σ} {limit : Nat} {b : Bench ε σ} {s : SimulatedTime}
    (hpolicy : b.policy = .simulated s) (hquiet : arrivedIn (stepCourse system limit b) = [])
    (clock : Anchor) : Still clock (b.reading clock) (stepCourse system limit b) := by
  refine ⟨hquiet, fun p hp => ?_⟩
  have hsame := (leads_transitions system limit 0 { b with phase := .running }).policy_eq
    (actor_transitions system limit _) p hp
  rw [reading_simulated (hsame.trans hpolicy), reading_simulated hpolicy]

/-! ### The same answers once more -/

section

variable {clock : Anchor} {time : Float} {b b' : Bench ε σ}

/-- With no line held and the clock at the same time, a look gets the same answer. -/
theorem Looks.answer_eq {c : Call} {d : List Answered}
    (hlooks : Looks clock (⟨c, (b.answer c).1⟩ :: d)) (hb : b.reading clock = time)
    (hstill : Still clock time (b.answerCourse c)) (hlines : b'.inbox.lines = [])
    (hb' : b'.reading clock = time) (hstill' : Still clock time (b'.answerCourse c)) :
    (b'.answer c).1 = (b.answer c).1 ∧ (b'.answer c).2.inbox.lines = [] := by
  generalize hanswer : (b.answer c).1 = answer at hlooks ⊢
  cases hlooks with
  | unready _ =>
    have hnone : (b'.turn .access).inbox.lines = [] := hstill'.lines_turn hlines
    refine ⟨?_, hnone⟩
    change (b'.turn .access).inbox.isReady = false
    rw [Inbox.isReady, hnone]
    rfl
  | value v _ =>
    refine ⟨?_, hstill'.lines_turn hlines⟩
    rw [← hanswer]
    calc (b'.value clock).1 = (b'.turn .access).reading clock := b'.value_eq clock
      _ = time := hstill'.turn hb'
      _ = (b.turn .access).reading clock := (hstill.turn hb).symm
      _ = (b.value clock).1 := (b.value_eq clock).symm

/-- The same answers lead to the same result. -/
theorem Program.runOn_of_looks {α : Type} {p : Program α} (hlooks : Looks clock (p.dialogue b))
    (hb : b.reading clock = time) (hstill : Still clock time (p.course b))
    (hlines : b'.inbox.lines = []) (hb' : b'.reading clock = time)
    (hstill' : Still clock time (p.course b')) : (p.runOn b').1 = (p.runOn b).1 := by
  induction p generalizing b b' with
  | pure a => rfl
  | call c next ih =>
    rcases still_append.mp hstill with ⟨hfirst, hrest⟩
    rcases still_append.mp hstill' with ⟨hfirst', hrest'⟩
    rcases hlooks.answer_eq hb hfirst hlines hb' hfirst' with ⟨hanswer, hnone⟩
    change ((next (b'.answer c).1).runOn (b'.answer c).2).1
      = ((next (b.answer c).1).runOn (b.answer c).2).1
    rw [hanswer] at hrest' ⊢
    exact ih _ hlooks.head.2 (hfirst.answer hb) hrest hnone (hfirst'.answer hb') hrest'

end

/-! ### At rest -/

/-- Updates that succeed end with one that rests. -/
theorem Bench.exists_resting {system : System σ} {limit count n : Nat} {b rested : Bench ε σ}
    (h : transitions system.updateOn limit count b = (.ok n, rested)) :
    ∃ resting before, system.updateOn resting = (.ok .quiescent, rested) ∧
      transitionsCourse system limit b = before ++ updateCourse system resting ∧
      ∀ clock time, b.reading clock = time → Still clock time before →
        resting.reading clock = time := by
  induction limit generalizing count b with
  | zero => simp only [transitions, Prod.mk.injEq, reduceCtorEq, false_and] at h
  | succ limit ih =>
    unfold transitionsCourse onward
    rcases hupdate : system.updateOn b with ⟨halt | _ | _, b₁⟩
    · simp only [transitions, hupdate, Prod.mk.injEq, reduceCtorEq, false_and] at h
    · simp only [transitions, hupdate] at h
      rcases ih h with ⟨resting, before, hresting, hcourse, hreading⟩
      refine ⟨resting, updateCourse system b ++ before, hresting, ?_, fun clock time hb hstill => ?_⟩
      · simp only [hcourse, List.append_assoc]
      · rcases still_append.mp hstill with ⟨hfirst, hrest⟩
        have hafter := hfirst.updateOn hb
        rw [hupdate] at hafter
        exact hreading clock time hafter hrest
    · simp only [transitions, hupdate] at h
      rcases Prod.mk.inj h with ⟨-, rfl⟩
      exact ⟨b, [], hupdate, List.append_nil _, fun clock time hb _ => hb⟩

namespace System.Honours

variable {system : System σ} {name : σ → String} {clock : σ → Anchor} {b later : Bench ε σ}

theorem rests (h : system.Honours name clock)
    (hquiescent : (system.updateOn b).1 = .ok .quiescent) : system.Rests b := by
  rcases h.shows b with ⟨conduct, hshows⟩
  have hconduct := hshows.conduct_eq
  rw [hquiescent, conductOf] at hconduct
  subst hconduct
  exact hshows.2

/-- An update that rests has only looked. -/
theorem looks (h : system.Honours name clock)
    (hquiescent : (system.updateOn b).1 = .ok .quiescent) :
    Looks (clock b.system) (system.dialogueOn b) := by
  rcases system.ensures_updateOn (h b.system) with ⟨result, hconducts, hresult⟩
  rw [hquiescent] at hresult
  rcases result with cause | progress
  · exact absurd hresult nofun
  rcases Except.ok.inj hresult with rfl
  generalize (system.updateOn b).2.system = next at hconducts
  generalize system.dialogueOn b = d at hconducts ⊢
  cases hconducts with
  | rests hlooks _ => exact hlooks

/-- A system at rest stays so while nothing arrives and its clock does not move. -/
theorem rests_again (h : system.Honours name clock) {time : Float}
    (hquiescent : (system.updateOn b).1 = .ok .quiescent)
    (hb : b.reading (clock b.system) = time)
    (hstill : Still (clock b.system) time (updateCourse system b))
    (hsame : later.system = b.system) (hlines : later.inbox.lines = [])
    (hlater : later.reading (clock b.system) = time)
    (hstill' : Still (clock b.system) time (updateCourse system later)) :
    (system.updateOn later).1 = .ok .quiescent := by
  have hlooks := h.looks hquiescent
  unfold updateCourse at hstill'
  rw [hsame] at hstill'
  rw [updateOn_eq] at hquiescent ⊢
  simp only at hquiescent ⊢
  rw [hsame, Program.runOn_of_looks hlooks hb hstill hlines hlater hstill']
  exact hquiescent

end System.Honours

/-- A step to which nothing is pushed leaves no line. -/
theorem System.Honours.lines_runStep {system : System σ} {name : σ → String} {clock : σ → Anchor}
    (h : system.Honours name clock) {limit count : Nat} {b next : Bench ε σ}
    (hstep : runStep system.updateOn limit b = (.ok count, next))
    (hquiet : arrivedIn (stepCourse system limit b) = []) : next.inbox.lines = [] := by
  rcases runStep_ok hstep with ⟨rested, htransitions, rfl⟩
  rcases exists_resting htransitions with ⟨resting, before, hupdate, hcourse, -⟩
  have hrests := h.rests (congrArg Prod.fst hupdate)
  have hlines := hrests.consumes.2
  unfold stepCourse at hquiet
  rw [hcourse, arrivedIn_append, List.append_eq_nil_iff] at hquiet
  rw [hrests.lines, hquiet.2, hupdate] at hlines
  exact hlines

/-- The bench is as a step has left it that came to rest at this reading of the clock. -/
structure System.RestsAt (system : System σ) (clock : σ → Anchor) (time : Float)
    (b : Bench ε σ) : Prop where
  phase : b.phase = .quiescent
  lines : b.inbox.lines = []
  reading : b.reading (clock b.system) = time
  resting : ∃ resting : Bench ε σ, resting.system = b.system ∧
    (system.updateOn resting).1 = .ok .quiescent ∧ resting.reading (clock b.system) = time ∧
    Still (clock b.system) time (updateCourse system resting)

theorem System.Honours.restsAt {system : System σ} {name : σ → String} {clock : σ → Anchor}
    (h : system.Honours name clock) {limit count : Nat} {b next : Bench ε σ} {time : Float}
    (hstep : runStep system.updateOn limit b = (.ok count, next))
    (hb : b.reading (clock next.system) = time)
    (hstill : Still (clock next.system) time (stepCourse system limit b)) :
    system.RestsAt clock time next := by
  have hlines := h.lines_runStep hstep hstill.arrivals
  rcases runStep_ok hstep with ⟨rested, htransitions, rfl⟩
  rcases exists_resting htransitions with ⟨resting, before, hupdate, hcourse, hreading⟩
  have hquiescent : (system.updateOn resting).1 = .ok .quiescent := congrArg Prod.fst hupdate
  have hown := (h.rests hquiescent).own
  unfold stepCourse at hstill
  rw [hcourse] at hstill
  rcases still_append.mp hstill with ⟨hbefore, hlast⟩
  have hreads := hreading _ _ hb hbefore
  have hafter := hlast.updateOn hreads
  rw [hupdate] at hown hafter
  exact ⟨rfl, hlines, hafter, resting, (congrArg Own.system hown).symm, hquiescent, hreads, hlast⟩

/-- After a step that has succeeded, the next one has nothing to do. -/
theorem System.Honours.runStep_again {system : System σ} {name : σ → String} {clock : σ → Anchor}
    (h : system.Honours name clock) {limit : Nat} {b : Bench ε σ} {time : Float}
    (hrest : system.RestsAt clock time b)
    (hstill : Still (clock b.system) time (stepCourse system (limit + 1) b)) :
    ∃ last, runStep system.updateOn (limit + 1) b = (.ok 0, last) ∧ last.own = b.own ∧
      last.inbox.lines = b.inbox.lines ∧
      (stepCourse system (limit + 1) b = [] → last.inbox = b.inbox) := by
  rcases hrest.resting with ⟨resting, hsame, hresting, hreads, hlast⟩
  have hcourse : Still (clock b.system) time (updateCourse system { b with phase := .running }) :=
    (still_append.mp hstill).1
  rw [← hsame] at hreads hlast
  have hquiescent : (system.updateOn { b with phase := .running }).1 = .ok .quiescent :=
    h.rests_again hresting hreads hlast hsame.symm hrest.lines (hsame ▸ hrest.reading)
      (hsame ▸ hcourse)
  rcases h.rests hquiescent with ⟨-, -, ⟨-, hleft⟩, hown, -, hinbox⟩
  rcases hupdate : system.updateOn { b with phase := .running } with ⟨result, last⟩
  rw [hupdate] at hquiescent hleft hown hinbox
  obtain rfl : result = .ok .quiescent := hquiescent
  have hmoves : transitions system.updateOn (limit + 1) 0 { b with phase := .running }
      = (.ok 0, last) := by
    simp only [transitions, hupdate]
  rw [hcourse.arrivals, List.append_nil] at hleft
  refine ⟨_, runStep_of_ok hmoves, ?_, hleft, fun hnone => ?_⟩
  · have hphase : { b.own with phase := .quiescent } = b.own := by
      rw [← hrest.phase]
      rfl
    exact (congrArg (fun own => { own with phase := Phase.quiescent }) hown).trans hphase
  · exact hinbox (List.append_eq_nil_iff.mp hnone).1

/-- What is to be said of a step to which nothing is pushed. -/
structure System.Settles (system : System σ) (clock : σ → Anchor) (limit : Nat) (b : Bench ε σ) :
    Prop where
  moves_le : moves system.updateOn limit { b with phase := .running }
    ≤ 4 * b.inbox.lines.length + 3
  ends : 4 * b.inbox.lines.length + 3 < limit →
    (∃ count, (runStep system.updateOn limit b).1 = .ok count) ∨
      ∃ cause, (runStep system.updateOn limit b).1 = .error (.error cause)
  rested : ∀ count next, runStep system.updateOn limit b = (.ok count, next) →
    count = moves system.updateOn limit { b with phase := .running } ∧ next.inbox.lines = []
  again : ∀ count next, runStep system.updateOn limit b = (.ok count, next) →
    ∀ limit', arrivedIn (stepCourse system (limit' + 1) next) = [] →
    (∀ p ∈ stepCourse system limit b ++ stepCourse system (limit' + 1) next,
      p.bench.reading (clock next.system) = b.reading (clock next.system)) →
    ∃ last, runStep system.updateOn (limit' + 1) next = (.ok 0, last) ∧ last.own = next.own ∧
      last.inbox.lines = next.inbox.lines ∧
      (stepCourse system (limit' + 1) next = [] → last.inbox = next.inbox)

theorem System.Honours.settles {system : System σ} {name : σ → String} {clock : σ → Anchor}
    {rank : σ → Nat} (h : system.Honours name clock) (hranked : system.IsRanked rank)
    (htop : ∀ s, rank s ≤ 3) {limit : Nat} {b : Bench ε σ}
    (hquiet : arrivedIn (stepCourse system limit b) = []) : system.Settles clock limit b := by
  have hmoves : moves system.updateOn limit { b with phase := .running }
      ≤ 4 * b.inbox.lines.length + 3 :=
    Nat.le_trans (hranked.moves_le htop limit hquiet) (Nat.add_le_add_left (htop b.system) _)
  refine ⟨hmoves, fun hlimit => ?_, fun count next hstep => ?_,
    fun count next hstep limit' hnone hreadings => ?_⟩
  · rcases hresult : runStep system.updateOn limit b with ⟨halt | count, next⟩
    · rcases runStep_error system hresult with rfl | ⟨cause, rfl⟩
      · rw [moves_of_exhausted (congrArg Prod.fst (runStep_stopped hresult))] at hmoves
        omega
      · exact .inr ⟨cause, rfl⟩
    · exact .inl ⟨count, rfl⟩
  · rcases runStep_ok hstep with ⟨rested, htransitions, rfl⟩
    refine ⟨?_, h.lines_runStep hstep hquiet⟩
    rw [transitions_ok htransitions, Nat.zero_add]
  · refine h.runStep_again (h.restsAt hstep rfl ⟨hquiet, fun p hp => ?_⟩) ⟨hnone, fun p hp => ?_⟩
    · exact hreadings p (List.mem_append_left _ hp)
    · exact hreadings p (List.mem_append_right _ hp)

theorem CarAlarm.rank_le (a : CarAlarm) : rank a.location ≤ 3 := by
  cases a.location <;> decide

theorem FishRetailer.rank_le (r : FishRetailer) : rank r ≤ 3 := by
  unfold rank
  split
  · split <;> decide
  · decide

/-- A step of either system to which nothing is pushed ends, with success or an error, after at
    most `4 n + 3` transitions for `n` lines held, whatever the state and the clocks. If it
    succeeds, no line is left; and once more at the same reading of its clock, a step takes no
    transition and leaves the system, the lines, what was written and the mark of output as they
    are. -/
theorem systems_settle {ε : Type} [Environment ε] :
    (∀ (b : Bench ε CarAlarm) (limit : Nat),
      arrivedIn (stepCourse CarAlarm.system limit b) = [] →
        CarAlarm.system.Settles CarAlarm.x limit b) ∧
    ∀ (b : Bench ε FishRetailer) (limit : Nat),
      arrivedIn (stepCourse FishRetailer.system limit b) = [] →
        FishRetailer.system.Settles FishRetailer.x limit b :=
  ⟨fun _ _ hquiet => CarAlarm.honours.settles CarAlarm.isRanked CarAlarm.rank_le hquiet,
    fun _ _ hquiet => FishRetailer.honours.settles FishRetailer.isRanked FishRetailer.rank_le
      hquiet⟩

/-- Twenty-five milliseconds after the car was locked, the alarm has not been armed yet. -/
def overdue : Bench Passive CarAlarm where
  inbox := .filled [⟨"open"⟩]
  hasOutput := false
  policy := .simulated (.startingAt ⟨25000000, by decide, by decide⟩)
  phase := .running
  virtualTime := .epoch
  wall := .epoch
  wake := .asleep
  environment := {}
  system := ⟨.arming, ⟨.epoch⟩, false⟩
  written := []
  journal := .empty none

theorem systems_settle_overdue :
    (runStep CarAlarm.system.updateOn 8 overdue).2.written
        = ["soundOn", "flashOn", "armedOff", "armedOn"] ∧
      ∃ next last, runStep CarAlarm.system.updateOn 8 overdue = (.ok 3, next) ∧
        runStep CarAlarm.system.updateOn 1 next = (.ok 0, last) ∧ last.own = next.own := by
  have hquiet : arrivedIn (stepCourse CarAlarm.system 8 overdue) = [] := by decide +kernel
  have hcount : (runStep CarAlarm.system.updateOn 8 overdue).1.toOption = some 3 := by
    decide +kernel
  have hnone : arrivedIn (stepCourse CarAlarm.system 1
      (runStep CarAlarm.system.updateOn 8 overdue).2) = [] := by decide +kernel
  have hsettles := systems_settle.1 overdue 8 hquiet
  refine ⟨by decide +kernel, ?_⟩
  rcases hstep : runStep CarAlarm.system.updateOn 8 overdue with ⟨halt | count, next⟩
  · rw [hstep] at hcount
    exact absurd hcount nofun
  · rw [hstep] at hcount hnone
    rcases own_runStep CarAlarm.system 8 overdue with ⟨new, state, phase, hown⟩
    rw [hstep] at hown
    have hpolicy : next.policy = overdue.policy := congrArg Own.policy hown
    have hreadings : ∀ p ∈ stepCourse CarAlarm.system 8 overdue ++ stepCourse CarAlarm.system 1 next,
        p.bench.reading next.system.x = overdue.reading next.system.x := by
      intro p hp
      rcases List.mem_append.mp hp with hfirst | hagain
      · exact (still_simulated rfl hquiet _).readings p hfirst
      · rw [(still_simulated (hpolicy.trans rfl) hnone _).readings p hagain,
          reading_simulated (hpolicy.trans rfl), reading_simulated rfl]
    rcases hsettles.again count next hstep 0 hnone hreadings with ⟨last, hlast, hsame, -⟩
    rcases Option.some.inj hcount with rfl
    exact ⟨next, last, rfl, hlast, hsame⟩

end Testbench
