import Testbench.Proofs.Course

/-!
# The Stages of a Run

A run is made of three kinds of work. It starts, then it updates the system under test
until that is quiescent, and settles when the next step begins, and so on until one of
these fails. This module lists them in order, each with the bench at which it begins, so
that what is said of all updates or of the last wait of a run is said of this list.

`Follows` is what ties the list to the run. Each stretch of work begins where the one
before has ended, up to the phase and the journal; all but the last have succeeded; and a
run stops with the failure of the last one, or because no more steps are allowed. An
invariant of a run is therefore shown of one successful stretch, and `Follows.invariant`
carries it to every bench at which a stretch begins. What has happened until then is
carried along, since the course of a run is the courses of its stretches.

Who makes something happen is told by the stage as well. Only an update is the work of the
system under test, and only the other two are that of the policy. The environment may act
in all three.

## Main definitions

* `Stage`, `Stretch`: The kinds of work, and a piece of it.
* `Actor`: Who makes something happen.
* `Stretch.outcome`, `Stretch.course`: What it ends with, and all that happens in it.
* `Bench.stages`: The stretches of a run.
* `Bench.IsLike`: Two benches that differ in phase and journal.
* `Bench.SparesSystem`: Work that leaves the system under test alone.
* `Follows`: Stretches one after another.

## Theorems

* `Bench.follows_run`: A run goes through its stretches.
* `Follows.invariant`: What each successful stretch keeps.
* `Follows.last_of_halt`: A stretch that fails is the last one.
* `Follows.exists_last`: The failure of a run is that of its last stretch.
* `Bench.runCourse_eq`: The course of a run, stretch by stretch.
* `Bench.actor_program`: A program leaves time to the policy.
* `Stretch.actor_ne_system`, `Stretch.system_eq`: The system under test between updates.
-/

namespace Testbench

inductive Stage
  | start
  | update
  | settle
  deriving DecidableEq

/-- Who makes something happen. -/
inductive Actor
  | environment
  | system
  | policy
  deriving DecidableEq

def Happening.actor : Happening → Actor
  | .arrived _ | .turnedAway _ | .closed | .elapsed _ => .environment
  | .consumed _ | .wrote _ => .system
  | .swept _ | .opened _ | .refused _ | .ticked | .reported _ => .policy

structure Stretch (ε σ : Type) where
  stage : Stage
  /-- Where it begins. -/
  bench : Bench ε σ

def haltOf {α : Type} : Except Halt α → Option Halt
  | .ok _ => none
  | .error halt => some halt

theorem haltOf_eq_some {α : Type} {result : Except Halt α} {halt : Halt} :
    haltOf result = some halt ↔ result = .error halt := by
  cases result with
  | ok a => exact ⟨nofun, nofun⟩
  | error cause => simp only [haltOf, Option.some.injEq, Except.error.injEq]

theorem haltOf_eq_none {α : Type} {result : Except Halt α} (h : haltOf result = none) :
    ∃ a, result = .ok a := by
  cases result with
  | ok a => exact ⟨a, rfl⟩
  | error cause => exact absurd h nofun

namespace Stretch

variable {ε σ : Type} [Environment ε]

/-- Why the work stops, if it does, and the bench that it leaves. -/
def outcome (system : System σ) (t : Stretch ε σ) : Option Halt × Bench ε σ :=
  match t.stage with
  | .start => (haltOf t.bench.start.1, t.bench.start.2)
  | .update => (haltOf (system.updateOn t.bench).1, (system.updateOn t.bench).2)
  | .settle => (haltOf t.bench.settle.1, t.bench.settle.2)

def course (system : System σ) (t : Stretch ε σ) : Course ε σ :=
  match t.stage with
  | .start => t.bench.startCourse
  | .update => Bench.updateCourse system t.bench
  | .settle => t.bench.settleCourse

end Stretch

namespace Bench

variable {ε σ : Type}

/-- The benches differ at most in phase and journal. -/
def IsLike (b next : Bench ε σ) : Prop := ∃ phase journal, next = { b with phase, journal }

namespace IsLike

theorem refl (b : Bench ε σ) : b.IsLike b := ⟨_, _, rfl⟩

theorem trans {a b c : Bench ε σ} (hab : a.IsLike b) (hbc : b.IsLike c) : a.IsLike c := by
  rcases hab with ⟨phase, journal, rfl⟩
  rcases hbc with ⟨phase', journal', rfl⟩
  exact ⟨phase', journal', rfl⟩

theorem setPhase (b : Bench ε σ) (phase : Phase) : b.IsLike { b with phase } := ⟨_, _, rfl⟩

theorem note (b : Bench ε σ) (event : Event) : b.IsLike (b.note event) := ⟨_, _, rfl⟩

theorem scene_eq {b next : Bench ε σ} (h : b.IsLike next) : next.scene = b.scene := by
  rcases h with ⟨phase, journal, rfl⟩
  rfl

theorem inbox_eq {b next : Bench ε σ} (h : b.IsLike next) : next.inbox = b.inbox := by
  rcases h with ⟨phase, journal, rfl⟩
  rfl

end IsLike

/-! ### The stretches of a run -/

variable [Environment ε]

def updateStages (system : System σ) : Nat → Bench ε σ → List (Stretch ε σ)
  | 0, _ => []
  | limit + 1, b => ⟨.update, b⟩ :: match system.updateOn b with
    | (.ok .transitioned, next) => updateStages system limit next
    | _ => []

def driveStages (system : System σ) (limit : Nat) : Nat → Bench ε σ → List (Stretch ε σ)
  | 0, _ => []
  | steps + 1, b => updateStages system limit { b with phase := .running } ++
    match runStep system.updateOn limit b with
    | (.ok _, b) => ⟨.settle, b⟩ :: match settle b with
      | (.ok _, b) => driveStages system limit steps b
      | (.error _, _) => []
    | (.error _, _) => []

def stages (system : System σ) (limit steps : Nat) (b : Bench ε σ) : List (Stretch ε σ) :=
  ⟨.start, b⟩ :: match start b with
    | (.ok _, b) => driveStages system limit steps b
    | (.error _, _) => []

theorem stages_of_started {system : System σ} {limit steps : Nat} {b next : Bench ε σ}
    (h : start b = (.ok (), next)) :
    stages system limit steps b = ⟨.start, b⟩ :: driveStages system limit steps next := by
  simp only [stages, h]

theorem stages_of_stopped {system : System σ} {limit steps : Nat} {b next : Bench ε σ}
    {halt : Halt} (h : start b = (.error halt, next)) :
    stages system limit steps b = [⟨.start, b⟩] := by
  simp only [stages, h]

theorem stage_of_mem_updateStages {system : System σ} {limit : Nat} {b : Bench ε σ}
    {t : Stretch ε σ} (h : t ∈ updateStages system limit b) : t.stage = .update := by
  induction limit generalizing b with
  | zero => exact absurd h List.not_mem_nil
  | succ limit ih =>
    rcases List.mem_cons.mp h with rfl | hrest
    · rfl
    · split at hrest
      · exact ih hrest
      · exact absurd hrest List.not_mem_nil

/-- Only the first stretch of a run is a start. -/
theorem stage_ne_start {system : System σ} {limit steps : Nat} {b : Bench ε σ}
    {t : Stretch ε σ} (h : t ∈ driveStages system limit steps b) : t.stage ≠ .start := by
  induction steps generalizing b with
  | zero => exact absurd h List.not_mem_nil
  | succ steps ih =>
    rcases List.mem_append.mp h with hstep | hrest
    · rw [stage_of_mem_updateStages hstep]
      exact nofun
    · split at hrest
      · rcases List.mem_cons.mp hrest with rfl | hlater
        · exact nofun
        · split at hlater
          · exact ih hlater
          · exact absurd hlater List.not_mem_nil
      · exact absurd hrest List.not_mem_nil

end Bench

/-! ### Stretches one after another -/

/-- The stretches follow one another from a bench to another one. All of them succeed, or
    the last one stops with the given halt, or no more of them are allowed. -/
inductive Follows {ε σ : Type} [Environment ε] (system : System σ) :
    Bench ε σ → List (Stretch ε σ) → Option Halt → Bench ε σ → Prop
  | nil {b next : Bench ε σ} (hlike : b.IsLike next) : Follows system b [] none next
  | spent {b next : Bench ε σ} (hlike : b.IsLike next) :
      Follows system b [] (some .exhausted) next
  | stopped {b next : Bench ε σ} {t : Stretch ε σ} {halt : Halt} (hlike : b.IsLike t.bench)
      (hhalt : (t.outcome system).1 = some halt) (hnext : (t.outcome system).2.IsLike next) :
      Follows system b [t] (some halt) next
  | cons {b next : Bench ε σ} {t : Stretch ε σ} {rest : List (Stretch ε σ)} {halt : Option Halt}
      (hlike : b.IsLike t.bench) (hgoes : (t.outcome system).1 = none)
      (hrest : Follows system (t.outcome system).2 rest halt next) :
      Follows system b (t :: rest) halt next

namespace Follows

variable {ε σ : Type} [Environment ε] {system : System σ} {b mid next : Bench ε σ}
  {ts ts' : List (Stretch ε σ)} {halt : Option Halt}

theorem of_like (hlike : b.IsLike mid) (h : Follows system mid ts halt next) :
    Follows system b ts halt next := by
  cases h with
  | nil h => exact .nil (hlike.trans h)
  | spent h => exact .spent (hlike.trans h)
  | stopped h hhalt hnext => exact .stopped (hlike.trans h) hhalt hnext
  | cons h hgoes hrest => exact .cons (hlike.trans h) hgoes hrest

theorem to_like (h : Follows system b ts halt mid) (hlike : mid.IsLike next) :
    Follows system b ts halt next := by
  induction h with
  | nil h => exact .nil (h.trans hlike)
  | spent h => exact .spent (h.trans hlike)
  | stopped h hhalt hnext => exact .stopped h hhalt (hnext.trans hlike)
  | cons h hgoes _ ih => exact .cons h hgoes (ih hlike)

theorem append (h : Follows system b ts none mid) (h' : Follows system mid ts' halt next) :
    Follows system b (ts ++ ts') halt next := by
  generalize hnone : (none : Option Halt) = first at h
  induction h with
  | nil hlike => exact h'.of_like hlike
  | spent | stopped => exact absurd hnone nofun
  | cons hlike hgoes _ ih => exact .cons hlike hgoes (ih h' hnone)

theorem of_stopped {t : Stretch ε σ} {cause : Halt} (h : t.outcome system = (some cause, next)) :
    Follows system t.bench [t] (some cause) next := by
  refine .stopped (.refl t.bench) (congrArg Prod.fst h) ?_
  rw [h]
  exact .refl next

theorem of_done {t : Stretch ε σ} (h : t.outcome system = (none, mid))
    (hrest : Follows system mid ts halt next) : Follows system t.bench (t :: ts) halt next := by
  refine .cons (.refl t.bench) (congrArg Prod.fst h) ?_
  rw [h]
  exact hrest

/-- A stretch with another one behind it has succeeded. -/
theorem uncons {before after : List (Stretch ε σ)} {u t : Stretch ε σ}
    (h : Follows system b (u :: (before ++ t :: after)) halt next) :
    b.IsLike u.bench ∧ (u.outcome system).1 = none ∧
      Follows system (u.outcome system).2 (before ++ t :: after) halt next := by
  generalize hrest : before ++ t :: after = rest at h
  cases h with
  | cons hlike hgoes hfollows => exact ⟨hlike, hgoes, hfollows⟩
  | stopped =>
    exact absurd hrest (List.append_ne_nil_of_right_ne_nil _ (List.cons_ne_nil _ _))

/-- A stretch that fails is the last one. The whole stops with its failure, where it has
    stopped. -/
theorem last_of_halt {before after : List (Stretch ε σ)} {t : Stretch ε σ} {cause : Halt}
    (h : Follows system b (before ++ t :: after) halt next)
    (hhalt : (t.outcome system).1 = some cause) :
    after = [] ∧ halt = some cause ∧ (t.outcome system).2.IsLike next := by
  induction before generalizing b with
  | nil =>
    cases h with
    | stopped _ hthis hnext => exact ⟨rfl, hthis.symm.trans hhalt, hnext⟩
    | cons _ hgoes _ => exact absurd (hgoes.symm.trans hhalt) nofun
  | cons u before ih =>
    rcases h.uncons with ⟨-, -, hrest⟩
    exact ih hrest

/-- The failure of the whole is that of the last stretch, unless no more are allowed. -/
theorem exists_last {cause : Halt} (h : Follows system b ts (some cause) next)
    (hcause : cause ≠ .exhausted) :
    ∃ before t, ts = before ++ [t] ∧ (t.outcome system).1 = some cause ∧
      (t.outcome system).2.IsLike next := by
  generalize hsome : some cause = halt at h
  induction h with
  | nil => exact absurd hsome nofun
  | spent => exact absurd (Option.some.inj hsome) hcause
  | @stopped _ _ t _ _ hhalt hnext => exact ⟨[], t, rfl, hhalt, hnext⟩
  | @cons _ _ u _ _ _ _ _ ih =>
    rcases ih hsome with ⟨before, t, rfl, hhalt, hnext⟩
    exact ⟨u :: before, t, rfl, hhalt, hnext⟩

/-- What every successful stretch keeps, together with all that has happened so far, holds
    wherever a stretch begins. -/
theorem invariant {P : Course ε σ → Bench ε σ → Prop} {before after : List (Stretch ε σ)}
    {t : Stretch ε σ} (past : Course ε σ)
    (hlike : ∀ {past b next}, P past b → b.IsLike next → P past next)
    (hkept : ∀ {past} {u : Stretch ε σ}, u ∈ before → P past u.bench →
      (u.outcome system).1 = none → P (past ++ u.course system) (u.outcome system).2)
    (h : Follows system b (before ++ t :: after) halt next) (hb : P past b) :
    P (past ++ before.flatMap (Stretch.course system)) t.bench := by
  induction before generalizing b past with
  | nil =>
    -- Before the first stretch only phase and journal can have changed.
    rw [List.flatMap_nil, List.append_nil]
    cases h with
    | stopped hfirst _ _ | cons hfirst _ _ => exact hlike hb hfirst
  | cons u before ih =>
    rcases h.uncons with ⟨hfirst, hgoes, hrest⟩
    rw [List.flatMap_cons, ← List.append_assoc]
    exact ih _ (fun hu => hkept (List.mem_cons_of_mem u hu)) hrest
      (hkept List.mem_cons_self (hlike hb hfirst) hgoes)

end Follows

namespace Bench

variable {ε σ : Type} [Environment ε]

/-! ### A run goes through its stretches -/

theorem follows_transitions (system : System σ) (limit count : Nat) (b : Bench ε σ) :
    Follows system b (updateStages system limit b)
      (haltOf (transitions system.updateOn limit count b).1)
      (transitions system.updateOn limit count b).2 := by
  induction limit generalizing count b with
  | zero => exact .spent (.refl b)
  | succ limit ih =>
    have houtcome : (Stretch.mk .update b).outcome system
        = (haltOf (system.updateOn b).1, (system.updateOn b).2) := rfl
    unfold updateStages transitions
    rcases hupdate : system.updateOn b with ⟨halt | _ | _, next⟩
    · rw [hupdate] at houtcome
      exact .of_stopped houtcome
    · rw [hupdate] at houtcome
      exact .of_done houtcome (ih (count + 1) next)
    · rw [hupdate] at houtcome
      exact .of_done houtcome (.nil (.refl next))

theorem follows_runStep (system : System σ) (limit : Nat) (b : Bench ε σ) :
    Follows system b (updateStages system limit { b with phase := .running })
      (haltOf (runStep system.updateOn limit b).1) (runStep system.updateOn limit b).2 := by
  have hmoves := (follows_transitions system limit 0 { b with phase := .running }).of_like
    (.setPhase b .running)
  rcases hrun : transitions system.updateOn limit 0 { b with phase := .running } with
    ⟨halt | count, next⟩
  · rw [hrun] at hmoves
    rw [runStep_of_error hrun]
    exact hmoves
  · rw [hrun] at hmoves
    rw [runStep_of_ok hrun]
    exact hmoves.to_like ((IsLike.setPhase next .quiescent).trans (.note _ (.stepDone count)))

theorem follows_drive (system : System σ) (limit steps : Nat) (b : Bench ε σ) :
    Follows system b (driveStages system limit steps b)
      (some (drive system.updateOn limit steps b).1) (drive system.updateOn limit steps b).2 := by
  induction steps generalizing b with
  | zero => exact .spent (.refl b)
  | succ steps ih =>
    have hstep := follows_runStep system limit b
    unfold driveStages
    rcases hrun : runStep system.updateOn limit b with ⟨halt | count, b₁⟩
    · rw [hrun] at hstep
      rw [(drive_of_error steps (cycle_of_stopped hrun)).1, List.append_nil]
      exact hstep
    -- What comes after the step is a stretch of its own, and the rest of the drive follows it.
    · rw [hrun] at hstep
      have houtcome : (Stretch.mk .settle b₁).outcome system
          = (haltOf (settle b₁).1, (settle b₁).2) := rfl
      refine hstep.append ?_
      simp only
      rcases hsettle : settle b₁ with ⟨halt | _, b₂⟩
      · rw [hsettle] at houtcome
        rw [(drive_of_error steps (cycle_of_unsettled hrun hsettle)).1]
        exact .of_stopped houtcome
      · rw [hsettle] at houtcome
        rw [(drive_of_ok steps (cycle_of_settled hrun hsettle)).1]
        exact .of_done houtcome (ih b₂)

/-- A run answers with what its stretches stop with. -/
theorem follows_run (system : System σ) (limit steps : Nat) (b : Bench ε σ) :
    ∃ halt, Follows system b (stages system limit steps b) (some halt)
        (run system.updateOn limit steps b).2 ∧
      (run system.updateOn limit steps b).1 = resultOf halt := by
  have houtcome : (Stretch.mk .start b).outcome system = (haltOf (start b).1, (start b).2) := rfl
  unfold stages
  rcases hstart : start b with ⟨halt | _, next⟩
  · rw [hstart] at houtcome
    refine ⟨halt, (Follows.of_stopped houtcome).to_like ?_,
      And.left (run_of_stopped steps hstart)⟩
    simp only [run, hstart]
    split
    · exact .note next .inputEnded
    · exact .refl next
  · rw [hstart] at houtcome
    refine ⟨(drive system.updateOn limit steps next).1, .of_done houtcome ?_,
      And.left (run_of_started steps hstart)⟩
    refine (follows_drive system limit steps next).to_like ?_
    simp only [run, hstart]
    split
    · exact .note _ .inputEnded
    · exact .refl _

/-! ### The course of a run, stretch by stretch -/

theorem transitionsCourse_eq (system : System σ) (limit : Nat) (b : Bench ε σ) :
    transitionsCourse system limit b
      = (updateStages system limit b).flatMap (Stretch.course system) := by
  induction limit generalizing b with
  | zero => rfl
  | succ limit ih =>
    unfold transitionsCourse updateStages onward
    rw [List.flatMap_cons]
    rcases system.updateOn b with ⟨halt | _ | _, next⟩
    · rfl
    · exact congrArg (updateCourse system b ++ ·) (ih next)
    · rfl

theorem driveCourse_eq (system : System σ) (limit steps : Nat) (b : Bench ε σ) :
    driveCourse system limit steps b
      = (driveStages system limit steps b).flatMap (Stretch.course system) := by
  induction steps generalizing b with
  | zero => rfl
  | succ steps ih =>
    unfold driveCourse driveStages onward stepCourse
    rw [List.flatMap_append, transitionsCourse_eq]
    rcases runStep system.updateOn limit b with ⟨halt | count, b₁⟩
    · rfl
    · simp only [List.flatMap_cons]
      rcases settle b₁ with ⟨halt | _, b₂⟩
      · rfl
      · simp only [ih]
        rfl

theorem runCourse_eq (system : System σ) (limit steps : Nat) (b : Bench ε σ) :
    runCourse system limit steps b
      = (stages system limit steps b).flatMap (Stretch.course system) := by
  unfold runCourse stages onward
  rw [List.flatMap_cons]
  rcases start b with ⟨halt | _, next⟩
  · rfl
  · exact congrArg (startCourse b ++ ·) (driveCourse_eq system limit steps next)

/-! ### Who makes it happen -/

omit [Environment ε] in
theorem mem_onward {α : Type} {work : BenchM ε σ α} {b : Bench ε σ}
    {next : α → Bench ε σ → Course ε σ} {p : Point ε σ} (h : p ∈ onward work b next) :
    ∃ a b', work b = (.ok a, b') ∧ p ∈ next a b' := by
  unfold onward at h
  split at h
  · next a b' hwork => exact ⟨a, b', hwork, h⟩
  · exact absurd h List.not_mem_nil

omit [Environment ε] in
theorem actor_meets (b : Bench ε σ) (act : Act) : (b.meets act).actor = .environment := by
  cases act with
  | push line =>
    simp only [meets]
    split
    · rfl
    · rfl
  | close | elapse duration => rfl

omit [Environment ε] in
theorem actor_acts {inCall : Bool} {acts : List Act} {b : Bench ε σ} {p : Point ε σ}
    (h : p ∈ actsCourse inCall acts b) : p.happening.actor = .environment := by
  induction acts generalizing b with
  | nil => exact absurd h List.not_mem_nil
  | cons act rest ih =>
    rcases List.mem_cons.mp h with rfl | hrest
    · exact actor_meets b act
    · exact ih hrest

theorem actor_turn {moment : Moment} {b : Bench ε σ} {p : Point ε σ}
    (h : p ∈ b.turnCourse moment) : p.happening.actor = .environment := actor_acts h

theorem actor_deliver {happening : Happening} {text : String} {b : Bench ε σ} {p : Point ε σ}
    (h : p ∈ deliverCourse happening text b) :
    p.happening = happening ∨ p.happening.actor = .environment := by
  unfold deliverCourse at h
  split at h
  · rcases List.mem_cons.mp h with rfl | hturn
    · exact .inl rfl
    · exact .inr (actor_turn hturn)
  · exact absurd h List.not_mem_nil

theorem actor_answer {b : Bench ε σ} {c : Call} {p : Point ε σ} (h : p ∈ b.answerCourse c) :
    p.happening.actor ≠ .policy := by
  cases c with
  | inputReady | resetTime | value clock =>
    rw [actor_turn h]
    exact nofun
  | read =>
    rcases List.mem_append.mp h with hturn | hread
    · rw [actor_turn hturn]
      exact nofun
    · split at hread
      · rw [List.mem_singleton.mp hread]
        exact nofun
      · exact absurd hread List.not_mem_nil
  | write text =>
    rcases actor_deliver h with hwrote | hturn
    · rw [hwrote]
      exact nofun
    · rw [hturn]
      exact nofun
  | note system fields => exact absurd h List.not_mem_nil

/-- A program leaves time to the policy. -/
theorem actor_program {α : Type} {program : Program α} {b : Bench ε σ} {p : Point ε σ}
    (h : p ∈ program.course b) : p.happening.actor ≠ .policy := by
  induction program generalizing b with
  | pure a => exact absurd h List.not_mem_nil
  | call c next ih =>
    rcases List.mem_append.mp h with hcall | hrest
    · exact actor_answer hcall
    · exact ih _ hrest

theorem actor_openWindow {s : SimulatedTime} {b : Bench ε σ} {p : Point ε σ}
    (h : p ∈ openWindowCourse s b) : p.happening.actor ≠ .system := by
  rcases List.mem_append.mp h with hturn | hsearch
  · rw [actor_turn hturn]
    exact nofun
  · rcases mem_onward hsearch with ⟨directives, swept, -, hfound⟩
    rcases List.mem_cons.mp hfound with rfl | hopened
    · exact nofun
    · split at hopened
      · rw [List.mem_singleton.mp hopened]
        exact nofun
      · rw [List.mem_singleton.mp hopened]
        exact nofun
      · exact absurd hopened List.not_mem_nil

theorem actor_listen {b : Bench ε σ} {p : Point ε σ} (h : p ∈ b.listenCourse) :
    p.happening.actor = .environment := by
  rcases List.mem_append.mp h with hturn | hwaiting
  · exact actor_turn hturn
  · split at hwaiting
    · exact actor_turn hwaiting
    · exact absurd hwaiting List.not_mem_nil

/-- A wait leaves the inputs to the system under test. -/
theorem actor_wait {s : SimulatedTime} {b : Bench ε σ} {p : Point ε σ}
    (h : p ∈ waitCourse s b) : p.happening.actor ≠ .system := by
  rcases List.mem_append.mp h with hfirst | hmore
  · exact actor_openWindow hfirst
  · rcases mem_onward hmore with ⟨found, b₁, -, hrest⟩
    split at hrest
    · exact absurd hrest List.not_mem_nil
    · rcases List.mem_append.mp hrest with hlisten | hthen
      · rw [actor_listen hlisten]
        exact nofun
      · rcases mem_onward hthen with ⟨_, b₂, -, hsecond⟩
        exact actor_openWindow hsecond

theorem actor_settle {b : Bench ε σ} {p : Point ε σ} (h : p ∈ b.settleCourse) :
    p.happening.actor ≠ .system := by
  unfold settleCourse at h
  split at h
  · split at h
    · rw [actor_turn h]
      exact nofun
    · exact absurd h List.not_mem_nil
  · split at h
    · rcases List.mem_append.mp h with hreport | hwait
      · rcases actor_deliver hreport with hreported | hturn
        · rw [hreported]
          exact nofun
        · rw [hturn]
          exact nofun
      · rcases mem_onward hwait with ⟨_, b₁, -, hrest⟩
        exact actor_wait hrest
    · unfold advanceCourse at h
      split at h
      · rw [List.mem_singleton.mp h]
        exact nofun
      · exact absurd h List.not_mem_nil

theorem actor_start {b : Bench ε σ} {p : Point ε σ} (h : p ∈ b.startCourse) :
    p.happening.actor ≠ .system := by
  unfold startCourse at h
  split at h
  · exact absurd h List.not_mem_nil
  · exact actor_wait h

/-! ### The system under test between updates -/

/-- The work leaves the system under test alone. -/
def SparesSystem {α : Type} (work : BenchM ε σ α) : Prop := ∀ b, (work b).2.system = b.system

namespace SparesSystem

variable {α β : Type}

omit [Environment ε] in
theorem bind {x : BenchM ε σ α} {f : α → BenchM ε σ β} (hx : SparesSystem x)
    (hf : ∀ a, SparesSystem (f a)) : SparesSystem (x >>= f) := fun b => by
  have hfirst := hx b
  rcases hwork : x b with ⟨halt | a, next⟩
  · rw [hwork] at hfirst
    rw [bind_of_error hwork]
    exact hfirst
  · rw [hwork] at hfirst
    rw [bind_of_ok hwork]
    exact (hf a next).trans hfirst

omit [Environment ε] in
theorem setPhase (phase : Phase) : SparesSystem (Bench.setPhase phase : BenchM ε σ Unit) :=
  fun _ => rfl

theorem openWindow (s : SimulatedTime) : SparesSystem (Bench.openWindow s : BenchM ε σ Bool) := by
  intro b
  have hturn := congrArg Own.system (own_turn .access b)
  rcases hfound : (b.turn .access).inbox.lines.filter Line.isDirective with
    _ | ⟨directive, superseded⟩
  · rw [openWindow_of_nothing s hfound]
    exact hturn
  · rcases hdelay : directive.delay? with _ | delay
    · rcases openWindow_of_malformed s hfound hdelay with ⟨next, hopen, hown, -⟩
      rw [hopen]
      exact congrArg Own.system hown
    · rcases openWindow_of_directive s hfound hdelay with ⟨next, hopen, hown, -⟩
      rw [hopen]
      exact congrArg Own.system hown

theorem waitForDelay (s : SimulatedTime) :
    SparesSystem (Bench.waitForDelay s : BenchM ε σ Unit) := by
  unfold Bench.waitForDelay
  refine (openWindow s).bind fun found => ?_
  split
  · exact fun _ => rfl
  · refine bind (fun b => congrArg Own.system (own_listen b)) fun _ => ?_
    refine (openWindow s).bind fun found => ?_
    split
    · exact fun _ => rfl
    · exact fun _ => rfl

theorem closeWindow (s : SimulatedTime) :
    SparesSystem (Bench.closeWindow s : BenchM ε σ Unit) := by
  have hreport : SparesSystem (raising (deliver s.report) : BenchM ε σ Unit) := fun b => by
    rcases own_deliver s.report b with ⟨new, hown⟩
    refine Eq.trans ?_ (congrArg Own.system hown)
    unfold raising
    rcases b.deliver s.report with ⟨cause | _, next⟩ <;> rfl
  unfold Bench.closeWindow
  exact hreport.bind fun _ => bind (fun _ => rfl) fun _ => waitForDelay s

theorem sleep (duration : Duration) : SparesSystem (Bench.sleep duration : BenchM ε σ Unit) := by
  intro b
  unfold Bench.sleep
  split
  · exact congrArg Own.system (own_turn .slept _)
  · rfl

omit [Environment ε] in
theorem advance (s : SimulatedTime) : SparesSystem (Bench.advance s : BenchM ε σ Unit) := by
  intro b
  unfold Bench.advance
  split <;> rfl

theorem start : SparesSystem (Bench.start : BenchM ε σ Unit) := by
  refine bind (fun _ => rfl) fun b => ?_
  split
  · exact setPhase .running
  · exact (waitForDelay _).bind fun _ => setPhase .running

theorem settle : SparesSystem (Bench.settle : BenchM ε σ Unit) := by
  refine (setPhase .awaitingNextStep).bind fun _ => bind (fun _ => rfl) fun b => ?_
  split
  · exact (sleep _).bind fun _ => setPhase .running
  · split
    · exact (closeWindow _).bind fun _ => setPhase .running
    · exact (advance _).bind fun _ => setPhase .running

end SparesSystem

end Bench

theorem Stretch.actor_ne_system {ε σ : Type} [Environment ε] {system : System σ}
    {t : Stretch ε σ} (h : t.stage ≠ .update) {p : Point ε σ} (hp : p ∈ t.course system) :
    p.happening.actor ≠ .system := by
  rcases t with ⟨_ | _ | _, b⟩
  · exact Bench.actor_start hp
  · exact absurd rfl h
  · exact Bench.actor_settle hp

theorem Stretch.system_eq {ε σ : Type} [Environment ε] {system : System σ} {t : Stretch ε σ}
    (h : t.stage ≠ .update) : (t.outcome system).2.system = t.bench.system := by
  rcases t with ⟨_ | _ | _, b⟩
  · exact Bench.SparesSystem.start b
  · exact absurd rfl h
  · exact Bench.SparesSystem.settle b

end Testbench
