import Testbench.Proofs.Timeline

/-!
# Dialogues

What a system under test sees of an update is a dialogue: its calls, each with the answer
that it got. A statement about a system is made once about all dialogues that it could
have, with no bench in sight, and then holds on every bench and in every environment.

`Program.Ensures` is such a statement. It is proved along the tree of the program, where
each call may get any answer of its type. For a `Procedure` this goes line by line, by a
rule for each thing that can be done in one; a rule says what has to be ensured before it
for something to be ensured after it.

What a dialogue says is written, and what it hears is read. So the lines that the system
under test has written along a course are those that its dialogues say.

## Main definitions

* `Answered`: A call and its answer.
* `Program.dialogue`, `System.dialogueOn`: The dialogue of a program and of an update.
* `Program.Ensures`, `Procedure.Ensures`: A statement about all dialogues and results.
* `said`, `heard`: The lines that have been taken and handed out.
* `Played`: A dialogue whose answers are those of a bench.

## Theorems

* `Program.Ensures.onBench`: What is ensured holds on every bench.
* `Procedure.ensures_bind`: A procedure in two parts.
* `wroteIn_course`, `consumedIn_course`: What a dialogue says is written, and what it hears
  is read.
* `Played.exists_bench`: Every answer is given by some bench.
* `Leads.lines`, `Leads.policy_eq`: Lines are held until they are read, and the policy stays.
* `failure?_dialogue`: No answer is the end of the input.
* `System.ensures_updateOn`: What is ensured of updates holds of each of them.
-/

namespace Testbench

/-- A call and its answer. -/
structure Answered where
  call : Call
  answer : call.Answer

namespace Answered

/-- The failure that is the answer, if it is one. -/
def failure? : Answered → Option ExecutionError
  | ⟨.read, .error cause⟩ => some cause
  | ⟨.write _, .error cause⟩ => some cause
  | _ => none

/-- The line that the output channel has taken. -/
def said? : Answered → Option String
  | ⟨.write text, .ok ()⟩ => some text
  | _ => none

/-- The line that was handed out. -/
def heard? : Answered → Option Line
  | ⟨.read, .ok line⟩ => some line
  | _ => none

end Answered

def said (d : List Answered) : List String := d.filterMap Answered.said?

def heard (d : List Answered) : List Line := d.filterMap Answered.heard?

/-- The line is written by the system under test. -/
def Happening.wrote? : Happening → Option String
  | .wrote text => some text
  | _ => none

/-- The lines that the system under test has written along a course. -/
def wroteIn {ε σ : Type} (c : Course ε σ) : List String := (happenings c).filterMap Happening.wrote?

namespace Program

variable {ε α β : Type}

def dialogue {σ : Type} [Environment ε] : Program α → Bench ε σ → List Answered
  | .pure _, _ => []
  | .call c next, b => ⟨c, (b.answer c).1⟩ :: (next (b.answer c).1).dialogue (b.answer c).2

/-- Whatever the answers are, the dialogue and the result are as stated. -/
def Ensures : Program α → (List Answered → α → Prop) → Prop
  | .pure a, post => post [] a
  | .call c next, post =>
    ∀ answer, (next answer).Ensures fun rest a => post (⟨c, answer⟩ :: rest) a

namespace Ensures

variable {p : Program α} {post post' : List Answered → α → Prop}

theorem mono (h : p.Ensures post) (hpost : ∀ d a, post d a → post' d a) : p.Ensures post' := by
  induction p generalizing post post' with
  | pure a => exact hpost [] a h
  | call c next ih => exact fun answer => ih answer (h answer) fun _ _ => hpost _ _

theorem bind {f : α → Program β} {post : List Answered → β → Prop} :
    (p.bind f).Ensures post ↔ p.Ensures fun d a => (f a).Ensures fun rest => post (d ++ rest) := by
  induction p generalizing post with
  | pure a => exact Iff.rfl
  | call c next ih => exact forall_congr' fun answer => ih answer

/-- What is ensured holds on every bench. -/
theorem onBench {σ : Type} [Environment ε] (h : p.Ensures post) (b : Bench ε σ) :
    post (p.dialogue b) (p.runOn b).1 := by
  induction p generalizing b post with
  | pure a => exact h
  | call c next ih => exact ih _ (h (b.answer c).1) (b.answer c).2

end Ensures

end Program

/-! ### Procedures -/

namespace Procedure

variable {σ α β : Type}

/-- A statement about a dialogue, a result and the state that is left. -/
abbrev Post (σ α : Type) := List Answered → Except ExecutionError α → σ → Prop

/-- The same for a procedure that begins in the given state. -/
def Ensures (x : Procedure σ α) (s : σ) (post : Post σ α) : Prop :=
  (x.run.run s).Ensures fun d outcome => post d outcome.1 outcome.2

variable {s : σ}

theorem Ensures.mono {x : Procedure σ α} {post post' : Post σ α} (h : x.Ensures s post)
    (hpost : ∀ d result next, post d result next → post' d result next) : x.Ensures s post' :=
  Program.Ensures.mono h fun d outcome => hpost d outcome.1 outcome.2

theorem ensures_pure {post : Post σ α} (a : α) :
    (pure a : Procedure σ α).Ensures s post ↔ post [] (.ok a) s := Iff.rfl

theorem ensures_throw {post : Post σ α} (cause : ExecutionError) :
    (throw cause : Procedure σ α).Ensures s post ↔ post [] (.error cause) s := Iff.rfl

theorem ensures_bind {x : Procedure σ β} {f : β → Procedure σ α} {post : Post σ α} :
    (x >>= f).Ensures s post ↔ x.Ensures s fun d result next =>
      match result with
      | .ok a => (f a).Ensures next fun rest => post (d ++ rest)
      | .error cause => post d (.error cause) next := by
  -- A failure skips the second part, and the state is handed on in either case.
  have hrun : (x >>= f).run.run s = (x.run.run s).bind fun outcome =>
      match outcome with
      | (.ok a, next) => (f a).run.run next
      | (.error cause, next) => .pure (.error cause, next) := by
    change (x.run.run s).bind _ = _
    congr 1
    funext outcome
    rcases outcome with ⟨cause | a, next⟩ <;> rfl
  unfold Ensures
  rw [hrun, Program.Ensures.bind]
  refine iff_of_eq (congrArg _ ?_)
  funext d outcome
  rcases outcome with ⟨cause | a, next⟩
  · exact congrArg (fun d => post d (.error cause) next) (List.append_nil d)
  · rfl

theorem ensures_ite {c : Prop} [Decidable c] {x y : Procedure σ α} {post : Post σ α} :
    (if c then x else y).Ensures s post
      ↔ if c then x.Ensures s post else y.Ensures s post := by
  split
  · rfl
  · rfl

theorem ensures_get {post : Post σ σ} :
    (get : Procedure σ σ).Ensures s post ↔ post [] (.ok s) s := Iff.rfl

theorem ensures_set {post : Post σ PUnit} (next : σ) :
    (set next : Procedure σ PUnit).Ensures s post ↔ post [] (.ok ⟨⟩) next := Iff.rfl

theorem ensures_modify {post : Post σ PUnit} (f : σ → σ) :
    (modify f : Procedure σ PUnit).Ensures s post ↔ post [] (.ok ⟨⟩) (f s) := Iff.rfl

theorem ensures_inputReady {post : Post σ Bool} :
    (inputReady : Procedure σ Bool).Ensures s post
      ↔ ∀ ready, post [⟨.inputReady, ready⟩] (.ok ready) s := Iff.rfl

theorem ensures_resetTime {post : Post σ Anchor} :
    (resetTime : Procedure σ Anchor).Ensures s post
      ↔ ∀ x, post [⟨.resetTime, x⟩] (.ok x) s := Iff.rfl

theorem ensures_value {post : Post σ Float} (clock : Anchor) :
    (value clock : Procedure σ Float).Ensures s post
      ↔ ∀ time, post [⟨.value clock, time⟩] (.ok time) s := Iff.rfl

theorem ensures_note {post : Post σ Unit} (system : String) (fields : List (String × String)) :
    (note system fields : Procedure σ Unit).Ensures s post
      ↔ post [⟨.note system fields, ()⟩] (.ok ()) s :=
  ⟨fun h => h (), fun h _ => h⟩

theorem ensures_read {post : Post σ Line} :
    (read : Procedure σ Line).Ensures s post ↔
      (∀ line, post [⟨.read, .ok line⟩] (.ok line) s) ∧
      ∀ cause, post [⟨.read, .error cause⟩] (.error cause) s := by
  constructor
  · intro h
    exact ⟨fun line => h (.ok line), fun cause => h (.error cause)⟩
  · rintro ⟨hline, hcause⟩ (cause | line)
    · exact hcause cause
    · exact hline line

theorem ensures_write {post : Post σ Unit} (text : String) :
    (write text : Procedure σ Unit).Ensures s post ↔
      post [⟨.write text, .ok ()⟩] (.ok ()) s ∧
      ∀ cause, post [⟨.write text, .error cause⟩] (.error cause) s := by
  constructor
  · intro h
    exact ⟨h (.ok ()), fun cause => h (.error cause)⟩
  · rintro ⟨htaken, hcause⟩ (cause | _)
    · exact hcause cause
    · exact htaken

theorem ensures_nextInput? {post : Post σ (Option Line)} :
    (nextInput? : Procedure σ (Option Line)).Ensures s post ↔
      post [⟨.inputReady, false⟩] (.ok none) s ∧
      (∀ line, post [⟨.inputReady, true⟩, ⟨.read, .ok line⟩] (.ok (some line)) s) ∧
      ∀ cause, post [⟨.inputReady, true⟩, ⟨.read, .error cause⟩] (.error cause) s := by
  simp only [nextInput?, ensures_bind, ensures_inputReady, ensures_ite, ensures_read, ensures_pure]
  exact Bool.forall_bool

end Procedure

/-! ### Dialogues on a bench -/

/-- Each answer is given by the bench that the calls before it have left. -/
inductive Played {ε σ : Type} [Environment ε] : Bench ε σ → List Answered → Prop
  | nil {b : Bench ε σ} : Played b []
  | cons {b : Bench ε σ} {c : Call} {rest : List Answered} (hrest : Played (b.answer c).2 rest) :
      Played b (⟨c, (b.answer c).1⟩ :: rest)

theorem Program.played_dialogue {ε σ α : Type} [Environment ε] (p : Program α) (b : Bench ε σ) :
    Played b (p.dialogue b) := by
  induction p generalizing b with
  | pure a => exact .nil
  | call c next ih => exact .cons (ih _ _)

/-- Every answer is given by some bench. -/
theorem Played.exists_bench {ε σ : Type} [Environment ε] {b : Bench ε σ} {d : List Answered}
    (h : Played b d) {e : Answered} (hmem : e ∈ d) :
    ∃ b' : Bench ε σ, e = ⟨e.call, (b'.answer e.call).1⟩ := by
  induction h with
  | nil => exact absurd hmem List.not_mem_nil
  | @cons b c rest _ ih =>
    rcases List.mem_cons.mp hmem with rfl | hrest
    · exact ⟨b, rfl⟩
    · exact ih hrest

/-- What is written is taken or refused by the output channel. -/
theorem Bench.write_eq {ε σ : Type} [Environment ε] (text : String) (b : Bench ε σ) :
    (b.write text).1 = (Environment.accept text b.environment).1.mapError .output := by
  rcases haccept : Environment.accept text b.environment with ⟨cause | _, environment⟩
  · simp only [Bench.write, Bench.deliver, Bench.note, haccept]
    rfl
  · simp only [Bench.write, Bench.deliver, Bench.note, haccept]
    rfl

theorem Played.written {ε σ : Type} [Environment ε] {b : Bench ε σ} {d : List Answered}
    (h : Played b d) {text : String} {answer : Except ExecutionError Unit}
    (hmem : ⟨.write text, answer⟩ ∈ d) :
    ∃ environment : ε, answer = (Environment.accept text environment).1.mapError .output := by
  rcases h.exists_bench hmem with ⟨b', hanswer⟩
  exact ⟨b'.environment, (eq_of_heq (Answered.mk.inj hanswer).2).trans (b'.write_eq text)⟩

/-- A channel that takes every line takes all that is written. -/
theorem Played.taken {ε σ : Type} [Environment ε]
    (hsink : ∀ text (environment : ε), (Environment.accept text environment).1 = .ok ())
    {b : Bench ε σ} {d : List Answered} (h : Played b d) {text : String}
    {answer : Except ExecutionError Unit} (hmem : ⟨.write text, answer⟩ ∈ d) :
    answer = .ok () := by
  rcases h.written hmem with ⟨environment, hanswer⟩
  rw [hanswer, hsink]
  rfl

/-- A write that fails is reported as a failure of the output channel. -/
theorem Played.refused {ε σ : Type} [Environment ε] {b : Bench ε σ} {d : List Answered}
    (h : Played b d) {text : String} {cause : ExecutionError}
    (hmem : ⟨.write text, .error cause⟩ ∈ d) : ∃ failure, cause = .output failure := by
  rcases h.written hmem with ⟨environment, hanswer⟩
  rcases haccept : (Environment.accept text environment).1 with failure | _
  · rw [haccept] at hanswer
    exact ⟨failure, Except.error.inj hanswer⟩
  · rw [haccept] at hanswer
    cases hanswer

/-- The first question is answered by a look at the inbox. -/
theorem Played.ready_eq {ε σ : Type} [Environment ε] {b : Bench ε σ} {ready : Bool}
    {rest : List Answered} (h : Played b (⟨.inputReady, ready⟩ :: rest)) :
    ready = (b.turn .access).inbox.isReady := by
  cases h with
  | cons _ => rfl

theorem Played.unready_iff {ε σ : Type} [Environment ε] {b : Bench ε σ} {ready : Bool}
    {rest : List Answered} (h : Played b (⟨.inputReady, ready⟩ :: rest)) :
    ready = false ↔ (b.turn .access).inbox.lines = [] := by
  rw [h.ready_eq, Inbox.isReady, Bool.not_eq_false', List.isEmpty_iff]

namespace Happening

theorem wrote?_of_actor {happening : Happening} (h : happening.actor ≠ .system) :
    happening.wrote? = none := by
  cases happening with
  | wrote text => exact absurd rfl h
  | _ => rfl

theorem consumption?_of_actor {happening : Happening} (h : happening.actor ≠ .system) :
    happening.consumption? = none := by
  cases happening with
  | consumed line => exact absurd rfl h
  | _ => rfl

end Happening

variable {ε σ : Type}

theorem said_append (d d' : List Answered) : said (d ++ d') = said d ++ said d' :=
  List.filterMap_append

theorem heard_append (d d' : List Answered) : heard (d ++ d') = heard d ++ heard d' :=
  List.filterMap_append

theorem wroteIn_append (c c' : Course ε σ) : wroteIn (c ++ c') = wroteIn c ++ wroteIn c' := by
  simp only [wroteIn, happenings, List.map_append, List.filterMap_append]

/-- Where the system under test does nothing it writes nothing. -/
theorem wroteIn_eq_nil {c : Course ε σ} (h : ∀ p ∈ c, p.happening.actor ≠ .system) :
    wroteIn c = [] := by
  refine List.filterMap_eq_nil_iff.mpr fun happening hmem => ?_
  rcases List.mem_map.mp hmem with ⟨p, hp, rfl⟩
  exact Happening.wrote?_of_actor (h p hp)

theorem consumedIn_append (c c' : Course ε σ) :
    consumedIn (c ++ c') = consumedIn c ++ consumedIn c' := List.filterMap_append

theorem arrivedIn_append (c c' : Course ε σ) : arrivedIn (c ++ c') = arrivedIn c ++ arrivedIn c' :=
  List.filterMap_append

/-- Nor does it read anything there. -/
theorem consumedIn_eq_nil {c : Course ε σ} (h : ∀ p ∈ c, p.happening.actor ≠ .system) :
    consumedIn c = [] :=
  List.filterMap_eq_nil_iff.mpr fun p hp => Happening.consumption?_of_actor (h p hp)

theorem Happening.Fits.lines {happening : Happening} {isOpen : Bool} {v next : Scene}
    (h : happening.Fits isOpen v next) (hactor : happening.actor ≠ .policy) :
    happening.consumption?.toList ++ next.lines = v.lines ++ happening.arrival?.toList := by
  cases happening with
  | arrived line =>
    rcases h with rfl
    rfl
  | turnedAway line | closed | elapsed duration | wrote text =>
    rcases h with rfl
    exact (List.append_nil _).symm
  | consumed line =>
    rcases h with ⟨-, rfl⟩
    exact (List.append_nil _).symm
  | swept directives | opened delay | refused delay | ticked | reported delayed =>
    exact absurd rfl hactor

/-- Where the policy does nothing, lines are held until they are read. -/
theorem Leads.lines {isOpen isOpen' : Bool} {v next : Scene} {c : Course ε σ}
    (h : Leads isOpen v c isOpen' next) (hactor : ∀ p ∈ c, p.happening.actor ≠ .policy) :
    consumedIn c ++ next.lines = v.lines ++ arrivedIn c := by
  induction h with
  | nil => exact (List.append_nil _).symm
  | @cons _ _ v next p rest hfits _ ih =>
    have hfirst := hfits.lines (hactor p List.mem_cons_self)
    have hrest := ih fun q hq => hactor q (List.mem_cons_of_mem p hq)
    rw [consumedIn, arrivedIn, filterMap_cons_toList, filterMap_cons_toList, List.append_assoc]
    rw [consumedIn, arrivedIn] at hrest
    rw [hrest, ← List.append_assoc, hfirst, List.append_assoc]

theorem Happening.Fits.policy_eq {happening : Happening} {isOpen : Bool} {v next : Scene}
    (h : happening.Fits isOpen v next) (hactor : happening.actor ≠ .policy) :
    next.policy = v.policy := by
  cases happening with
  | arrived line | turnedAway line | closed | elapsed duration | wrote text =>
    rcases h with rfl
    rfl
  | consumed line =>
    rcases h with ⟨-, rfl⟩
    rfl
  | swept directives | opened delay | refused delay | ticked | reported delayed =>
    exact absurd rfl hactor

/-- The policy itself stays as it is then. -/
theorem Leads.policy_eq {isOpen isOpen' : Bool} {v next : Scene} {c : Course ε σ}
    (h : Leads isOpen v c isOpen' next) (hactor : ∀ p ∈ c, p.happening.actor ≠ .policy) :
    ∀ p ∈ c, p.bench.policy = v.policy := by
  induction h with
  | nil => exact fun p hp => absurd hp List.not_mem_nil
  | @cons _ _ _ _ first rest hfits _ ih =>
    have hfirst : first.bench.policy = _ := hfits.policy_eq (hactor first List.mem_cons_self)
    intro p hp
    rcases List.mem_cons.mp hp with rfl | hrest
    · exact hfirst
    · exact (ih (fun q hq => hactor q (List.mem_cons_of_mem first hq)) p hrest).trans hfirst

variable [Environment ε]

theorem wroteIn_turn (moment : Moment) (b : Bench ε σ) : wroteIn (b.turnCourse moment) = [] :=
  wroteIn_eq_nil fun p hp => by rw [Bench.actor_turn hp]; exact nofun

theorem wroteIn_answer (b : Bench ε σ) (c : Call) :
    wroteIn (b.answerCourse c) = (Answered.mk c (b.answer c).1).said?.toList := by
  cases c with
  | inputReady | resetTime | value clock => exact wroteIn_turn .access b
  | read =>
    refine (wroteIn_append _ _).trans ?_
    rw [wroteIn_turn, List.nil_append]
    split
    · rfl
    · rfl
  | write text =>
    -- What is refused is neither in the course nor said.
    rcases haccept : Environment.accept text b.environment with ⟨cause | _, environment⟩
    · simp only [Bench.answerCourse, Bench.deliverCourse, Bench.answer, Bench.write,
        Bench.deliver, Bench.note, haccept]
      rfl
    · simp only [Bench.answerCourse, Bench.deliverCourse, Bench.answer, Bench.write,
        Bench.deliver, Bench.note, haccept]
      exact congrArg (text :: ·) (wroteIn_turn _ _)
  | note system fields => rfl

/-- A program writes what its dialogue says. -/
theorem wroteIn_course {α : Type} (p : Program α) (b : Bench ε σ) :
    wroteIn (p.course b) = said (p.dialogue b) := by
  induction p generalizing b with
  | pure a => rfl
  | call c next ih =>
    have hfirst : said ((Program.call c next).dialogue b)
        = (Answered.mk c (b.answer c).1).said?.toList
          ++ said ((next (b.answer c).1).dialogue (b.answer c).2) :=
      filterMap_cons_toList _ _ _
    rw [hfirst, ← ih, ← wroteIn_answer]
    exact wroteIn_append _ _

theorem consumedIn_answer (b : Bench ε σ) (c : Call) :
    consumedIn (b.answerCourse c) = (Answered.mk c (b.answer c).1).heard?.toList := by
  have hturn : ∀ (moment : Moment) (b : Bench ε σ), consumedIn (b.turnCourse moment) = [] :=
    fun moment b => consumedIn_eq_nil fun p hp => by rw [Bench.actor_turn hp]; exact nofun
  cases c with
  | inputReady | resetTime | value clock => exact hturn .access b
  | read =>
    refine (consumedIn_append _ _).trans ?_
    rw [hturn, List.nil_append]
    rcases hread : b.read with ⟨cause | line, next⟩ <;> simp only [Bench.answer, hread] <;> rfl
  | write text =>
    rcases haccept : Environment.accept text b.environment with ⟨cause | _, environment⟩
    · simp only [Bench.answerCourse, Bench.deliverCourse, Bench.note, haccept]
      rfl
    · simp only [Bench.answerCourse, Bench.deliverCourse, Bench.note, haccept]
      exact hturn _ _
  | note system fields => rfl

/-- A program reads what its dialogue hears. -/
theorem consumedIn_course {α : Type} (p : Program α) (b : Bench ε σ) :
    consumedIn (p.course b) = heard (p.dialogue b) := by
  induction p generalizing b with
  | pure a => rfl
  | call c next ih =>
    have hfirst : heard ((Program.call c next).dialogue b)
        = (Answered.mk c (b.answer c).1).heard?.toList
          ++ heard ((next (b.answer c).1).dialogue (b.answer c).2) :=
      filterMap_cons_toList _ _ _
    rw [hfirst, ← ih, ← consumedIn_answer]
    exact consumedIn_append _ _

/-- The course of a program begins with that of its first call. -/
theorem course_of_dialogue {α : Type} {p : Program α} {b : Bench ε σ} {c : Call} {answer : c.Answer}
    {rest : List Answered} (h : p.dialogue b = ⟨c, answer⟩ :: rest) :
    ∃ later, p.course b = b.answerCourse c ++ later := by
  cases p with
  | pure a => exact absurd h nofun
  | call first next =>
    rcases congrArg Answered.call (List.cons.inj h).1
    exact ⟨_, rfl⟩

/-- Lines that arrive are held. -/
theorem Bench.lines_turn (moment : Moment) (b : Bench ε σ) :
    (b.turn moment).inbox.lines = b.inbox.lines ++ arrivedIn (b.turnCourse moment) := by
  have hlines := (Bench.leads_turn true moment b).lines fun p hp => by
    rw [Bench.actor_turn hp]
    exact nofun
  have hnone : consumedIn (b.turnCourse moment) = [] :=
    consumedIn_eq_nil fun p hp => by rw [Bench.actor_turn hp]; exact nofun
  rw [hnone, List.nil_append] at hlines
  exact hlines

/-- A line that is ready is the one that is read. -/
theorem Played.read_eq {b : Bench ε σ} {ready : Bool} {answer : Except ExecutionError Line}
    {rest : List Answered} (h : Played b (⟨.inputReady, ready⟩ :: ⟨.read, answer⟩ :: rest))
    {line : Line} {lines : List Line} (hlines : (b.turn .access).inbox.lines = line :: lines) :
    answer = .ok line := by
  cases h with
  | cons hrest =>
    cases hrest with
    | cons _ =>
      have hmore := (b.turn .access).lines_turn .access
      rw [hlines] at hmore
      change ((b.turn .access).read).1 = .ok line
      simp only [Bench.read, Inbox.read?, hmore]
      rfl

/-- A bench never answers a call with the end of the input. -/
theorem failure?_answer (b : Bench ε σ) (c : Call) :
    (Answered.mk c (b.answer c).1).failure? ≠ some .inputClosed := by
  have hnone : (none : Option ExecutionError) ≠ some .inputClosed := nofun
  have hread : some ExecutionError.noInput ≠ some .inputClosed := nofun
  have hwrite : ∀ cause, some (ExecutionError.output cause) ≠ some .inputClosed := nofun
  cases c with
  | inputReady | resetTime | value clock | note system fields => exact hnone
  | read =>
    simp only [Bench.answer, Bench.read]
    split
    · exact hread
    · exact hnone
  | write text =>
    change (Answered.mk (.write text) (b.write text).1).failure? ≠ some .inputClosed
    rw [b.write_eq]
    cases (Environment.accept text b.environment).1 with
    | error cause => exact hwrite cause
    | ok taken => exact hnone

theorem failure?_dialogue {α : Type} (p : Program α) (b : Bench ε σ) {e : Answered}
    (h : e ∈ p.dialogue b) : e.failure? ≠ some .inputClosed := by
  rcases (p.played_dialogue b).exists_bench h with ⟨b', hanswer⟩
  rw [hanswer]
  exact failure?_answer b' e.call

namespace System

/-- The dialogue of one update. -/
def dialogueOn (system : System σ) (b : Bench ε σ) : List Answered :=
  (system.update.run.run b.system).dialogue b

theorem wroteIn_update (system : System σ) (b : Bench ε σ) :
    wroteIn (Bench.updateCourse system b) = said (system.dialogueOn b) :=
  wroteIn_course _ b

theorem consumedIn_update (system : System σ) (b : Bench ε σ) :
    consumedIn (Bench.updateCourse system b) = heard (system.dialogueOn b) :=
  consumedIn_course _ b

theorem played_dialogueOn (system : System σ) (b : Bench ε σ) :
    Played b (system.dialogueOn b) := Program.played_dialogue _ b

/-- An update leaves the lines that it has not read. -/
theorem lines_updateOn (system : System σ) (b : Bench ε σ) :
    heard (system.dialogueOn b) ++ (system.updateOn b).2.inbox.lines
      = b.inbox.lines ++ arrivedIn (Bench.updateCourse system b) := by
  rw [← system.consumedIn_update]
  exact (Bench.leads_updateOn system b).lines fun p hp => Bench.actor_program hp

/-- What is ensured of every update holds of each update on a bench. -/
theorem ensures_updateOn {system : System σ} {b : Bench ε σ} {post : Procedure.Post σ Progress}
    (h : system.update.Ensures b.system post) :
    ∃ result, post (system.dialogueOn b) result (system.updateOn b).2.system ∧
      (system.updateOn b).1 = result.mapError Halt.error := by
  have honBench := Program.Ensures.onBench h b
  rw [Bench.updateOn_eq]
  exact ⟨_, honBench, rfl⟩

end System

end Testbench
