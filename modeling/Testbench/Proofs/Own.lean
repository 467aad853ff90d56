import Testbench.Bench

/-!
# What a Bench Has to Itself

A bench shares its inbox with the environment, and the environment may change it
whenever it gets a turn. Everything that decides what the bench does next is the
bench's own: whether there was output, the policy, the phase, the published time,
the system under test, and the lines written so far. `Own` collects these, and no
act of the environment reaches them.

What a turn does is therefore told by three equations: the bench keeps its own, the
inbox undergoes the acts one after another, and the environment goes on from the
state that it chose.

What a system under test does in a step is a change of the bench's own that only
adds lines. `Own.writing` is that change, and a program around any environment
brings it about.

## Main definitions

* `Inbox.after`: What a series of acts makes of an inbox.
* `Own`: The part of a bench that no environment can change.
* `Own.writing`: The same after more lines have been written.

## Theorems

* `Inbox.push_of_unheard`, `Inbox.afterAct_push`: A push when nobody listens.
* `Bench.own_turn`, `Bench.inbox_turn`, `Bench.environment_turn`: What a turn does.
* `Bench.deliver_of_taken`: A line that the output channel takes.
* `Bench.own_runOn`: A program only writes lines.
-/

namespace Testbench

namespace Inbox

variable {κ : Type}

def afterAct (inbox : Inbox κ) : Act → Inbox κ
  | .push line =>
    match inbox.push line with
    | .ok (_, next) => next
    | .error _ => inbox
  | .close => inbox.close.2
  | .elapse _ => inbox

def after (inbox : Inbox κ) (acts : List Act) : Inbox κ := acts.foldl afterAct inbox

/-- Without a listener a push only appends. -/
theorem push_of_unheard {inbox : Inbox κ} (line : Line) (hopen : inbox.closed = false)
    (hunheard : inbox.listeners.entries = []) :
    inbox.push line = .ok (.held [], { inbox with lines := inbox.lines ++ [line] }) := by
  unfold push
  rw [if_neg (ne_true_of_eq_false hopen), hunheard]
  rfl

theorem afterAct_push {inbox : Inbox κ} (line : Line) (hopen : inbox.closed = false)
    (hunheard : inbox.listeners.entries = []) :
    inbox.afterAct (.push line) = { inbox with lines := inbox.lines ++ [line] } := by
  simp only [afterAct, push_of_unheard line hopen hunheard]

end Inbox

structure Own (σ : Type) where
  hasOutput : Bool
  policy : Policy
  phase : Phase
  virtualTime : Timestamp
  system : σ
  /-- Newest first. -/
  written : List String

namespace Own

variable {σ : Type}

/-- The state after the lines `new`, newest first, have been written. -/
def writing (own : Own σ) (new : List String) : Own σ :=
  { own with hasOutput := own.hasOutput || !new.isEmpty, written := new ++ own.written }

@[simp] theorem writing_nil (own : Own σ) : own.writing [] = own := by
  simp only [writing, List.isEmpty_nil, Bool.not_true, Bool.or_false, List.nil_append]

theorem writing_writing (own : Own σ) (older newer : List String) :
    (own.writing older).writing newer = own.writing (newer ++ older) := by
  cases older with
  | nil => simp only [writing_nil, List.append_nil]
  | cons text rest =>
    -- Once there was output the mark stays, whatever is written later.
    have hany : (newer ++ text :: rest).isEmpty = false := by cases newer <;> rfl
    simp only [writing, hany, List.isEmpty_cons, Bool.not_false, Bool.or_true, Bool.true_or,
      List.append_assoc]

end Own

namespace Bench

variable {ε σ : Type}

def own (b : Bench ε σ) : Own σ :=
  ⟨b.hasOutput, b.policy, b.phase, b.virtualTime, b.system, b.written⟩

/-! ### Turns -/

theorem receive_eq (inCall : Bool) (b : Bench ε σ) (act : Act) :
    (b.receive inCall act).own = b.own ∧ (b.receive inCall act).inbox = b.inbox.afterAct act ∧
      (b.receive inCall act).environment = b.environment := by
  cases act with
  | push line =>
    rcases hpush : b.inbox.push line with fault | ⟨_ | due, inbox⟩
    · simp only [receive, Inbox.afterAct, hpush, and_self]
    -- A closed inbox drops the line and stays as it is. The warning about it is in the
    -- journal, which nobody's own state depends on.
    · have hsame := (Inbox.push_eq_discarded hpush).2
      simp only [receive, Inbox.afterAct, hpush, hsame]
      split
      · exact ⟨rfl, rfl, rfl⟩
      · exact ⟨rfl, rfl, rfl⟩
    · simp only [receive, Inbox.afterAct, hpush, and_true]
      rfl
  | close => exact ⟨rfl, rfl, rfl⟩
  -- The clock either moves or overflows, and neither is the bench's own.
  | elapse duration =>
    simp only [receive]
    split
    · exact ⟨rfl, rfl, rfl⟩
    · exact ⟨rfl, rfl, rfl⟩

theorem foldl_receive_eq (inCall : Bool) (acts : List Act) (b : Bench ε σ) :
    (acts.foldl (receive inCall) b).own = b.own ∧
      (acts.foldl (receive inCall) b).inbox = b.inbox.after acts ∧
      (acts.foldl (receive inCall) b).environment = b.environment := by
  induction acts generalizing b with
  | nil => exact ⟨rfl, rfl, rfl⟩
  | cons act rest ih =>
    rcases receive_eq inCall b act with ⟨hown, hinbox, henvironment⟩
    rcases ih (b.receive inCall act) with ⟨hown', hinbox', henvironment'⟩
    rw [List.foldl_cons]
    refine ⟨hown'.trans hown, ?_, henvironment'.trans henvironment⟩
    rw [hinbox', hinbox]
    rfl

variable [Environment ε]

@[simp] theorem own_turn (moment : Moment) (b : Bench ε σ) : (b.turn moment).own = b.own :=
  (foldl_receive_eq _ _ _).1

theorem inbox_turn (moment : Moment) (b : Bench ε σ) :
    (b.turn moment).inbox = b.inbox.after (Environment.acts moment b.environment).1 :=
  (foldl_receive_eq _ _ _).2.1

theorem environment_turn (moment : Moment) (b : Bench ε σ) :
    (b.turn moment).environment = (Environment.acts moment b.environment).2 :=
  (foldl_receive_eq _ _ _).2.2

/-! ### Programs -/

theorem deliver_of_taken {text : String} {b : Bench ε σ} {environment : ε}
    (h : Environment.accept text b.environment = (.ok (), environment)) :
    ∃ next, b.deliver text = (.ok (), next) ∧ next.own = b.own.writing [text] ∧
      next.inbox = b.inbox.after (Environment.acts (.wrote text) environment).1 ∧
      next.environment = (Environment.acts (.wrote text) environment).2 := by
  let taken : Bench ε σ := { b with environment, written := text :: b.written }
  refine ⟨{ taken.turn (.wrote text) with hasOutput := true }, ?_, ?_, ?_, ?_⟩
  · simp only [deliver, h]
    rfl
  -- The mark is set after the turn, so the turn's own equation is carried under it.
  · have hown := congrArg (fun own => { own with hasOutput := true })
      (own_turn (.wrote text) taken)
    unfold Own.writing
    rw [List.isEmpty_cons, Bool.not_false, Bool.or_true]
    exact hown
  · exact inbox_turn (.wrote text) taken
  · exact environment_turn (.wrote text) taken

theorem deliver_of_refused {text : String} {b : Bench ε σ} {environment : ε} {cause : IoFailure}
    (h : Environment.accept text b.environment = (.error cause, environment)) :
    b.deliver text = (.error (.output cause), { b with environment }) := by
  simp only [deliver, h]

theorem own_deliver (text : String) (b : Bench ε σ) :
    ∃ new, (b.deliver text).2.own = b.own.writing new := by
  rcases haccept : Environment.accept text b.environment with ⟨cause | _, environment⟩
  · refine ⟨[], ?_⟩
    rw [deliver_of_refused haccept, Own.writing_nil]
    rfl
  · rcases deliver_of_taken haccept with ⟨next, hdeliver, hown, -⟩
    refine ⟨[text], ?_⟩
    rw [hdeliver, hown]

theorem own_answer (b : Bench ε σ) (c : Call) :
    ∃ new, (b.answer c).2.own = b.own.writing new := by
  cases c with
  | write text => exact own_deliver text (b.note (.outputEmitted text))
  | read =>
    refine ⟨[], ?_⟩
    rw [Own.writing_nil, ← own_turn .access b]
    simp only [answer, read]
    split <;> rfl
  -- Apart from writing, a call gives the environment one turn at most.
  | inputReady | resetTime | value =>
    refine ⟨[], ?_⟩
    rw [Own.writing_nil]
    exact own_turn .access b
  | note system fields => exact ⟨[], (Own.writing_nil b.own).symm⟩

/-- A program changes nothing of the bench's own but the lines written. -/
theorem own_runOn {α : Type} (p : Program α) (b : Bench ε σ) :
    ∃ new, (p.runOn b).2.own = b.own.writing new := by
  induction p generalizing b with
  | pure a => exact ⟨[], (Own.writing_nil b.own).symm⟩
  -- Lines are kept newest first, so those of the rest stand in front of the call's.
  | call c next ih =>
    rcases own_answer b c with ⟨first, hfirst⟩
    rcases ih (b.answer c).1 (b.answer c).2 with ⟨later, hlater⟩
    refine ⟨later ++ first, ?_⟩
    unfold Program.runOn
    rw [hlater, hfirst, Own.writing_writing]

end Bench

end Testbench
