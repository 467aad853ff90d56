import Testbench.Bench.Waiting
import Testbench.Inbox.Exchange.Ending
import Testbench.Proofs.Answers
import Testbench.Proofs.Roll

/-!
# Callbacks Are Settled Once

What becomes of a callback when predicates have an answer for every line and callbacks
do not fail. A registration calls it at once, or drops it, or leaves it pending, and only
then answers yes. A pending one stays pending until a line is accepted that it wants or
the inbox is closed, whichever is first. In the one case it is called before the push of
that line is done, in the other it is dropped.

That it is called before the push is done rests on the stack. Nothing fails, so what is
on the stack below a push stays there until all above it is gone, and the calls above it
are the due callbacks in the same order. If the stack has come down to what was below
the push, the callbacks that the push has found are no longer due, and a callback ceases
to be due only by being called.

## Main definitions

* `Action.Harmless`: Predicates have an answer, and callbacks do not fail.
* `Exchange.Releases`, `Exchange.Closes`: What ends the wait of a pending listener.
* `OnRecord.Registers`: How a registration goes.
* `OnRecord.Waits`: How a pending listener fares.

## Theorems

* `Exchange.returns`: What is on top of the stack is done some time.
* `Roll.uncalled_or_called`: A callback ceases to be due only by being called.
* `OnRecord.called_of_owes`: A due callback is called before the stack has come down.
* `OnRecord.callbacks_are_settled_once`: What becomes of every callback.
-/

namespace Testbench

/-- Predicates have an answer for every line, and callbacks do not fail. -/
def Action.Harmless : Action → Prop
  | .extract wants | .register _ wants _ => IsTotal wants
  | .fail => False
  | _ => True

namespace Exchange

variable {x : Exchange}

/-- A line that the predicate wants is about to be accepted. -/
def Releases (x : Exchange) (wants : Predicate) : Prop :=
  ∃ line rest, x.tasks = .push line :: rest ∧ x.inbox.closed = false ∧ wantedBy wants line = true

def Closes (x : Exchange) : Prop := ∃ owner rest, x.tasks = .perform owner .close :: rest

/-! ### Nothing fails -/

theorem MadeOf.answers (h : x.MadeOf Action.Harmless) {listener : Listener Callback}
    (hlistener : listener ∈ x.inbox.listeners.values) : IsTotal listener.wants :=
  (h.listeners listener hlistener).here

theorem tasks_perform (x : Exchange) (owner : Option String) {action : Action}
    (h : action.Harmless) : x.tasks <:+ (x.perform owner action).tasks := by
  cases action with
  | push line | pushAll lines | close | ready | inspect | unknown => exact List.suffix_append _ _
  | read =>
    rcases hread : x.inbox.read? with _ | ⟨line, inbox⟩
    · simp only [perform, hread]
      exact List.suffix_append _ _
    · simp only [perform, hread]
      exact List.suffix_append _ _
  | extract wants =>
    have htotal : IsTotal wants := h
    simp only [perform, extract, htotal.extract_eq]
    exact List.suffix_append _ _
  | fail => exact absurd h id
  | register name wants program =>
    have htotal : IsTotal (Listener.mk wants (Callback.mk name program)).wants := h
    rcases htotal.register_cases x.inbox with ⟨-, hregister⟩ | ⟨-, -, hregister⟩ | ⟨-, -, hregister⟩
    · simp only [perform, register, hregister]
      exact List.suffix_append _ _
    · simp only [perform, register, hregister]
      exact List.suffix_append _ _
    · simp only [perform, register, hregister]
      exact List.suffix_append _ _

theorem tasks_push (h : x.MadeOf Action.Harmless) (line : Line) :
    x.tasks <:+ (x.push line).tasks := by
  cases hclosed : x.inbox.closed with
  | true =>
    simp only [push, Inbox.push_of_closed line hclosed]
    exact List.suffix_refl _
  | false =>
    rcases Inbox.push_of_answers hclosed fun listener hlistener => h.answers hlistener line with
      ⟨due, inbox, hpush⟩
    simp only [push, hpush]
    exact List.suffix_append _ _

/-- What is below the top of the stack stays. -/
theorem tasks_step (h : x.MadeOf Action.Harmless) {task : Task} {rest : List Task}
    (htasks : x.tasks = task :: rest) : rest <:+ x.step.tasks := by
  have htask := h.head htasks
  cases task with
  | perform owner action =>
    simp only [step, htasks]
    exact tasks_perform { x with tasks := rest } owner htask.here
  | push line =>
    simp only [step, htasks]
    exact tasks_push (h.below htasks) line
  | call callback =>
    simp only [step, htasks]
    exact List.suffix_append _ _
  | reply owner reply =>
    simp only [step, htasks]
    cases owner with
    | none => exact List.suffix_refl _
    | some name => exact List.suffix_refl _

/-- What is on top of the stack is done some time, and what is below it is left. -/
theorem returns {upper rest : List Task} (h : x.MadeOf Action.Harmless)
    (htasks : x.tasks = upper ++ rest) : ∃ n, (stepFor n x).tasks = rest := by
  -- By induction on what is left to do, which every step makes less.
  induction hweight : x.weight using Nat.strongRecOn generalizing x upper with
  | ind weight ih =>
    cases upper with
    | nil => exact ⟨0, htasks⟩
    | cons task upper =>
      rcases tasks_step h htasks with ⟨new, hnew⟩
      have hless := weight_step (x := x) (by rw [htasks]; exact List.cons_ne_nil _ _)
      rw [hweight] at hless
      rcases ih x.step.weight hless h.step (hnew.symm.trans (List.append_assoc _ _ _).symm) rfl with
        ⟨n, hn⟩
      exact ⟨n + 1, hn⟩

end Exchange

namespace Roll

variable {g : Roll} {x : Exchange}

theorem Mirrors.answers (h : g.Mirrors x) (hx : x.MadeOf Action.Harmless)
    {listener : Listener Ticket} (hlistener : listener ∈ g.inbox.listeners.values) :
    IsTotal listener.wants := by
  have hvalues : x.inbox.listeners.values
      = g.inbox.listeners.values.map (Listener.map Ticket.callback) := by
    rw [h.inbox]
    exact Slots.values_map _ _
  have hmapped : listener.map Ticket.callback ∈ x.inbox.listeners.values := by
    rw [hvalues]
    exact List.mem_map_of_mem hlistener
  exact hx.answers hmapped

/-! ### What harmless actions do -/

/-- The lines held decide first, and then the end of the input. -/
theorem register_cases (g : Roll) {wants : Predicate} (h : IsTotal wants) (callback : Callback) :
    (g.inbox.lines.any (wantedBy wants) = true ∧
      g.register wants callback =
        { g with due := ⟨g.issued, callback⟩ :: g.due, issued := g.issued + 1 }) ∨
    (g.inbox.lines.any (wantedBy wants) = false ∧ g.inbox.closed = true ∧
      g.register wants callback =
        { g with dropped := ⟨g.issued, callback⟩ :: g.dropped, issued := g.issued + 1 }) ∨
    (g.inbox.lines.any (wantedBy wants) = false ∧ g.inbox.closed = false ∧
      g.register wants callback =
        { g with
          inbox := { g.inbox with
            listeners := g.inbox.listeners.insert ⟨wants, ⟨g.issued, callback⟩⟩ }
          issued := g.issued + 1 }) := by
  have htotal : IsTotal (Listener.mk wants (Ticket.mk g.issued callback)).wants := h
  rcases htotal.register_cases g.inbox with ⟨hany, hregister⟩ | ⟨hany, hclosed, hregister⟩ |
    ⟨hany, hopen, hregister⟩
  · exact .inl ⟨hany, by simp only [register, hregister]⟩
  · exact .inr (.inl ⟨hany, hclosed, by simp only [register, hregister]⟩)
  · exact .inr (.inr ⟨hany, hopen, by simp only [register, hregister]⟩)

/-- It takes lines at most, or closes the inbox, or registers a listener. -/
theorem perform_cases (g : Roll) {action : Action} (h : action.Harmless) :
    (∃ inbox, inbox.listeners = g.inbox.listeners ∧ g.perform action = { g with inbox }) ∨
    (action = .close ∧ g.perform action = g.close) ∨
    (∃ name wants program, IsTotal wants ∧
      g.perform action = g.register wants ⟨name, program⟩) := by
  cases action with
  | push line | pushAll lines | ready | inspect | unknown => exact .inl ⟨g.inbox, rfl, rfl⟩
  | close => exact .inr (.inl ⟨rfl, rfl⟩)
  | read =>
    unfold perform Inbox.read?
    rcases g.inbox.lines with _ | ⟨line, rest⟩
    · exact .inl ⟨g.inbox, rfl, rfl⟩
    · exact .inl ⟨{ g.inbox with lines := rest }, rfl, rfl⟩
  | extract wants =>
    have htotal : IsTotal wants := h
    simp only [perform, extract, htotal.extract_eq]
    refine .inl ⟨_, ?_, rfl⟩
    rfl
  | fail => exact absurd h id
  | register name wants program => exact .inr (.inr ⟨name, wants, program, h, rfl⟩)

/-! ### Callbacks that are due -/

/-- No callback has been called, and those that were due still are. -/
structure Uncalled (g next : Roll) : Prop where
  called : next.called = g.called
  due : g.due <:+ next.due

theorem Uncalled.of_eq {next : Roll} (hcalled : next.called = g.called) (hdue : next.due = g.due) :
    g.Uncalled next :=
  ⟨hcalled, hdue ▸ List.suffix_refl _⟩

theorem Uncalled.perform (g : Roll) {action : Action} (h : action.Harmless) :
    g.Uncalled (g.perform action) := by
  rcases g.perform_cases h with ⟨inbox, -, hperform⟩ | ⟨-, hperform⟩ |
    ⟨name, wants, program, htotal, hperform⟩
  · rw [hperform]
    exact .of_eq rfl rfl
  · rw [hperform]
    exact .of_eq rfl rfl
  · rw [hperform]
    rcases g.register_cases htotal ⟨name, program⟩ with ⟨-, hroll⟩ | ⟨-, -, hroll⟩ | ⟨-, -, hroll⟩
    · rw [hroll]
      exact ⟨rfl, List.suffix_cons _ _⟩
    · rw [hroll]
      exact .of_eq rfl rfl
    · rw [hroll]
      exact .of_eq rfl rfl

theorem Uncalled.push (h : g.Mirrors x) (hx : x.MadeOf Action.Harmless) (line : Line) :
    g.Uncalled (g.push line) := by
  cases hclosed : g.inbox.closed with
  | true =>
    simp only [Roll.push, Inbox.push_of_closed line hclosed]
    exact .of_eq rfl rfl
  | false =>
    rcases Inbox.push_of_answers hclosed fun listener hlistener => h.answers hx hlistener line with
      ⟨due, inbox, hpush⟩
    simp only [Roll.push, hpush]
    exact ⟨rfl, List.suffix_append _ _⟩

/-- Only a call calls, and then what is due next. -/
theorem uncalled_or_called (h : g.Mirrors x) (hx : x.MadeOf Action.Harmless) :
    g.Uncalled (g.enter x) ∨ ∃ callback rest ticket later,
      x.tasks = .call callback :: rest ∧ ticket.callback = callback ∧ g.due = ticket :: later ∧
      g.enter x = { g with due := later, called := ticket :: g.called } := by
  unfold enter
  split
  · next owner action rest htasks =>
    have haction : action.Throughout Action.Harmless := hx.head htasks
    exact .inl (.perform g haction.here)
  · exact .inl (.push h hx _)
  · next callback rest htasks =>
    rcases h.next_due htasks with ⟨ticket, later, hdue, hcallback, -⟩
    refine .inr ⟨callback, rest, ticket, later, htasks, hcallback, hdue, ?_⟩
    simp only [call, hdue]
  · exact .inl (.of_eq rfl rfl)

/-- The ticket is due, and `count` others at least are due after it. -/
def Owes (g : Roll) (ticket : Ticket) (count : Nat) : Prop :=
  ∃ upper lower, g.due = upper ++ ticket :: lower ∧ count ≤ lower.length

theorem Owes.enter {ticket : Ticket} {count : Nat} (howes : g.Owes ticket count)
    (h : g.Mirrors x) (hx : x.MadeOf Action.Harmless) :
    ticket ∈ (g.enter x).called ∨ (g.enter x).Owes ticket count := by
  rcases howes with ⟨upper, lower, hdue, hcount⟩
  rcases uncalled_or_called h hx with huncalled | ⟨_, _, next, later, -, -, hnext, hroll⟩
  · rcases huncalled.due with ⟨new, hnew⟩
    refine .inr ⟨new ++ upper, lower, ?_, hcount⟩
    rw [← hnew, hdue, List.append_assoc]
  · rw [hdue] at hnext
    rw [hroll]
    cases upper with
    | nil =>
      rw [(List.cons.inj hnext).1]
      exact .inl List.mem_cons_self
    | cons first upper => exact .inr ⟨upper, lower, (List.cons.inj hnext).2.symm, hcount⟩

/-! ### Callbacks that are pending -/

variable {listener : Listener Ticket}

theorem pending_perform (h : listener ∈ g.inbox.listeners.values) {action : Action}
    (haction : action.Harmless) (hclose : action ≠ .close) :
    listener ∈ (g.perform action).inbox.listeners.values := by
  rcases g.perform_cases haction with ⟨inbox, hlisteners, hperform⟩ | ⟨hclosing, -⟩ |
    ⟨name, wants, program, htotal, hperform⟩
  · rw [hperform]
    simp only [hlisteners]
    exact h
  · exact absurd hclosing hclose
  · rw [hperform]
    rcases g.register_cases htotal ⟨name, program⟩ with ⟨-, hroll⟩ | ⟨-, -, hroll⟩ | ⟨-, -, hroll⟩
    · rw [hroll]
      exact h
    · rw [hroll]
      exact h
    · rw [hroll]
      exact (Slots.values_insert _ _).mem_iff.mpr (List.mem_cons_of_mem _ h)

/-- A push leaves a listener pending, unless it is accepted and wanted. -/
theorem pending_push (h : listener ∈ g.inbox.listeners.values) (hm : g.Mirrors x)
    (hx : x.MadeOf Action.Harmless) {line : Line}
    (hkept : g.inbox.closed = false → wantedBy listener.wants line = false) :
    listener ∈ (g.push line).inbox.listeners.values := by
  cases hclosed : g.inbox.closed with
  | true =>
    simp only [push, Inbox.push_of_closed line hclosed]
    exact h
  | false =>
    rcases Inbox.push_of_answers hclosed fun listener hlistener => hm.answers hx hlistener line with
      ⟨due, inbox, hpush⟩
    rcases Inbox.push_eq_held hpush with ⟨-, -, -, hremaining, -⟩
    rcases List.mem_map.mp h with ⟨entry, hentry, rfl⟩
    have hunwanted : entry.2.accepts line = false := hkept hclosed
    simp only [push, hpush, Slots.values, hremaining]
    refine List.mem_map_of_mem (List.mem_filter.mpr ⟨hentry, ?_⟩)
    rw [hunwanted]
    rfl

/-- The callback is due now, before all that was due already. -/
theorem owes_push (h : listener ∈ g.inbox.listeners.values) (hm : g.Mirrors x)
    (hx : x.MadeOf Action.Harmless) {line : Line} (hopen : g.inbox.closed = false)
    (hwanted : wantedBy listener.wants line = true) :
    (g.push line).Owes listener.callback g.due.length := by
  rcases Inbox.push_of_answers hopen fun listener hlistener => hm.answers hx hlistener line with
    ⟨due, inbox, hpush⟩
  rcases Inbox.push_eq_held hpush with ⟨-, -, -, -, hdue⟩
  have hmem : listener.callback ∈ due := by
    rcases List.mem_map.mp h with ⟨entry, hentry, rfl⟩
    rw [hdue]
    exact List.mem_map_of_mem (List.mem_filter.mpr ⟨hentry, hwanted⟩)
  rcases List.append_of_mem hmem with ⟨upper, lower, rfl⟩
  refine ⟨upper, lower ++ g.due, ?_, ?_⟩
  · simp only [push, hpush, List.append_assoc, List.cons_append]
  · rw [List.length_append]
    exact Nat.le_add_left _ _

theorem dropped_close (h : listener ∈ g.inbox.listeners.values) :
    listener.callback ∈ g.close.dropped :=
  List.mem_append_left _ (List.mem_reverse.mpr (List.mem_map_of_mem h))

/-- What ends a wait is told by the exchange. -/
theorem pending_enter (h : listener ∈ g.inbox.listeners.values) (hm : g.Mirrors x)
    (hx : x.MadeOf Action.Harmless) (hunreleased : ¬ x.Releases listener.wants)
    (hunclosed : ¬ x.Closes) : listener ∈ (g.enter x).inbox.listeners.values := by
  unfold enter
  split
  · next owner action rest htasks =>
    have haction : action.Throughout Action.Harmless := hx.head htasks
    refine pending_perform h haction.here fun hclose => hunclosed ⟨owner, rest, ?_⟩
    rw [htasks, hclose]
  · next line rest htasks =>
    refine pending_push h hm hx fun hopen => Bool.eq_false_iff.mpr fun hwanted => hunreleased ?_
    exact ⟨line, rest, htasks, hm.inbox ▸ hopen, hwanted⟩
  · unfold call
    split
    · exact h
    · exact h
  · exact h

end Roll

/-! ### Exchanges with a roll -/

namespace OnRecord

/-- An exchange whose callbacks are on a roll, from a new inbox onwards. -/
abbrev HasRoll (k : OnRecord Roll) : Prop :=
  Reachable Action.Harmless Roll.enter Roll.blank k

abbrev IsLater (k later : OnRecord Roll) : Prop := Later Action.Harmless Roll.enter k later

variable {k later : OnRecord Roll}

/-- How a registration goes that is performed now: the callback is called before the
    reply, or dropped, or left pending, and only then the reply is yes. -/
def Registers (k : OnRecord Roll) : Prop :=
  ∀ owner name wants program rest,
    k.exchange.tasks = .perform owner (.register name wants program) :: rest →
    let ticket : Ticket := ⟨k.record.issued, ⟨name, program⟩⟩
    if k.exchange.inbox.lines.any (wantedBy wants) then
      (k.next Roll.enter).exchange.tasks
          = .call ticket.callback :: .reply owner (.registered false) :: rest ∧
        (nextFor Roll.enter 2 k).record.called = ticket :: k.record.called
    else if k.exchange.inbox.closed then
      (k.next Roll.enter).exchange.tasks = .reply owner (.registered false) :: rest ∧
        (k.next Roll.enter).record.dropped = ticket :: k.record.dropped
    else
      (k.next Roll.enter).exchange.tasks = .reply owner (.registered true) :: rest ∧
        ⟨wants, ticket⟩ ∈ (k.next Roll.enter).record.inbox.listeners.values

/-- How a pending listener fares. -/
structure Waits (k : OnRecord Roll) (listener : Listener Ticket) : Prop where
  /-- It is called before the push of a line that it wants is done, which comes to pass. -/
  released : ∀ line rest, k.exchange.tasks = .push line :: rest → k.exchange.inbox.closed = false →
    wantedBy listener.wants line = true →
    listener.callback ∈ (k.next Roll.enter).record.due ∧
    (∃ n, (nextFor Roll.enter n (k.next Roll.enter)).exchange.tasks = rest) ∧
    ∀ later, IsLater (k.next Roll.enter) later → later.exchange.tasks <:+ rest →
      listener.callback ∈ later.record.called
  closed : k.exchange.Closes → listener.callback ∈ (k.next Roll.enter).record.dropped
  /-- Nothing else ends the wait. -/
  otherwise : ∀ later, IsLater k later → listener ∈ later.record.inbox.listeners.values ∨
    ∃ last, IsLater k last ∧ listener ∈ last.record.inbox.listeners.values ∧
      IsLater (last.next Roll.enter) later ∧
      (last.exchange.Releases listener.wants ∨ last.exchange.Closes)

theorem owes_later {ticket : Ticket} {count : Nat} (h : HasRoll k) (hlater : IsLater k later)
    (howes : k.record.Owes ticket count) :
    ticket ∈ later.record.called ∨ later.record.Owes ticket count := by
  induction hlater with
  | refl => exact .inr howes
  | @tail between _ hbefore hmove ih =>
    have hbetween := h.later hbefore
    cases hmove with
    | ask action hidle _ => exact ih
    | step =>
      rcases ih with hcalled | hstill
      · exact .inl ((Roll.Kept.enter _ _).called.mem hcalled)
      · exact hstill.enter hbetween.roll.1 hbetween.madeOf

/-- The calls on a stack that has come down are not more than before. -/
theorem called_of_owes {ticket : Ticket} {rest : List Task} (h : HasRoll k)
    (hlater : IsLater k later) (hreturned : later.exchange.tasks <:+ rest)
    (howes : k.record.Owes ticket (rest.filterMap Task.callback?).length) :
    ticket ∈ later.record.called := by
  rcases owes_later h hlater howes with hcalled | ⟨upper, lower, hdue, hcount⟩
  · exact hcalled
  · have hcalls := congrArg List.length (h.later hlater).roll.1.due
    have hfewer := (hreturned.sublist.filterMap Task.callback?).length_le
    rw [hdue, List.length_map, List.length_append, List.length_cons] at hcalls
    omega

theorem next_of_perform {owner : Option String} {action : Action} {rest : List Task}
    (htasks : k.exchange.tasks = .perform owner action :: rest) :
    k.next Roll.enter
      = ⟨Exchange.perform { k.exchange with tasks := rest } owner action,
          k.record.perform action⟩ := by
  simp only [next, Exchange.step, Roll.enter, htasks]

theorem registers (h : HasRoll k) : Registers k := by
  intro owner name wants program rest htasks ticket
  have hmirrors := h.roll.1
  have haction : (Action.register name wants program).Throughout Action.Harmless :=
    h.madeOf.head htasks
  have htotal : IsTotal (Listener.mk wants (Ticket.mk k.record.issued ⟨name, program⟩)).wants :=
    haction.here
  -- The roll is asked what the exchange is asked, and answers the same.
  have hlines : k.exchange.inbox.lines = k.record.inbox.lines := by
    rw [hmirrors.inbox]
    rfl
  have hclosed : k.exchange.inbox.closed = k.record.inbox.closed := by
    rw [hmirrors.inbox]
    rfl
  have hsame : ∀ {result inbox},
      k.record.inbox.register ⟨wants, ⟨k.record.issued, ⟨name, program⟩⟩⟩ = .ok (result, inbox) →
      k.exchange.inbox.register ⟨wants, ⟨name, program⟩⟩
        = .ok (result, inbox.map Ticket.callback) := by
    intro result inbox hroll
    have hregister := Inbox.register_map Ticket.callback k.record.inbox
      ⟨wants, ⟨k.record.issued, ⟨name, program⟩⟩⟩
    rw [← hmirrors.inbox, hroll] at hregister
    exact hregister
  have hnext := next_of_perform htasks
  rw [hlines, hclosed]
  rcases htotal.register_cases k.record.inbox with ⟨hany, hroll⟩ | ⟨hany, hshut, hroll⟩ |
    ⟨hany, hopen, hroll⟩
  · simp only [Exchange.perform, Exchange.register, Roll.perform, Roll.register, hroll,
      hsame hroll] at hnext
    rw [if_pos hany, hnext, nextFor, hnext]
    exact ⟨rfl, rfl⟩
  · simp only [Exchange.perform, Exchange.register, Roll.perform, Roll.register, hroll,
      hsame hroll] at hnext
    rw [if_neg (ne_true_of_eq_false hany), if_pos hshut, hnext]
    exact ⟨rfl, rfl⟩
  · simp only [Exchange.perform, Exchange.register, Roll.perform, Roll.register, hroll,
      hsame hroll] at hnext
    rw [if_neg (ne_true_of_eq_false hany), if_neg (ne_true_of_eq_false hopen), hnext]
    exact ⟨rfl, (Slots.values_insert _ _).mem_iff.mpr List.mem_cons_self⟩

theorem waits {listener : Listener Ticket} (h : HasRoll k)
    (hlistener : listener ∈ k.record.inbox.listeners.values) : Waits k listener := by
  refine ⟨?_, ?_, ?_⟩
  · intro line rest htasks hopen hwanted
    have hmirrors := h.roll.1
    have hopen' : k.record.inbox.closed = false := by
      rw [hmirrors.inbox] at hopen
      exact hopen
    have hnext : HasRoll (k.next Roll.enter) := h.later (.single .step)
    have howes : (k.next Roll.enter).record.Owes listener.callback k.record.due.length := by
      simp only [next, Roll.enter, htasks]
      exact Roll.owes_push hlistener hmirrors h.madeOf hopen' hwanted
    have hbelow : k.record.due.length = (rest.filterMap Task.callback?).length := by
      have hdue := hmirrors.due
      rw [htasks, List.filterMap_cons_none rfl] at hdue
      rw [hdue, List.length_map]
    refine ⟨?_, ?_, fun later hlater hreturned => ?_⟩
    · rcases howes with ⟨upper, lower, hdue, -⟩
      rw [hdue]
      exact List.mem_append_right _ List.mem_cons_self
    · rcases Exchange.tasks_step h.madeOf htasks with ⟨upper, hupper⟩
      rcases Exchange.returns hnext.madeOf hupper.symm with ⟨n, hn⟩
      exact ⟨n, by rw [exchange_nextFor, hn]⟩
    · rw [hbelow] at howes
      exact called_of_owes hnext hlater hreturned howes
  · rintro ⟨owner, rest, htasks⟩
    rw [next_of_perform htasks]
    exact Roll.dropped_close hlistener
  · intro later hlater
    induction hlater with
    | refl => exact .inl hlistener
    | @tail between after hbefore hmove ih =>
      rcases ih with hpending | ⟨last, hlast, hpending, hsince, hended⟩
      · cases hmove with
        | ask action hidle _ => exact .inl hpending
        | step =>
          have hbetween := h.later hbefore
          by_cases hended : between.exchange.Releases listener.wants ∨ between.exchange.Closes
          · exact .inr ⟨between, hbefore, hpending, .refl, hended⟩
          · rw [not_or] at hended
            exact .inl (Roll.pending_enter hpending hbetween.roll.1 hbetween.madeOf hended.1
              hended.2)
      · exact .inr ⟨last, hlast, hpending, hsince.tail hmove, hended⟩

/-- In every state of every exchange in which nothing fails, and for every callback that
    has been registered: it is in one place, be it pending, due, called or dropped, and the
    roll says so in agreement with the exchange. What was called or dropped stays so. A
    call calls what is due next, and nothing else calls. A registration calls the callback
    at once exactly if a line held is wanted, else drops it exactly if the inbox is closed,
    else leaves it pending. A pending callback stays pending until a wanted line is
    accepted, before whose push is done it is called, or the inbox is closed, which drops
    it. -/
theorem callbacks_are_settled_once (h : HasRoll k) :
    k.record.Mirrors k.exchange ∧
    ((k.record.pending ++ k.record.due ++ k.record.called ++ k.record.dropped).map
      Ticket.number).Perm (List.range k.record.issued) ∧
    (∀ later, IsLater k later →
      k.record.called <:+ later.record.called ∧ k.record.dropped <:+ later.record.dropped) ∧
    (∀ callback rest, k.exchange.tasks = .call callback :: rest →
      ∃ ticket due, ticket.callback = callback ∧ k.record.due = ticket :: due ∧
        (k.next Roll.enter).record = { k.record with due, called := ticket :: k.record.called }) ∧
    ((∀ callback rest, k.exchange.tasks ≠ .call callback :: rest) →
      (k.next Roll.enter).record.called = k.record.called) ∧
    Registers k ∧
    (∀ listener ∈ k.record.inbox.listeners.values, Waits k listener) := by
  refine ⟨h.roll.1, h.roll.2, fun later hlater => ?_, ?_, ?_, registers h,
    fun listener hlistener => waits h hlistener⟩
  · have hkept := Later.kept hlater
    exact ⟨hkept.called, hkept.dropped⟩
  · intro callback rest htasks
    rcases h.roll.1.next_due htasks with ⟨ticket, due, hdue, hcallback, -⟩
    refine ⟨ticket, due, hcallback, hdue, ?_⟩
    simp only [next, Roll.enter, Roll.call, htasks, hdue]
  · intro hnocall
    rcases Roll.uncalled_or_called h.roll.1 h.madeOf with
      huncalled | ⟨callback, rest, _, _, htasks, -⟩
    · exact huncalled.called
    · exact absurd htasks (hnocall callback rest)

/-- A directive has been pushed, and the callback that waited for it is about to register
    another one, which wants a directive as well. -/
def reentering : OnRecord Roll :=
  let listening := nextFor Roll.enter 2 ⟨(fresh (.empty none) Roll.blank).exchange.asked
    (.register "first" Bench.wantsDirective [.register "second" Bench.wantsDirective [.read]]),
    Roll.blank⟩
  nextFor Roll.enter 3 ⟨listening.exchange.asked (.push ⟨"Delay: 5"⟩), listening.record⟩

theorem callbacks_are_settled_once_reentering :
    reentering.record.called.map Ticket.number = [0] ∧
      (nextFor Roll.enter 2 reentering).record.called.map Ticket.number = [1, 0] := by
  have hsecond : (Action.register "second" Bench.wantsDirective [.read]).Throughout
      Action.Harmless := by
    refine .intro (fun line => ⟨_, rfl⟩) fun inner hinner => ?_
    rw [List.mem_singleton.mp hinner]
    exact .of_plain trivial rfl
  have hfirst : (Action.register "first" Bench.wantsDirective
      [.register "second" Bench.wantsDirective [.read]]).Throughout Action.Harmless := by
    refine .intro (fun line => ⟨_, rfl⟩) fun inner hinner => ?_
    rw [List.mem_singleton.mp hinner]
    exact hsecond
  have hpush : ∀ line, (Action.push line).Throughout Action.Harmless :=
    fun _ => .of_plain trivial rfl
  have hreentering : HasRoll reentering :=
    ((reachable_fresh _).ask rfl hfirst 2).ask rfl (hpush _) 3
  have hcalled : reentering.record.called.map Ticket.number = [0] := by decide
  have hregisters := (callbacks_are_settled_once hreentering).2.2.2.2.2.1 (some "first") "second"
    Bench.wantsDirective [.read] _ rfl
  rw [if_pos (by decide)] at hregisters
  rw [hregisters.2, List.map_cons, hcalled]
  exact ⟨rfl, rfl⟩

end OnRecord

end Testbench
