import Testbench.Proofs.Listeners

/-!
# Exchanges on Record

An exchange forgets. It does not say which of two equal lines it holds, nor to which
registration a pending callback goes back. What can be said about single lines and
single registrations is said of an exchange on record: each step is entered into a
record, and what is entered depends on the exchange before the step. The record never
has a say in what the exchange does, so every exchange can be put on record, and every
state of a recorded exchange is a state of the exchange alone.

Actions are trees, since registering a listener brings in the actions of its callback.
A property asked of all actions, at whatever depth, is kept along an exchange: what is
on the stack and what pending callbacks will do stems from what was asked.

## Main definitions

* `Action.Throughout`: An action and all actions inside it have some property.
* `Exchange.MadeOf`: All that an exchange may still do has it.
* `OnRecord`: An exchange with a record.
* `OnRecord.Move`, `OnRecord.Later`: What can happen to it.
* `OnRecord.Reachable`: The states of all recorded exchanges with a new inbox.

## Theorems

* `Exchange.MadeOf.step`: A step brings in no action that was not there.
* `OnRecord.Later.exchange`: The record has no say.
* `OnRecord.Reachable.madeOf`: What was asked is what is done.
-/

namespace Testbench

/-! ### Actions inside actions -/

/-- What the callback does that an action registers. -/
def Action.program : Action → List Action
  | .register _ _ program => program
  | _ => []

/-- The action has the property, and so have all actions inside it, at any depth. -/
inductive Action.Throughout (p : Action → Prop) : Action → Prop
  | intro {action : Action} (here : p action)
      (inside : ∀ inner ∈ action.program, inner.Throughout p) : action.Throughout p

theorem Action.Throughout.here {p : Action → Prop} {action : Action} (h : action.Throughout p) :
    p action := by
  cases h with
  | intro here _ => exact here

theorem Action.Throughout.inside {p : Action → Prop} {action inner : Action}
    (h : action.Throughout p) (hinner : inner ∈ action.program) : inner.Throughout p := by
  cases h with
  | intro _ inside => exact inside inner hinner

theorem Action.Throughout.of_plain {p : Action → Prop} {action : Action} (h : p action)
    (hplain : action.program = []) : action.Throughout p := by
  refine .intro h fun inner hinner => ?_
  rw [hplain] at hinner
  exact absurd hinner List.not_mem_nil

def Task.MadeOf (p : Action → Prop) : Task → Prop
  | .perform _ action => action.Throughout p
  | .call callback => ∀ action ∈ callback.program, action.Throughout p
  | .push _ | .reply _ _ => True

namespace Exchange

/-- A pending listener is traced back to the action that registered it. -/
structure MadeOf (p : Action → Prop) (x : Exchange) : Prop where
  tasks : ∀ task ∈ x.tasks, task.MadeOf p
  listeners : ∀ listener ∈ x.inbox.listeners.values,
    (Action.register listener.callback.name listener.wants listener.callback.program).Throughout p

namespace MadeOf

variable {p : Action → Prop} {x : Exchange}

theorem head (h : x.MadeOf p) {task : Task} {rest : List Task} (htasks : x.tasks = task :: rest) :
    task.MadeOf p :=
  h.tasks task (by rw [htasks]; exact List.mem_cons_self)

/-- What is below the top of the stack. -/
theorem below (h : x.MadeOf p) {task : Task} {rest : List Task} (htasks : x.tasks = task :: rest) :
    ({ x with tasks := rest } : Exchange).MadeOf p :=
  ⟨fun other hother => h.tasks other (by rw [htasks]; exact List.mem_cons_of_mem task hother),
    h.listeners⟩

theorem owe (h : x.MadeOf p) {tasks : List Task} (htasks : ∀ task ∈ tasks, task.MadeOf p) :
    (x.owe tasks).MadeOf p := by
  refine ⟨?_, h.listeners⟩
  intro task htask
  rcases List.mem_append.mp htask with hnew | hold
  · exact htasks task hnew
  · exact h.tasks task hold

/-- A reply may always be put on top. -/
theorem reply (h : x.MadeOf p) (owner : Option String) (reply : Reply) :
    (x.owe [.reply owner reply]).MadeOf p := by
  refine h.owe ?_
  intro task htask
  rw [List.mem_singleton.mp htask]
  trivial

theorem abort (h : x.MadeOf p) (fault : Fault) : (x.abort fault).MadeOf p :=
  ⟨fun _ htask => absurd htask List.not_mem_nil, h.listeners⟩

/-- Listeners may leave the inbox, and lines come and go. -/
theorem withInbox (h : x.MadeOf p) {inbox : Inbox Callback}
    (hlisteners : ∀ listener ∈ inbox.listeners.values, listener ∈ x.inbox.listeners.values) :
    ({ x with inbox } : Exchange).MadeOf p :=
  ⟨h.tasks, fun listener hlistener => h.listeners listener (hlisteners listener hlistener)⟩

theorem push (h : x.MadeOf p) (line : Line) : (x.push line).MadeOf p := by
  rcases hpush : x.inbox.push line with fault | ⟨_ | due, inbox⟩
  · simp only [Exchange.push, hpush]
    exact h.abort fault
  · simp only [Exchange.push, hpush]
    exact ⟨h.tasks, h.listeners⟩
  · rcases Inbox.push_eq_held hpush with ⟨-, -, -, hremaining, hdue⟩
    simp only [Exchange.push, hpush]
    refine (h.withInbox ?_).owe ?_
    · intro listener hlistener
      rcases List.mem_map.mp hlistener with ⟨entry, hentry, rfl⟩
      rw [hremaining] at hentry
      exact List.mem_map_of_mem (List.mem_filter.mp hentry).1
    · -- A callback that is due belongs to a listener that was pending until now.
      intro task htask
      rcases List.mem_map.mp htask with ⟨callback, hcallback, rfl⟩
      rw [hdue] at hcallback
      rcases List.mem_map.mp hcallback with ⟨entry, hentry, rfl⟩
      intro action haction
      exact (h.listeners entry.2 (List.mem_map_of_mem (List.mem_filter.mp hentry).1)).inside
        haction

theorem register (h : x.MadeOf p) (owner : Option String) {name : String} {wants : Predicate}
    {program : List Action} (haction : (Action.register name wants program).Throughout p) :
    (x.register owner wants ⟨name, program⟩).MadeOf p := by
  have hnoticed : (x.notice (.dropped name)).MadeOf p := ⟨h.tasks, h.listeners⟩
  rcases hregister : x.inbox.register ⟨wants, ⟨name, program⟩⟩ with fault | ⟨_ | _ | _, inbox⟩
  · simp only [Exchange.register, hregister]
    exact hnoticed.abort fault
  · simp only [Exchange.register, hregister]
    refine h.owe ?_
    intro task htask
    rcases List.mem_cons.mp htask with rfl | hreply
    · exact fun action hinner => haction.inside hinner
    · rw [List.mem_singleton.mp hreply]
      trivial
  · simp only [Exchange.register, hregister]
    exact hnoticed.reply _ _
  · rcases Inbox.register_eq_pending hregister with ⟨-, -, hnext⟩
    have hpending : ({ x with inbox } : Exchange).MadeOf p := by
      refine ⟨h.tasks, ?_⟩
      intro listener hlistener
      simp only [hnext] at hlistener
      rcases List.mem_cons.mp ((Slots.values_insert _ _).mem_iff.mp hlistener) with rfl | hold
      · exact haction
      · exact h.listeners _ hold
    simp only [Exchange.register, hregister]
    exact hpending.reply _ _

theorem perform (h : x.MadeOf p) (owner : Option String) {action : Action}
    (haction : action.Throughout p) : (x.perform owner action).MadeOf p := by
  cases action with
  | push line =>
    refine h.owe ?_
    intro task htask
    rcases List.mem_cons.mp htask with rfl | hreply
    · trivial
    · rw [List.mem_singleton.mp hreply]
      trivial
  | pushAll lines =>
    refine h.owe ?_
    intro task htask
    rcases List.mem_append.mp htask with hpush | hreply
    · rcases List.mem_map.mp hpush with ⟨line, -, rfl⟩
      trivial
    · rw [List.mem_singleton.mp hreply]
      trivial
  | close =>
    have hclosed : x.close.MadeOf p :=
      ⟨h.tasks, fun _ hlistener => absurd hlistener List.not_mem_nil⟩
    exact hclosed.reply _ _
  | read =>
    simp only [Exchange.perform]
    split
    · next inbox hread =>
      refine (h.withInbox ?_).reply _ _
      cases hlines : x.inbox.lines with
      | nil =>
        rw [Inbox.read?, hlines] at hread
        cases hread
      | cons first rest =>
        rw [Inbox.read?, hlines] at hread
        rw [← (Prod.mk.inj (Option.some.inj hread)).2]
        exact fun _ hlistener => hlistener
    · exact h.reply _ _
  | ready | inspect | unknown => exact h.reply _ _
  | fail => exact h.abort _
  | extract wants =>
    -- Whether or not the predicate breaks, only lines are taken out.
    have hkept : (x.inbox.extract wants).2.listeners = x.inbox.listeners := by
      unfold Inbox.extract
      split <;> rfl
    rcases hextract : x.inbox.extract wants with ⟨fault | lines, inbox⟩
    · simp only [Exchange.perform, Exchange.extract, hextract]
      rw [hextract] at hkept
      exact (h.withInbox (by simp only at hkept; rw [hkept]; exact fun _ hl => hl)).abort fault
    · simp only [Exchange.perform, Exchange.extract, hextract]
      rw [hextract] at hkept
      exact (h.withInbox (by simp only at hkept; rw [hkept]; exact fun _ hl => hl)).reply _ _
  | register name wants program => exact h.register owner haction

/-- A step brings in no action that was not there. -/
theorem step (h : x.MadeOf p) : x.step.MadeOf p := by
  rcases x with ⟨inbox, _ | ⟨task, rest⟩, notices, journal, answer⟩
  · exact h
  · have hrest : (⟨inbox, rest, notices, journal, answer⟩ : Exchange).MadeOf p := h.below rfl
    have htask : task.MadeOf p := h.head rfl
    cases task with
    | perform owner action => exact hrest.perform owner htask
    | push line => exact hrest.push line
    | call callback =>
      have hnoticed : ((⟨inbox, rest, notices, journal, answer⟩ : Exchange).notice
          (.fired callback.name)).MadeOf p := ⟨hrest.tasks, hrest.listeners⟩
      refine hnoticed.owe ?_
      intro task hnew
      rcases List.mem_map.mp hnew with ⟨action, haction, rfl⟩
      exact htask action haction
    | reply owner reply =>
      cases owner with
      | none => exact ⟨hrest.tasks, hrest.listeners⟩
      | some name => exact ⟨hrest.tasks, hrest.listeners⟩

end MadeOf

/-- The exchange when it has been asked for another action. -/
def asked (x : Exchange) (action : Action) : Exchange :=
  ⟨x.inbox, [.perform none action], [], x.journal, none⟩

theorem MadeOf.asked {p : Action → Prop} {x : Exchange} (h : x.MadeOf p) {action : Action}
    (haction : action.Throughout p) : (x.asked action).MadeOf p := by
  refine ⟨?_, h.listeners⟩
  intro task htask
  rw [List.mem_singleton.mp htask]
  exact haction

end Exchange

/-! ### Records -/

structure OnRecord (ρ : Type) where
  exchange : Exchange
  record : ρ

namespace OnRecord

variable {ρ : Type}

/-- The next step, entered into the record. -/
def next (enter : Exchange → ρ → ρ) (k : OnRecord ρ) : OnRecord ρ :=
  ⟨k.exchange.step, enter k.exchange k.record⟩

def nextFor (enter : Exchange → ρ → ρ) : Nat → OnRecord ρ → OnRecord ρ
  | 0, k => k
  | n + 1, k => nextFor enter n (k.next enter)

/-- A step, or when there is nothing left to do, a further action with some property. -/
inductive Move (p : Action → Prop) (enter : Exchange → ρ → ρ) : OnRecord ρ → OnRecord ρ → Prop
  | step {k : OnRecord ρ} : Move p enter k (k.next enter)
  | ask {k : OnRecord ρ} (action : Action) (hidle : k.exchange.tasks = [])
      (haction : action.Throughout p) : Move p enter k ⟨k.exchange.asked action, k.record⟩

/-- The second state comes after the first, or is the same. -/
abbrev Later (p : Action → Prop) (enter : Exchange → ρ → ρ) : OnRecord ρ → OnRecord ρ → Prop :=
  Relation.ReflTransGen (Move p enter)

/-- A new inbox, and nothing asked of it yet. -/
def fresh (journal : Journal) (blank : ρ) : OnRecord ρ :=
  ⟨⟨Inbox.empty, [], [], journal, none⟩, blank⟩

def Reachable (p : Action → Prop) (enter : Exchange → ρ → ρ) (blank : ρ) (k : OnRecord ρ) : Prop :=
  ∃ journal, Later p enter (fresh journal blank) k

variable {p : Action → Prop} {enter : Exchange → ρ → ρ} {blank : ρ}

/-- The record has no say in what happens. -/
theorem Later.exchange {k later : OnRecord ρ} (h : Later p enter k later) :
    Relation.ReflTransGen Exchange.Move k.exchange later.exchange := by
  induction h with
  | refl => exact .refl
  | tail _ hmove ih =>
    cases hmove with
    | step => exact ih.tail .step
    | ask action hidle _ => exact ih.tail (.ask action hidle)

theorem Later.madeOf {k later : OnRecord ρ} (h : Later p enter k later)
    (hk : k.exchange.MadeOf p) : later.exchange.MadeOf p := by
  induction h with
  | refl => exact hk
  | tail _ hmove ih =>
    cases hmove with
    | step => exact ih.step
    | ask action _ haction => exact ih.asked haction

/-- What was asked is what is done. -/
theorem Reachable.madeOf {k : OnRecord ρ} (h : Reachable p enter blank k) :
    k.exchange.MadeOf p := by
  rcases h with ⟨journal, hlater⟩
  exact hlater.madeOf
    ⟨fun _ htask => absurd htask List.not_mem_nil, fun _ hl => absurd hl List.not_mem_nil⟩

theorem later_nextFor (n : Nat) (k : OnRecord ρ) : Later p enter k (nextFor enter n k) := by
  induction n generalizing k with
  | zero => exact .refl
  | succ n ih => exact .head .step (ih (k.next enter))

theorem exchange_nextFor (n : Nat) (k : OnRecord ρ) :
    (nextFor enter n k).exchange = Exchange.stepFor n k.exchange := by
  induction n generalizing k with
  | zero => rfl
  | succ n ih => exact ih (k.next enter)

theorem reachable_fresh (journal : Journal) : Reachable p enter blank (fresh journal blank) :=
  ⟨journal, .refl⟩

/-- A further action, and some steps of it. -/
theorem Reachable.ask {k : OnRecord ρ} (h : Reachable p enter blank k)
    (hidle : k.exchange.tasks = []) {action : Action} (haction : action.Throughout p) (n : Nat) :
    Reachable p enter blank (nextFor enter n ⟨k.exchange.asked action, k.record⟩) := by
  rcases h with ⟨journal, hk⟩
  exact ⟨journal, (hk.tail (.ask action hidle haction)).trans (later_nextFor n _)⟩

theorem Reachable.later {k later : OnRecord ρ} (h : Reachable p enter blank k)
    (hlater : Later p enter k later) : Reachable p enter blank later := by
  rcases h with ⟨journal, hk⟩
  exact ⟨journal, hk.trans hlater⟩

end OnRecord

end Testbench
