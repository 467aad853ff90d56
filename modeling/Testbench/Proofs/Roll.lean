import Testbench.Proofs.OnRecord
import Testbench.Proofs.Relabelled

/-!
# A Roll of Callbacks

Callbacks are numbered as they are registered, so that two with the same name and the
same program can be told apart. The roll says what has become of each: it is pending, or
it is due, because a line has been found for it, or it has been called, or dropped. An
operation on the inbox moves callbacks between these places and numbers new ones.

The roll is not made up. The inbox in it is that of the exchange but for the numbers,
its due callbacks are the calls on the stack, and what it lists as called and dropped is
what the exchange has given notice of. That every number is in one place only, and none
is missing, holds whatever predicates answer and wherever callbacks fail: a failure drops
what is due, and leaves what is pending.

## Main definitions

* `Ticket`: A callback with its number.
* `Roll`: What has become of every callback.
* `Roll.enter`: What a step of an exchange does to it.
* `Roll.Mirrors`: The roll is that of an exchange.

## Theorems

* `Roll.Mirrors.enter`: The roll follows the exchange.
* `Roll.moved_or_issued`: A step moves tickets, and issues one if it registers a listener.
* `Roll.IsInOrder.enter`: Every number has one place, and keeps one.
-/

namespace Testbench

structure Ticket where
  number : Nat
  callback : Callback

/-- The name under which an observer knows the callback. -/
def Ticket.name (ticket : Ticket) : String := ticket.callback.name

def Task.callback? : Task → Option Callback
  | .call callback => some callback
  | _ => none

def Notice.fired? : Notice → Option String
  | .fired name => some name
  | _ => none

def Notice.dropped? : Notice → Option String
  | .dropped name => some name
  | _ => none

structure Roll where
  inbox : Inbox Ticket
  /-- To be called, next first. -/
  due : List Ticket
  /-- Latest first. -/
  called : List Ticket
  /-- Latest first. -/
  dropped : List Ticket
  /-- The next number. -/
  issued : Nat

namespace Roll

def blank : Roll := ⟨Inbox.empty, [], [], [], 0⟩

def pending (g : Roll) : List Ticket := g.inbox.listeners.values.map Listener.callback

/-- All tickets, place by place. -/
def placed (g : Roll) : List Ticket := g.pending ++ g.due ++ g.called ++ g.dropped

/-- After a failure nothing that is due will be called. -/
def abandon (g : Roll) : Roll := { g with due := [], dropped := g.due.reverse ++ g.dropped }

def push (g : Roll) (line : Line) : Roll :=
  match g.inbox.push line with
  | .ok (.held due, inbox) => { g with inbox, due := due ++ g.due }
  | .ok (.discarded, _) => g
  | .error _ => g.abandon

/-- The number goes to the callback, whatever becomes of it. -/
def register (g : Roll) (wants : Predicate) (callback : Callback) : Roll :=
  match g.inbox.register ⟨wants, ⟨g.issued, callback⟩⟩ with
  | .ok (.satisfied, _) =>
    { g with due := ⟨g.issued, callback⟩ :: g.due, issued := g.issued + 1 }
  | .ok (.refused, _) =>
    { g with dropped := ⟨g.issued, callback⟩ :: g.dropped, issued := g.issued + 1 }
  | .ok (.pending, inbox) => { g with inbox, issued := g.issued + 1 }
  | .error _ =>
    { g with dropped := ⟨g.issued, callback⟩ :: g.dropped, issued := g.issued + 1 }.abandon

def close (g : Roll) : Roll :=
  { g with inbox := g.inbox.close.2, dropped := g.inbox.close.1.reverse ++ g.dropped }

def extract (g : Roll) (wants : Predicate) : Roll :=
  match g.inbox.extract wants with
  | (.ok _, inbox) => { g with inbox }
  | (.error _, inbox) => { g with inbox }.abandon

def call (g : Roll) : Roll :=
  match g.due with
  | [] => g
  | ticket :: rest => { g with due := rest, called := ticket :: g.called }

def perform (g : Roll) : Action → Roll
  | .read =>
    match g.inbox.read? with
    | some (_, inbox) => { g with inbox }
    | none => g
  | .extract wants => g.extract wants
  | .close => g.close
  | .fail => g.abandon
  | .register name wants program => g.register wants ⟨name, program⟩
  | .push _ | .pushAll _ | .ready | .inspect | .unknown => g

/-- Enters the next step of the exchange. -/
def enter (x : Exchange) (g : Roll) : Roll :=
  match x.tasks with
  | .perform _ action :: _ => g.perform action
  | .push line :: _ => g.push line
  | .call _ :: _ => g.call
  | _ => g

structure Mirrors (g : Roll) (x : Exchange) : Prop where
  inbox : x.inbox = g.inbox.map Ticket.callback
  due : x.tasks.filterMap Task.callback? = g.due.map Ticket.callback
  called : x.notices.filterMap Notice.fired? <+: g.called.map Ticket.name
  dropped : x.notices.filterMap Notice.dropped? <+: g.dropped.map Ticket.name

/-! ### The roll follows the exchange -/

namespace Mirrors

variable {g : Roll} {x : Exchange}

/-- Tasks other than calls do not matter. -/
theorem owe (h : g.Mirrors x) {tasks : List Task} (hplain : tasks.filterMap Task.callback? = []) :
    g.Mirrors (x.owe tasks) := by
  refine ⟨h.inbox, ?_, h.called, h.dropped⟩
  simp only [Exchange.owe, List.filterMap_append, hplain, List.nil_append]
  exact h.due

theorem oweCalls (h : g.Mirrors x) (tickets : List Ticket) :
    Mirrors { g with due := tickets ++ g.due }
      (x.owe ((tickets.map Ticket.callback).map .call)) := by
  refine ⟨h.inbox, ?_, h.called, h.dropped⟩
  have hcalls : ((tickets.map Ticket.callback).map Task.call).filterMap Task.callback?
      = tickets.map Ticket.callback := by
    rw [List.filterMap_map]
    exact List.filterMap_some
  simp only [Exchange.owe, List.filterMap_append, hcalls, List.map_append, h.due]

theorem withInbox (h : g.Mirrors x) (inbox : Inbox Ticket) :
    Mirrors { g with inbox } { x with inbox := inbox.map Ticket.callback } :=
  ⟨rfl, h.due, h.called, h.dropped⟩

/-- Callbacks of which notice is given that they are dropped, the last one first. -/
theorem drop (h : g.Mirrors x) (tickets : List Ticket) (issued : Nat) :
    Mirrors { g with dropped := tickets ++ g.dropped, issued }
      { x with notices := (tickets.map fun t => Notice.dropped t.name) ++ x.notices } := by
  refine ⟨h.inbox, h.due, ?_, ?_⟩
  · have hnone : (tickets.map fun t => Notice.dropped t.name).filterMap Notice.fired? = [] := by
      rw [List.filterMap_map]
      exact List.filterMap_eq_nil_iff.mpr fun _ _ => rfl
    simp only [List.filterMap_append, hnone, List.nil_append]
    exact h.called
  · have hall : (tickets.map fun t => Notice.dropped t.name).filterMap Notice.dropped?
        = tickets.map Ticket.name := by
      rw [List.filterMap_map]
      exact congrFun List.filterMap_eq_map tickets
    simp only [List.filterMap_append, List.map_append, hall]
    exact (List.prefix_append_right_inj _).mpr h.dropped

/-- What is given up was due, and notice of it is given in the order of the stack. -/
theorem notices_abort (h : g.Mirrors x) (fault : Fault) : (x.abort fault).notices
    = (g.due.reverse.map fun t => Notice.dropped t.name) ++ x.notices := by
  have hdue := congrArg (List.map fun c : Callback => Notice.dropped c.name) h.due
  rw [List.map_filterMap, List.map_map] at hdue
  rw [List.map_reverse]
  refine congrArg (fun l => l.reverse ++ x.notices) (Eq.trans ?_ hdue)
  refine congrArg (List.filterMap · x.tasks) (funext fun task => ?_)
  cases task <;> rfl

theorem abort (h : g.Mirrors x) (fault : Fault) : g.abandon.Mirrors (x.abort fault) := by
  have hdrop := h.drop g.due.reverse g.issued
  refine ⟨h.inbox, rfl, ?_, ?_⟩
  · rw [h.notices_abort fault]
    exact hdrop.called
  · rw [h.notices_abort fault]
    exact hdrop.dropped

theorem push (h : g.Mirrors x) (line : Line) : (g.push line).Mirrors (x.push line) := by
  have hpush := Inbox.push_map Ticket.callback g.inbox line
  rw [← h.inbox] at hpush
  rcases hroll : g.inbox.push line with fault | ⟨_ | due, inbox⟩
  · rw [hroll] at hpush
    simp only [Exchange.push, Roll.push, hpush, hroll, Except.map]
    exact h.abort fault
  · rw [hroll] at hpush
    simp only [Exchange.push, Roll.push, hpush, hroll, Except.map, Prod.map, Arrival.map]
    exact ⟨h.inbox, h.due, h.called, h.dropped⟩
  · rw [hroll] at hpush
    simp only [Exchange.push, Roll.push, hpush, hroll, Except.map, Prod.map, Arrival.map]
    exact (h.withInbox inbox).oweCalls due

theorem register (h : g.Mirrors x) (owner : Option String) (wants : Predicate)
    (callback : Callback) :
    (g.register wants callback).Mirrors (x.register owner wants callback) := by
  have hregister := Inbox.register_map Ticket.callback g.inbox ⟨wants, ⟨g.issued, callback⟩⟩
  rw [← h.inbox] at hregister
  simp only [Listener.map] at hregister
  have hrefused := h.drop [⟨g.issued, callback⟩] (g.issued + 1)
  rcases hroll : g.inbox.register ⟨wants, ⟨g.issued, callback⟩⟩ with fault | ⟨_ | _ | _, inbox⟩
  · rw [hroll] at hregister
    simp only [Exchange.register, Roll.register, hregister, hroll, Except.map]
    exact hrefused.abort fault
  · rw [hroll] at hregister
    simp only [Exchange.register, Roll.register, hregister, hroll, Except.map, Prod.map, id]
    have hreply : [Task.reply owner (.registered false)].filterMap Task.callback? = [] := rfl
    have hcall := (h.owe hreply).oweCalls [⟨g.issued, callback⟩]
    exact ⟨hcall.inbox, hcall.due, hcall.called, hcall.dropped⟩
  · rw [hroll] at hregister
    simp only [Exchange.register, Roll.register, hregister, hroll, Except.map, Prod.map, id]
    exact hrefused.owe rfl
  · rw [hroll] at hregister
    simp only [Exchange.register, Roll.register, hregister, hroll, Except.map, Prod.map, id]
    have hreply : [Task.reply owner (.registered true)].filterMap Task.callback? = [] := rfl
    have hpending := (h.withInbox inbox).owe hreply
    exact ⟨hpending.inbox, hpending.due, hpending.called, hpending.dropped⟩

theorem close (h : g.Mirrors x) : g.close.Mirrors x.close := by
  have hclose := Inbox.close_map Ticket.callback g.inbox
  rw [← h.inbox] at hclose
  have hdrop := (h.withInbox g.inbox.close.2).drop g.inbox.close.1.reverse g.issued
  simp only [Exchange.close, hclose, Prod.map, List.map_map, ← List.map_reverse]
  exact hdrop

theorem extract (h : g.Mirrors x) (owner : Option String) (wants : Predicate) :
    (g.extract wants).Mirrors (x.extract owner wants) := by
  have hextract := Inbox.extract_map Ticket.callback g.inbox wants
  rw [← h.inbox] at hextract
  rcases hroll : g.inbox.extract wants with ⟨fault | lines, inbox⟩
  · rw [hroll] at hextract
    simp only [Exchange.extract, Roll.extract, hextract, hroll, Prod.map, id]
    exact (h.withInbox inbox).abort fault
  · rw [hroll] at hextract
    simp only [Exchange.extract, Roll.extract, hextract, hroll, Prod.map, id]
    exact (h.withInbox inbox).owe rfl

theorem perform (h : g.Mirrors x) (owner : Option String) (action : Action) :
    (g.perform action).Mirrors (x.perform owner action) := by
  cases action with
  | push line | ready | inspect | unknown => exact h.owe rfl
  | pushAll lines =>
    refine h.owe ?_
    rw [List.filterMap_append, List.filterMap_map]
    exact congrArg (· ++ []) (List.filterMap_eq_nil_iff.mpr fun _ _ => rfl)
  | close => exact h.close.owe rfl
  | read =>
    have hread := Inbox.read?_map Ticket.callback g.inbox
    rw [← h.inbox] at hread
    rcases hroll : g.inbox.read? with _ | ⟨line, inbox⟩
    · rw [hroll] at hread
      simp only [Exchange.perform, Roll.perform, hread, hroll, Option.map]
      exact h.owe rfl
    · rw [hroll] at hread
      simp only [Exchange.perform, Roll.perform, hread, hroll, Option.map, Prod.map, id]
      exact (h.withInbox inbox).owe rfl
  | extract wants => exact h.extract owner wants
  | fail => exact h.abort _
  | register name wants program => exact h.register owner wants ⟨name, program⟩

/-- The call on top of the stack is that of the ticket that is due next. -/
theorem next_due (h : g.Mirrors x) {callback : Callback} {rest : List Task}
    (htasks : x.tasks = .call callback :: rest) :
    ∃ ticket later, g.due = ticket :: later ∧ ticket.callback = callback ∧
      rest.filterMap Task.callback? = later.map Ticket.callback := by
  have hdue := h.due
  rw [htasks] at hdue
  rcases hcases : g.due with _ | ⟨ticket, later⟩
  · rw [hcases] at hdue
    exact absurd hdue nofun
  · rw [hcases] at hdue
    simp only [List.filterMap_cons, Task.callback?, List.map_cons, List.cons.injEq] at hdue
    exact ⟨ticket, later, rfl, hdue.1.symm, hdue.2⟩

/-- The roll follows the exchange, step by step. -/
theorem enter (h : g.Mirrors x) : (g.enter x).Mirrors x.step := by
  rcases htasks : x.tasks with _ | ⟨task, rest⟩
  · simp only [Roll.enter, Exchange.step, htasks]
    exact h
  · have hrest : task.callback? = none → g.Mirrors { x with tasks := rest } := by
      intro hplain
      refine ⟨h.inbox, ?_, h.called, h.dropped⟩
      have hdue := h.due
      rw [htasks, List.filterMap_cons_none hplain] at hdue
      exact hdue
    cases task with
    | perform owner action =>
      simp only [Roll.enter, Exchange.step, htasks]
      exact (hrest rfl).perform owner action
    | push line =>
      simp only [Roll.enter, Exchange.step, htasks]
      exact (hrest rfl).push line
    | call callback =>
      rcases h.next_due htasks with ⟨ticket, later, hdue, rfl, hlater⟩
      simp only [Roll.enter, Exchange.step, Roll.call, htasks, hdue]
      have hcalled : Mirrors { g with due := later, called := ticket :: g.called }
          (({ x with tasks := rest } : Exchange).notice (.fired ticket.callback.name)) :=
        ⟨h.inbox, hlater, (List.prefix_cons_inj _).mpr h.called, h.dropped⟩
      refine hcalled.owe ?_
      rw [List.filterMap_map]
      exact List.filterMap_eq_nil_iff.mpr fun _ _ => rfl
    | reply owner reply =>
      simp only [Roll.enter, Exchange.step, htasks]
      have hreply := hrest rfl
      cases owner with
      | none => exact ⟨hreply.inbox, hreply.due, hreply.called, hreply.dropped⟩
      | some name => exact ⟨hreply.inbox, hreply.due, hreply.called, hreply.dropped⟩

/-- A further action has no notices yet. -/
theorem asked (h : g.Mirrors x) (hidle : x.tasks = []) (action : Action) :
    g.Mirrors (x.asked action) := by
  have hdue := h.due
  rw [hidle] at hdue
  exact ⟨h.inbox, hdue, List.nil_prefix, List.nil_prefix⟩

end Mirrors

/-! ### Every ticket has one place -/

/-- What was called stays called, and what was dropped stays dropped. -/
structure Kept (g next : Roll) : Prop where
  called : g.called <:+ next.called
  dropped : g.dropped <:+ next.dropped

theorem Kept.of_eq {g next : Roll} (hcalled : g.called = next.called)
    (hdropped : g.dropped = next.dropped) : g.Kept next :=
  ⟨hcalled ▸ List.suffix_refl _, hdropped ▸ List.suffix_refl _⟩

theorem Kept.trans {g next last : Roll} (h : g.Kept next) (h' : next.Kept last) : g.Kept last :=
  ⟨h.called.trans h'.called, h.dropped.trans h'.dropped⟩

/-- No ticket is lost, and none is new. -/
structure Moved (g next : Roll) : Prop extends Kept g next where
  issued : next.issued = g.issued
  placed : next.placed.Perm g.placed

namespace Moved

theorem refl (g : Roll) : g.Moved g := ⟨.of_eq rfl rfl, rfl, .refl _⟩

theorem trans {g next last : Roll} (h : g.Moved next) (h' : next.Moved last) : g.Moved last :=
  ⟨h.toKept.trans h'.toKept, h'.issued.trans h.issued, h'.placed.trans h.placed⟩

/-- Tickets are dropped from the front, past all that stay where they are. -/
theorem perm_drop (gone between dropped : List Ticket) :
    (between ++ (gone.reverse ++ dropped)).Perm (gone ++ (between ++ dropped)) :=
  (List.perm_append_comm_assoc _ _ _).trans ((List.reverse_perm gone).append_right _)

theorem abandon (g : Roll) : g.Moved g.abandon := by
  refine ⟨⟨List.suffix_refl _, List.suffix_append _ _⟩, rfl, ?_⟩
  simp only [Roll.placed, Roll.abandon, pending, List.append_nil, List.append_assoc]
  exact (perm_drop g.due g.called g.dropped).append_left _

theorem push (g : Roll) (line : Line) : g.Moved (g.push line) := by
  rcases hpush : g.inbox.push line with fault | ⟨_ | due, inbox⟩
  · simp only [Roll.push, hpush]
    exact abandon g
  · simp only [Roll.push, hpush]
    exact refl g
  · rcases Inbox.push_eq_held hpush with ⟨-, -, -, hremaining, hdue⟩
    -- The listeners are divided into those that want the line and those that do not.
    have hdivided : ((inbox.listeners.values.map Listener.callback) ++ due).Perm g.pending := by
      simp only [Slots.values, hremaining, hdue, pending, List.map_map]
      rw [show (Listener.callback ∘ Prod.snd : Nat × Listener Ticket → Ticket)
        = fun e => e.2.callback from rfl, ← List.map_append]
      exact (List.perm_append_comm.trans (List.filter_append_perm _ _)).map _
    simp only [Roll.push, hpush]
    refine ⟨.of_eq rfl rfl, rfl, ?_⟩
    simp only [Roll.placed, ← List.append_assoc]
    exact ((hdivided.append_right _).append_right _).append_right _

theorem close (g : Roll) : g.Moved g.close := by
  refine ⟨⟨List.suffix_refl _, List.suffix_append _ _⟩, rfl, ?_⟩
  have hdrop := perm_drop g.pending (g.due ++ g.called) g.dropped
  simp only [List.append_assoc] at hdrop
  simp only [Roll.placed, List.append_assoc]
  exact hdrop

theorem call (g : Roll) : g.Moved g.call := by
  rcases g with ⟨inbox, _ | ⟨ticket, later⟩, called, dropped, issued⟩
  · exact refl _
  · refine ⟨⟨List.suffix_cons _ _, List.suffix_refl _⟩, rfl, ?_⟩
    simp only [Roll.call, Roll.placed, pending, List.append_assoc, List.cons_append]
    exact List.perm_middle.append_left _

/-- Lines do not matter. -/
theorem withInbox (g : Roll) {inbox : Inbox Ticket} (h : inbox.listeners = g.inbox.listeners) :
    g.Moved { g with inbox } := by
  refine ⟨.of_eq rfl rfl, rfl, .of_eq ?_⟩
  simp only [Roll.placed, pending, h]

theorem extract (g : Roll) (wants : Predicate) : g.Moved (g.extract wants) := by
  unfold Roll.extract Inbox.extract
  rcases divide wants g.inbox.lines with fault | parts
  · have hlost : g.Moved { g with inbox := { g.inbox with lines := [] } } := withInbox g rfl
    exact hlost.trans (abandon _)
  · exact withInbox g rfl

theorem read (g : Roll) : g.Moved (g.perform .read) := by
  unfold Roll.perform Inbox.read?
  rcases g.inbox.lines with _ | ⟨line, rest⟩
  · exact refl g
  · exact withInbox g rfl

theorem perform (g : Roll) {action : Action}
    (h : ∀ name wants program, action ≠ .register name wants program) :
    g.Moved (g.perform action) := by
  cases action with
  | push line | pushAll lines | ready | inspect | unknown => exact refl g
  | read => exact read g
  | extract wants => exact extract g wants
  | close => exact close g
  | fail => exact abandon g
  | register name wants program => exact absurd rfl (h name wants program)

end Moved

/-- One ticket is new. -/
structure Issued (callback : Callback) (g next : Roll) : Prop extends Kept g next where
  issued : next.issued = g.issued + 1
  placed : next.placed.Perm (⟨g.issued, callback⟩ :: g.placed)

theorem issued_register (g : Roll) (wants : Predicate) (callback : Callback) :
    g.Issued callback (g.register wants callback) := by
  have hdropped : g.Issued callback { g with
      dropped := ⟨g.issued, callback⟩ :: g.dropped
      issued := g.issued + 1 } :=
    ⟨⟨List.suffix_refl _, List.suffix_cons _ _⟩, rfl, List.perm_middle⟩
  rcases hregister : g.inbox.register ⟨wants, ⟨g.issued, callback⟩⟩ with
    fault | ⟨_ | _ | _, inbox⟩
  · simp only [register, hregister]
    have habandoned := Moved.abandon { g with
      dropped := ⟨g.issued, callback⟩ :: g.dropped
      issued := g.issued + 1 }
    exact ⟨hdropped.toKept.trans habandoned.toKept, hdropped.issued,
      habandoned.placed.trans hdropped.placed⟩
  · simp only [register, hregister]
    refine ⟨.of_eq rfl rfl, rfl, ?_⟩
    simp only [placed, pending, List.append_assoc, List.cons_append]
    exact List.perm_middle
  · simp only [register, hregister]
    exact hdropped
  · rcases Inbox.register_eq_pending hregister with ⟨-, -, rfl⟩
    have hpending := (Slots.values_insert g.inbox.listeners
      ⟨wants, Ticket.mk g.issued callback⟩).map Listener.callback
    simp only [register, hregister]
    exact ⟨.of_eq rfl rfl, rfl, ((hpending.append_right _).append_right _).append_right _⟩

/-- A step moves tickets, and issues one if it registers a listener. -/
theorem moved_or_issued (g : Roll) (x : Exchange) :
    g.Moved (g.enter x) ∨ ∃ callback, g.Issued callback (g.enter x) := by
  unfold enter
  split
  · next owner action rest _ =>
    cases action with
    | register name wants program => exact .inr ⟨_, g.issued_register wants ⟨name, program⟩⟩
    | _ => exact .inl (Moved.perform g nofun)
  · exact .inl (Moved.push g _)
  · exact .inl (Moved.call g)
  · exact .inl (Moved.refl g)

/-- Each number that has been issued has one place. -/
def IsInOrder (g : Roll) : Prop := (g.placed.map Ticket.number).Perm (List.range g.issued)

theorem isInOrder_blank : blank.IsInOrder := .refl _

theorem IsInOrder.enter {g : Roll} (h : g.IsInOrder) (x : Exchange) : (g.enter x).IsInOrder := by
  unfold IsInOrder
  rcases g.moved_or_issued x with hmoved | ⟨callback, hissued⟩
  · rw [hmoved.issued]
    exact (hmoved.placed.map _).trans h
  · rw [hissued.issued, List.range_succ]
    refine (hissued.placed.map _).trans ?_
    exact (h.cons g.issued).trans (List.perm_append_singleton _ _).symm

theorem Kept.enter (g : Roll) (x : Exchange) : g.Kept (g.enter x) := by
  rcases g.moved_or_issued x with hmoved | ⟨callback, hissued⟩
  · exact hmoved.toKept
  · exact hissued.toKept

end Roll

/-! ### Exchanges with a roll -/

namespace OnRecord

variable {p : Action → Prop} {k later : OnRecord Roll}

/-- What holds of the roll whatever is asked, and whatever fails. -/
theorem Reachable.roll (h : Reachable p Roll.enter Roll.blank k) :
    k.record.Mirrors k.exchange ∧ k.record.IsInOrder := by
  rcases h with ⟨journal, hlater⟩
  induction hlater with
  | refl => exact ⟨⟨rfl, rfl, List.nil_prefix, List.nil_prefix⟩, Roll.isInOrder_blank⟩
  | tail _ hmove ih =>
    cases hmove with
    | step => exact ⟨ih.1.enter, ih.2.enter _⟩
    | ask action hidle _ => exact ⟨ih.1.asked hidle action, ih.2⟩

theorem Later.kept (h : Later p Roll.enter k later) : k.record.Kept later.record := by
  induction h with
  | refl => exact .of_eq rfl rfl
  | tail _ hmove ih =>
    cases hmove with
    | step => exact ih.trans (.enter _ _)
    | ask action hidle _ => exact ih

end OnRecord

end Testbench
