import Mathlib.Logic.Relation
import Testbench.Inbox.Exchange

/-!
# What Pending Listeners Wait For

A listener is pending only because no line that it wants has arrived. This is what
makes it safe to sleep until it is called, and it has to hold at every moment at which
a callback may look at the inbox: a callback runs when the operation that made it due
is complete, and may then push, read, register or close on its own, or fail.

The invariant is about the inbox alone. Each operation changes it once, and a fault
changes it never, except that an extraction with a broken predicate loses its lines. So
it is enough to know what a single change can be, and that every task of an exchange
makes at most one. How the callbacks are nested, and where they fail, does not matter.

## Main definitions

* `Inbox.Sound`: No pending listener wants a line that is held, and none is pending when
  the inbox is closed.
* `Inbox.Move`: A change of the inbox.
* `Exchange.Move`: A step of an exchange, or the next action asked from outside.
* `Exchange.Reachable`: The states of all exchanges with a new inbox.

## Theorems

* `Inbox.Sound.move`: Every change keeps the invariant.
* `Inbox.closed_of_moves`: A closed inbox stays closed and gains no line.
* `Exchange.move_step`: A task changes the inbox at most once.
* `Exchange.Reachable.ask`: Whatever is asked of an idle exchange is reachable.
* `Exchange.step_of_broken_push`, `Exchange.step_of_broken_register`: A broken predicate
  leaves the inbox as it was.
* `Exchange.reachable_is_safe`: What holds in every state that can be reached.
-/

namespace Testbench

namespace Inbox

variable {κ : Type}

/-- A line is held only if every pending listener has answered that it does not want it. -/
structure Sound (inbox : Inbox κ) : Prop where
  unwanted : ∀ listener ∈ inbox.listeners.values, ∀ line ∈ inbox.lines,
    listener.wants line = .ok false
  unheard : inbox.closed = true → inbox.listeners.values = []

inductive Move : Inbox κ → Inbox κ → Prop
  | push {inbox next : Inbox κ} {line : Line} {due : List κ}
      (h : inbox.push line = .ok (.held due, next)) : Move inbox next
  | register {inbox next : Inbox κ} {listener : Listener κ}
      (h : inbox.register listener = .ok (.pending, next)) : Move inbox next
  /-- Some lines are taken out, or lost. -/
  | take {inbox : Inbox κ} {lines : List Line} (h : lines.Sublist inbox.lines) :
      Move inbox { inbox with lines }
  | close {inbox : Inbox κ} : Move inbox inbox.close.2

/-! ### Predicates that were asked -/

/-- A push that succeeds has had an answer from every listener. -/
theorem wants_of_wanting {line : Line} {entries chosen : List (Nat × Listener κ)}
    (h : wanting line entries = .ok chosen) {entry : Nat × Listener κ} (hentry : entry ∈ entries) :
    entry.2.wants line = .ok (entry.2.accepts line) := by
  induction entries generalizing chosen with
  | nil => exact absurd hentry List.not_mem_nil
  | cons first rest ih =>
    unfold wanting at h
    -- Each of the two results has to be there for the whole to be.
    cases hwants : first.2.wants line with
    | error fault =>
      rw [hwants] at h
      cases h
    | ok wanted =>
      rw [hwants] at h
      cases hrest : wanting line rest with
      | error fault =>
        rw [hrest] at h
        cases h
      | ok others =>
        rcases List.mem_cons.mp hentry with rfl | hlater
        · unfold Listener.accepts
          rw [hwants]
        · exact ih hrest hlater

/-- A listener without an answer breaks the push. -/
theorem wanting_of_broken {line : Line} {entries : List (Nat × Listener κ)}
    {entry : Nat × Listener κ} {fault : Fault} (hentry : entry ∈ entries)
    (hbroken : entry.2.wants line = .error fault) :
    ∃ fault, wanting line entries = .error fault := by
  cases h : wanting line entries with
  | error fault => exact ⟨fault, rfl⟩
  | ok chosen =>
    have hanswer := wants_of_wanting h hentry
    rw [hbroken] at hanswer
    exact absurd hanswer nofun

theorem wants_of_anyWanted {wants : Predicate} {lines : List Line}
    (h : anyWanted wants lines = .ok false) : ∀ line ∈ lines, wants line = .ok false := by
  induction lines with
  | nil => exact nofun
  | cons first rest ih =>
    -- The search goes on to the next line only after a plain no.
    unfold anyWanted at h
    cases hwants : wants first with
    | error fault =>
      rw [hwants] at h
      exact absurd h nofun
    | ok wanted =>
      rw [hwants] at h
      cases wanted with
      | true => exact absurd h nofun
      | false =>
        intro line hline
        rcases List.mem_cons.mp hline with rfl | hlater
        · exact hwants
        · exact ih h line hlater

/-- A search comes upon a line without an answer if no line before it is wanted. -/
theorem anyWanted_of_broken {wants : Predicate} {before after : List Line} {line : Line}
    {fault : Fault} (hbefore : ∀ earlier ∈ before, wants earlier = .ok false)
    (hbroken : wants line = .error fault) :
    anyWanted wants (before ++ line :: after) = .error fault := by
  induction before with
  | nil =>
    rw [List.nil_append, anyWanted, hbroken]
    rfl
  | cons first rest ih =>
    rw [List.cons_append, anyWanted, hbefore first List.mem_cons_self]
    exact ih fun earlier hearlier => hbefore earlier (List.mem_cons_of_mem first hearlier)

theorem push_of_broken {inbox : Inbox κ} {line : Line} {listener : Listener κ} {fault : Fault}
    (hopen : inbox.closed = false) (hlistener : listener ∈ inbox.listeners.values)
    (hbroken : listener.wants line = .error fault) : ∃ fault, inbox.push line = .error fault := by
  rcases List.mem_map.mp hlistener with ⟨entry, hentry, rfl⟩
  rcases wanting_of_broken hentry hbroken with ⟨fault', hwanting⟩
  refine ⟨fault', ?_⟩
  unfold push
  rw [if_neg (ne_true_of_eq_false hopen), hwanting]
  rfl

theorem register_of_broken {inbox : Inbox κ} {listener : Listener κ} {before after : List Line}
    {line : Line} {fault : Fault} (hlines : inbox.lines = before ++ line :: after)
    (hbefore : ∀ earlier ∈ before, listener.wants earlier = .ok false)
    (hbroken : listener.wants line = .error fault) : inbox.register listener = .error fault := by
  unfold register
  rw [hlines, anyWanted_of_broken hbefore hbroken]
  rfl

theorem wants_of_push {inbox next : Inbox κ} {line : Line} {due : List κ}
    (h : inbox.push line = .ok (.held due, next)) {entry : Nat × Listener κ}
    (hentry : entry ∈ inbox.listeners.entries) :
    entry.2.wants line = .ok (entry.2.accepts line) := by
  cases hwanting : wanting line inbox.listeners.entries with
  | error fault =>
    unfold push at h
    rw [if_neg (ne_true_of_eq_false (push_eq_held h).1), hwanting] at h
    exact absurd h nofun
  | ok chosen => exact wants_of_wanting hwanting hentry

/-! ### Changes of the inbox -/

theorem sound_empty : Sound (empty : Inbox κ) :=
  ⟨fun _ h => absurd h List.not_mem_nil, fun _ => rfl⟩

theorem sound_filled (lines : List Line) : Sound (filled lines : Inbox κ) :=
  ⟨fun _ h => absurd h List.not_mem_nil, fun _ => rfl⟩

/-- Every change keeps the invariant. -/
theorem Sound.move {inbox next : Inbox κ} (hsound : Sound inbox) (h : Move inbox next) :
    Sound next := by
  cases h with
  | @push _ line due h =>
    rcases push_eq_held h with ⟨-, hopen, hlines, hlisteners, -⟩
    refine ⟨?_, fun hclosed => absurd hclosed (ne_true_of_eq_false hopen)⟩
    intro listener hlistener other hother
    rcases List.mem_map.mp hlistener with ⟨entry, hentry, rfl⟩
    rw [hlisteners] at hentry
    rcases List.mem_filter.mp hentry with ⟨hpending, hrefused⟩
    rw [hlines] at hother
    rcases List.mem_append.mp hother with hold | hnew
    · exact hsound.unwanted _ (List.mem_map_of_mem hpending) other hold
    · -- The listener has been asked about the new line, and was not taken.
      rw [Bool.not_eq_true'] at hrefused
      rw [List.mem_singleton.mp hnew, wants_of_push h hpending, hrefused]
  | @register _ listener h =>
    rcases register_eq_pending h with ⟨hopen, hnone, rfl⟩
    refine ⟨?_, fun hclosed => absurd hclosed (ne_true_of_eq_false hopen)⟩
    intro other hother line hline
    -- The new listener has looked through all lines; the others were pending before.
    rcases Slots.entries_insert inbox.listeners listener with ⟨key, hperm⟩
    rcases List.mem_map.mp hother with ⟨entry, hentry, rfl⟩
    rcases List.mem_cons.mp (hperm.mem_iff.mp hentry) with rfl | hpending
    · exact wants_of_anyWanted hnone line hline
    · exact hsound.unwanted _ (List.mem_map_of_mem hpending) line hline
  | take h =>
    exact ⟨fun listener hlistener line hline =>
      hsound.unwanted listener hlistener line (h.mem hline), hsound.unheard⟩
  | close => exact ⟨fun _ h => absurd h List.not_mem_nil, fun _ => rfl⟩

/-- A closed inbox stays closed and gains no line. -/
theorem closed_of_move {inbox next : Inbox κ} (h : Move inbox next)
    (hclosed : inbox.closed = true) : next.closed = true ∧ next.lines.Sublist inbox.lines := by
  cases h with
  | push h => exact absurd hclosed (ne_true_of_eq_false (push_eq_held h).1)
  | register h => exact absurd hclosed (ne_true_of_eq_false (register_eq_pending h).1)
  | take h => exact ⟨hclosed, h⟩
  | close => exact ⟨rfl, List.Sublist.refl _⟩

theorem sublist_of_divide {wants : Predicate} {lines matching others : List Line}
    (h : divide wants lines = .ok (matching, others)) : others.Sublist lines := by
  induction lines generalizing matching others with
  | nil =>
    have hothers : [] = others := (Prod.mk.inj (Except.ok.inj h)).2
    subst hothers
    exact List.Sublist.refl _
  | cons line rest ih =>
    unfold divide at h
    cases hwants : wants line with
    | error fault =>
      rw [hwants] at h
      exact absurd h nofun
    | ok wanted =>
      rw [hwants] at h
      rcases hrest : divide wants rest with fault | ⟨matching', others'⟩
      · rw [hrest] at h
        exact absurd h nofun
      · rw [hrest] at h
        cases wanted with
        | true =>
          rw [← (Prod.mk.inj (Except.ok.inj h)).2]
          exact (ih hrest).cons line
        | false =>
          rw [← (Prod.mk.inj (Except.ok.inj h)).2]
          exact (ih hrest).cons_cons line

theorem move_extract (inbox : Inbox κ) (wants : Predicate) :
    Move inbox (inbox.extract wants).2 := by
  rcases hdivide : divide wants inbox.lines with fault | ⟨matching, others⟩
  -- The lines are taken out before they are tested, so a broken predicate loses them.
  · simp only [extract, hdivide]
    exact .take (List.nil_sublist _)
  · simp only [extract, hdivide]
    exact .take (sublist_of_divide hdivide)

end Inbox

namespace Exchange

/-- The next step of an exchange, or when it has ended, the beginning of another one. -/
inductive Move : Exchange → Exchange → Prop
  | step {x : Exchange} : Move x x.step
  | ask {x : Exchange} (action : Action) (hidle : x.tasks = []) :
    Move x ⟨x.inbox, [.perform none action], [], x.journal, none⟩

/-- The state occurs when actions are asked of a new inbox, one after another. -/
def Reachable (x : Exchange) : Prop :=
  ∃ inbox journal, (inbox = Inbox.empty ∨ ∃ lines, inbox = Inbox.filled lines) ∧
    Relation.ReflTransGen Move ⟨inbox, [], [], journal, none⟩ x

theorem move_push (x : Exchange) (line : Line) :
    (x.push line).inbox = x.inbox ∨ x.inbox.Move (x.push line).inbox := by
  rcases hpush : x.inbox.push line with fault | ⟨_ | due, inbox⟩
  · simp only [push, hpush]
    exact .inl rfl
  · simp only [push, hpush]
    exact .inl rfl
  · simp only [push, hpush]
    exact .inr (.push hpush)

theorem move_register (x : Exchange) (owner : Option String) (wants : Predicate)
    (callback : Callback) :
    (x.register owner wants callback).inbox = x.inbox ∨
      x.inbox.Move (x.register owner wants callback).inbox := by
  rcases hregister : x.inbox.register ⟨wants, callback⟩ with fault | ⟨_ | _ | _, inbox⟩
  · simp only [register, hregister]
    exact .inl rfl
  · simp only [register, hregister]
    exact .inl rfl
  · simp only [register, hregister]
    exact .inl rfl
  · simp only [register, hregister]
    exact .inr (.register hregister)

theorem move_perform (x : Exchange) (owner : Option String) (action : Action) :
    (x.perform owner action).inbox = x.inbox ∨ x.inbox.Move (x.perform owner action).inbox := by
  cases action with
  -- Pushes are queued as tasks of their own, and a failure only ends what is running.
  | push line | pushAll lines | ready | inspect | unknown | fail => exact .inl rfl
  | close => exact .inr .close
  | read =>
    cases hlines : x.inbox.lines with
    | nil =>
      simp only [perform, Inbox.read?, hlines]
      exact .inl rfl
    | cons line rest =>
      simp only [perform, Inbox.read?, hlines]
      refine .inr (.take ?_)
      rw [hlines]
      exact List.sublist_cons_self line rest
  | extract wants =>
    have hmove := x.inbox.move_extract wants
    rcases hextract : x.inbox.extract wants with ⟨fault | lines, inbox⟩
    · rw [hextract] at hmove
      simp only [perform, extract, hextract]
      exact .inr hmove
    · rw [hextract] at hmove
      simp only [perform, extract, hextract]
      exact .inr hmove
  | register name wants program => exact move_register x owner wants ⟨name, program⟩

/-- A task changes the inbox at most once. -/
theorem move_step (x : Exchange) : x.step.inbox = x.inbox ∨ x.inbox.Move x.step.inbox := by
  rcases x with ⟨inbox, _ | ⟨task, rest⟩, notices, journal, answer⟩
  · exact .inl rfl
  · cases task with
    | perform owner action => exact move_perform _ owner action
    | push line => exact move_push _ line
    -- A call queues the callback's program, which is carried out action by action.
    | call callback => exact .inl rfl
    | reply owner reply =>
      cases owner with
      | none => exact .inl rfl
      | some name => exact .inl rfl

/-! ### Exchanges -/

theorem move_inbox {x y : Exchange} (h : Move x y) : y.inbox = x.inbox ∨ x.inbox.Move y.inbox := by
  cases h with
  | step => exact move_step x
  | ask action hidle => exact .inl rfl

theorem Reachable.sound {x : Exchange} (h : Reachable x) : x.inbox.Sound := by
  rcases h with ⟨inbox, journal, hnew, hmoves⟩
  -- By induction on the moves, of which each is at most one change of the inbox.
  induction hmoves with
  | refl =>
    rcases hnew with rfl | ⟨lines, rfl⟩
    · exact Inbox.sound_empty
    · exact Inbox.sound_filled lines
  | tail _ hmove ih =>
    rcases move_inbox hmove with hsame | hchange
    · rw [hsame]
      exact ih
    · exact ih.move hchange

theorem moves_stepFor (n : Nat) (x : Exchange) : Relation.ReflTransGen Move x (stepFor n x) := by
  induction n generalizing x with
  | zero => exact .refl
  | succ n ih => exact .head .step (ih x.step)

/-- An action asked when nothing is left to do leads to a reachable state. -/
theorem Reachable.ask {x : Exchange} (h : Reachable x) (hidle : x.tasks = []) (action : Action) :
    Reachable (ask x.inbox x.journal action) := by
  rcases h with ⟨inbox, journal, hnew, hmoves⟩
  exact ⟨inbox, journal, hnew, (hmoves.tail (.ask action hidle)).trans (moves_stepFor _ _)⟩

/-- A closed inbox stays closed and gains no line, whatever is asked of it later. -/
theorem closed_of_moves {x y : Exchange} (h : Relation.ReflTransGen Move x y)
    (hclosed : x.inbox.closed = true) :
    y.inbox.closed = true ∧ y.inbox.lines.Sublist x.inbox.lines := by
  induction h with
  | refl => exact ⟨hclosed, List.Sublist.refl _⟩
  | tail _ hmove ih =>
    rcases move_inbox hmove with hsame | hchange
    · rw [hsame]
      exact ih
    · rcases Inbox.closed_of_move hchange ih.1 with ⟨hstill, hlines⟩
      exact ⟨hstill, hlines.trans ih.2⟩

/-- A push that meets a listener without an answer fails and changes nothing. -/
theorem step_of_broken_push {x : Exchange} {line : Line} {rest : List Task}
    {listener : Listener Callback} {fault : Fault} (htasks : x.tasks = .push line :: rest)
    (hopen : x.inbox.closed = false) (hlistener : listener ∈ x.inbox.listeners.values)
    (hbroken : listener.wants line = .error fault) :
    x.step.inbox = x.inbox ∧ ∃ fault, x.step.answer = some (.error fault) := by
  rcases Inbox.push_of_broken hopen hlistener hbroken with ⟨fault', hpush⟩
  simp only [step, htasks, push, hpush]
  exact ⟨rfl, fault', rfl⟩

/-- So does a registration whose search comes upon a line without an answer. -/
theorem step_of_broken_register {x : Exchange} {owner : Option String} {name : String}
    {wants : Predicate} {program : List Action} {rest : List Task} {before after : List Line}
    {line : Line} {fault : Fault}
    (htasks : x.tasks = .perform owner (.register name wants program) :: rest)
    (hlines : x.inbox.lines = before ++ line :: after)
    (hbefore : ∀ earlier ∈ before, wants earlier = .ok false)
    (hbroken : wants line = .error fault) :
    x.step.inbox = x.inbox ∧ x.step.answer = some (.error fault) := by
  have hregister : x.inbox.register ⟨wants, ⟨name, program⟩⟩ = .error fault :=
    Inbox.register_of_broken hlines hbefore hbroken
  simp only [step, htasks, perform, register, hregister]
  exact ⟨rfl, rfl⟩

/-- At every moment of every exchange, however deep callbacks are nested and wherever
    predicates and callbacks fail: each pending listener has an answer for each line held,
    and does not want it; a closed inbox has no listeners, stays closed and gains no line;
    and a push or a registration whose predicate has no answer leaves the inbox as it was. -/
theorem reachable_is_safe {x : Exchange} (h : Reachable x) :
    (∀ listener ∈ x.inbox.listeners.values, ∀ line ∈ x.inbox.lines,
      listener.wants line = .ok false) ∧
    (x.inbox.closed = true → x.inbox.listeners.values = []) ∧
    (x.inbox.closed = true → ∀ y, Relation.ReflTransGen Move x y →
      y.inbox.closed = true ∧ y.inbox.lines.Sublist x.inbox.lines) ∧
    (∀ line rest listener fault, x.tasks = .push line :: rest → x.inbox.closed = false →
      listener ∈ x.inbox.listeners.values → listener.wants line = .error fault →
      x.step.inbox = x.inbox ∧ ∃ fault, x.step.answer = some (.error fault)) ∧
    (∀ owner name wants program rest before line after fault,
      x.tasks = .perform owner (.register name wants program) :: rest →
      x.inbox.lines = before ++ line :: after →
      (∀ earlier ∈ before, wants earlier = .ok false) → wants line = .error fault →
      x.step.inbox = x.inbox ∧ x.step.answer = some (.error fault)) := by
  have hsound := h.sound
  refine ⟨hsound.unwanted, hsound.unheard, fun hclosed y hmoves => closed_of_moves hmoves hclosed,
    ?_, ?_⟩
  · intro line rest listener fault htasks hopen hlistener hbroken
    exact step_of_broken_push htasks hopen hlistener hbroken
  · intro owner name wants program rest before line after fault htasks hlines hbefore hbroken
    exact step_of_broken_register htasks hlines hbefore hbroken

/-- A listener that has no answer for a line is pending, and the line is about to be pushed. -/
def beforeBrokenPush : Exchange :=
  let picky : Predicate := fun line =>
    if line.text = "broken" then .error .brokenPredicate else .ok (line.text = "wanted")
  let registered := ask Inbox.empty (.empty none) (.register "picky" picky [.close, .fail])
  step ⟨registered.inbox, [.perform none (.push ⟨"broken"⟩)], [], registered.journal, none⟩

theorem reachable_is_safe_beforeBrokenPush :
    beforeBrokenPush.inbox.listeners.values.length = 1 ∧
      beforeBrokenPush.step.inbox = beforeBrokenPush.inbox := by
  have hreachable : Reachable beforeBrokenPush := by
    have hnew : Reachable ⟨Inbox.empty, [], [], .empty none, none⟩ := ⟨_, _, .inl rfl, .refl⟩
    rcases hnew.ask rfl (.register "picky" _ [.close, .fail]) with ⟨inbox, journal, hfirst, hmoves⟩
    exact ⟨inbox, journal, hfirst, (hmoves.tail (.ask (.push ⟨"broken"⟩) rfl)).tail .step⟩
  refine ⟨rfl, ?_⟩
  exact ((reachable_is_safe hreachable).2.2.2.1 ⟨"broken"⟩ _ _ _ rfl rfl List.mem_cons_self rfl).1

end Exchange

end Testbench
