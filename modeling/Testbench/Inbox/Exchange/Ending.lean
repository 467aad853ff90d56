import Testbench.Inbox.Exchange

/-!
# Every Exchange Ends

The count behind the number of steps that an exchange is given. A task counts
itself and all it can put on the stack, and a pending listener counts as the task
of calling it. Nothing is counted twice: a push moves callbacks from the listeners
to the stack, because it takes a listener out before its callback becomes due, and
a registration moves one the other way.

So every step makes the count smaller, whatever the predicates answer and however
deep the callbacks are nested, and after as many steps as were counted at the
beginning nothing is left to do.

## Theorems

* `Exchange.pendingWeight_push`: A push loses no callback and duplicates none.
* `Exchange.pendingWeight_register`: A pending listener adds its own callback.
* `Exchange.weight_step`: A step makes the count smaller.
* `Exchange.tasks_run`: A run leaves nothing to do.
-/

namespace Testbench

namespace Exchange

theorem total_append {α : Type} (f : α → Nat) (xs ys : List α) :
    total f (xs ++ ys) = total f xs + total f ys := by
  induction xs with
  | nil => simp only [List.nil_append, total, Nat.zero_add]
  | cons a rest ih =>
    simp only [List.cons_append, total, ih]
    omega

theorem total_map {α β : Type} (f : β → Nat) (g : α → β) (xs : List α) :
    total f (xs.map g) = total (fun a => f (g a)) xs := by
  induction xs with
  | nil => rfl
  | cons a rest ih => simp only [List.map_cons, total, ih]

theorem total_perm {α : Type} (f : α → Nat) {xs ys : List α} (h : xs.Perm ys) :
    total f xs = total f ys := by
  induction h with
  | nil => rfl
  | cons a _ ih => simp only [total, ih]
  | swap a b rest =>
    simp only [total]
    omega
  | trans _ _ ih₁ ih₂ => exact ih₁.trans ih₂

theorem total_filter_add_total_filter_not {α : Type} (p : α → Bool) (f : α → Nat)
    (xs : List α) :
    total f (xs.filter p) + total f (xs.filter fun a => !p a) = total f xs := by
  induction xs with
  | nil => rfl
  | cons a rest ih =>
    cases hp : p a with
    | true =>
      simp only [List.filter_cons, hp, if_true, Bool.not_true, Bool.false_eq_true, if_false,
        total]
      omega
    | false =>
      simp only [List.filter_cons, hp, if_true, Bool.not_false, Bool.false_eq_true, if_false,
        total]
      omega

theorem pendingWeight_eq (inbox : Inbox Callback) :
    pendingWeight inbox = total (fun e => e.2.callback.weight) inbox.listeners.entries :=
  total_map _ _ _

theorem pendingWeight_push {inbox next : Inbox Callback} {line : Line} {due : List Callback}
    (h : inbox.push line = .ok (.held due, next)) :
    total Callback.weight due + pendingWeight next = pendingWeight inbox := by
  rcases Inbox.push_eq_held h with ⟨-, -, -, hlisteners, hdue⟩
  rw [pendingWeight_eq, pendingWeight_eq, hlisteners, hdue, total_map]
  exact total_filter_add_total_filter_not _ _ _

theorem pendingWeight_register {inbox next : Inbox Callback} {listener : Listener Callback}
    (h : inbox.register listener = .ok (.pending, next)) :
    pendingWeight next = listener.callback.weight + pendingWeight inbox := by
  rcases Inbox.register_eq_pending h with ⟨-, -, hnext⟩
  rcases Slots.entries_insert inbox.listeners listener with ⟨key, hperm⟩
  rw [pendingWeight_eq, pendingWeight_eq, hnext]
  exact total_perm _ hperm

/-! ### What each step adds and takes away -/

theorem weight_owe (x : Exchange) (tasks : List Task) :
    (x.owe tasks).weight = total Task.weight tasks + x.weight := by
  simp only [owe, weight, total_append]
  omega

theorem weight_abort_le (x : Exchange) (fault : Fault) : (x.abort fault).weight ≤ x.weight := by
  simp only [abort, weight, total]
  omega

theorem total_weight_calls (due : List Callback) :
    total Task.weight (due.map Task.call) = total Callback.weight due :=
  total_map _ _ _

theorem total_weight_program (owner : Option String) (program : List Action) :
    total Task.weight (program.map (Task.perform owner)) = programWeight program := by
  induction program with
  | nil => rfl
  | cons action rest ih => simp only [List.map_cons, total, ih, programWeight, Task.weight]

theorem total_weight_pushes (lines : List Line) :
    total Task.weight (lines.map Task.push) = lines.length := by
  induction lines with
  | nil => rfl
  | cons line rest ih =>
    simp only [List.map_cons, total, ih, Task.weight, List.length_cons]
    omega

/-- Only the listeners of the inbox count. -/
theorem weight_with_inbox (x : Exchange) (inbox : Inbox Callback) :
    { x with inbox }.weight + pendingWeight x.inbox = x.weight + pendingWeight inbox := by
  simp only [weight]
  omega

theorem weight_push_le (x : Exchange) (line : Line) : (x.push line).weight ≤ x.weight := by
  unfold push
  cases hpush : x.inbox.push line with
  | error fault => exact weight_abort_le x fault
  | ok outcome =>
    rcases outcome with ⟨_ | due, inbox⟩
    · exact Nat.le_refl _
    · have hpending := pendingWeight_push hpush
      have hinbox := weight_with_inbox x inbox
      simp only [weight_owe, total_weight_calls]
      omega

theorem weight_extract_le (x : Exchange) (owner : Option String) (wants : Predicate) :
    (x.extract owner wants).weight ≤ x.weight + 1 := by
  have hpending : ∀ inbox : Inbox Callback, inbox.listeners = x.inbox.listeners →
      { x with inbox }.weight = x.weight := by
    intro inbox hlisteners
    simp only [weight, pendingWeight, hlisteners]
  unfold extract Inbox.extract
  cases divide wants x.inbox.lines with
  | error fault =>
    exact Nat.le_succ_of_le (Nat.le_trans (weight_abort_le _ fault) (Nat.le_of_eq (hpending _ rfl)))
  | ok parts =>
    have hsame := hpending { x.inbox with lines := parts.2 } rfl
    simp only [weight_owe, total, Task.weight]
    simp only [weight] at hsame ⊢
    omega

theorem weight_close_le (x : Exchange) : x.close.weight ≤ x.weight := by
  have hnone : pendingWeight (x.inbox.close).2 = 0 := rfl
  simp only [close, weight]
  rw [hnone]
  omega

theorem weight_register_le (x : Exchange) (owner : Option String) (wants : Predicate)
    (callback : Callback) :
    (x.register owner wants callback).weight ≤ x.weight + callback.weight + 1 := by
  unfold register
  cases hregister : x.inbox.register ⟨wants, callback⟩ with
  | error fault =>
    have habort := weight_abort_le (x.notice (.dropped callback.name)) fault
    have hnotice : (x.notice (.dropped callback.name)).weight = x.weight := rfl
    simp only []
    omega
  | ok outcome =>
    rcases outcome with ⟨_ | _ | _, inbox⟩
    · simp only [weight_owe, total, Task.weight]
      omega
    · have hnotice : (x.notice (.dropped callback.name)).weight = x.weight := rfl
      simp only [weight_owe, total, Task.weight]
      omega
    · have hpending := pendingWeight_register hregister
      have hinbox := weight_with_inbox x inbox
      simp only [weight_owe, total, Task.weight]
      simp only at hpending
      omega

/-- An action costs less than it counts. -/
theorem weight_perform_lt (x : Exchange) (owner : Option String) (action : Action) :
    (x.perform owner action).weight < action.weight + x.weight := by
  cases action with
  | push line =>
    simp only [perform, weight_owe, total, Task.weight, Action.weight]
    omega
  | pushAll lines =>
    simp only [perform, weight_owe, total_append, total_weight_pushes,
      total, Task.weight, Action.weight]
    omega
  | close =>
    have hclose := weight_close_le x
    simp only [perform, weight_owe, total, Task.weight, Action.weight]
    omega
  | read =>
    simp only [perform, Inbox.read?]
    cases x.inbox.lines with
    | nil =>
      simp only [weight_owe, total, Task.weight, Action.weight]
      omega
    | cons line rest =>
      simp only [weight_owe, total, Task.weight, Action.weight]
      simp only [weight, pendingWeight]
      omega
  | ready =>
    simp only [perform, weight_owe, total, Task.weight, Action.weight]
    omega
  | extract wants =>
    have hextract := weight_extract_le x owner wants
    simp only [perform, Action.weight]
    omega
  | inspect =>
    simp only [perform, weight_owe, total, Task.weight, Action.weight]
    omega
  | unknown =>
    simp only [perform, weight_owe, total, Task.weight, Action.weight]
    omega
  | fail =>
    have habort := weight_abort_le x .failedCallback
    simp only [perform, Action.weight]
    omega
  | register name wants program =>
    have hregister := weight_register_le x owner wants ⟨name, program⟩
    simp only [perform, Action.weight, Callback.weight] at hregister ⊢
    omega

theorem weight_step {x : Exchange} (h : x.tasks ≠ []) : x.step.weight < x.weight := by
  rcases x with ⟨inbox, _ | ⟨task, rest⟩, notices, journal, answer⟩
  · exact absurd rfl h
  · have hsplit : (⟨inbox, task :: rest, notices, journal, answer⟩ : Exchange).weight
        = task.weight + (⟨inbox, rest, notices, journal, answer⟩ : Exchange).weight := by
      simp only [weight, total]
      omega
    rw [hsplit]
    cases task with
    | perform owner action => exact weight_perform_lt _ owner action
    | push line =>
      have hpush := weight_push_le ⟨inbox, rest, notices, journal, answer⟩ line
      simp only [step, Task.weight]
      omega
    | call callback =>
      have hnotice : ∀ y : Exchange, (y.notice (.fired callback.name)).weight = y.weight :=
        fun _ => rfl
      simp only [step, weight_owe, total_weight_program, hnotice, Task.weight, Callback.weight]
      omega
    | reply owner reply =>
      have hanswered : ∀ y : Exchange, (y.answered reply owner).weight = y.weight := by
        intro y
        cases owner <;> rfl
      simp only [step, hanswered, Task.weight]
      omega

theorem stepFor_of_tasks_eq_nil (n : Nat) {x : Exchange} (h : x.tasks = []) : stepFor n x = x := by
  have hstep : x.step = x := by
    rw [step]
    simp only [h]
  induction n with
  | zero => rfl
  | succ n ih => rw [stepFor, hstep, ih]

theorem tasks_stepFor (n : Nat) (x : Exchange) (h : x.weight ≤ n) : (stepFor n x).tasks = [] := by
  induction n generalizing x with
  | zero =>
    by_cases htasks : x.tasks = []
    · exact htasks
    · exact absurd (weight_step htasks) (by omega)
  | succ n ih =>
    by_cases htasks : x.tasks = []
    · rw [stepFor_of_tasks_eq_nil (n + 1) htasks]
      exact htasks
    · exact ih x.step (by have := weight_step htasks; omega)

theorem tasks_run (x : Exchange) : x.run.tasks = [] := tasks_stepFor x.weight x (Nat.le_refl _)

end Exchange

end Testbench
