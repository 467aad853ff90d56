import Testbench.Failure
import Testbench.Inbox.Slots

/-!
# The Inbox

The lines that have arrived and have not been consumed, in arrival order, and the
listeners that wait for a line of some kind.

Each operation here is one indivisible change of the inbox. None of them calls
anything: `push`, `register` and `close` hand back the callbacks that are now due
and leave it to the caller to run them afterwards, when the change is complete.
That is what lets a callback use the inbox itself.

A listener waits for the first later line that it wants. To be sure that none is
missed, a push takes every listener that wants the line out of the inbox before it
appends the line, and a registration first looks through all lines already held.
So no pending listener ever wants a line that is held.

Closing is final. Held lines can still be consumed, later ones are discarded, and
the pending listeners are given up: with no more lines to come, nothing could
satisfy them.

A predicate may be broken for some lines. A push or a registration that meets a
broken predicate changes nothing. An extraction has taken the lines out before it
asks, so there a broken predicate costs all of them.

## Main definitions

* `Inbox`: Lines, listeners and whether the inbox is closed.
* `Inbox.push`: Appends a line and releases the listeners that want it.
* `Inbox.register`: Adds a listener, unless its wait is already over.
* `Inbox.read?`: Consumes the earliest line.
* `Inbox.extract`: Consumes all lines of some kind, wherever they are.
* `Inbox.close`: Ends the input.

## Theorems

* `Inbox.push_eq_held`: What an accepted push does.
* `Inbox.push_eq_discarded`: When a line is discarded.
* `Inbox.register_cases`: What becomes of a listener.
* `Inbox.register_eq_pending`: When a listener is left pending.
-/

namespace Testbench

/-- A test on lines, which may be broken for some of them. -/
abbrev Predicate := Line → Except Fault Bool

structure Listener (κ : Type) where
  wants : Predicate
  callback : κ

structure Inbox (κ : Type) where
  lines : List Line
  listeners : Slots (Listener κ)
  closed : Bool

/-- What became of a line that was pushed. -/
inductive Arrival (κ : Type)
  | discarded
  /-- The line is held now, and these callbacks are due, in this order. -/
  | held (due : List κ)

/-- What became of a listener that was registered. -/
inductive Registration
  /-- A line already held is wanted: the callback is due at once. -/
  | satisfied
  /-- No such line is held and none will come: the callback is given up. -/
  | refused
  | pending
  deriving DecidableEq, Repr

/-- The listener has an answer for the line, and wants it. -/
def Listener.accepts {κ : Type} (listener : Listener κ) (line : Line) : Bool :=
  match listener.wants line with
  | .ok wanted => wanted
  | .error _ => false

/-- The listeners among `entries` that want the line, in order. -/
def wanting {κ : Type} (line : Line) :
    List (Nat × Listener κ) → Except Fault (List (Nat × Listener κ))
  | [] => .ok []
  | entry :: rest => do
    let wanted ← entry.2.wants line
    let others ← wanting line rest
    return if wanted then entry :: others else others

/-- Whether one of the lines is wanted. Lines behind the first such line are not
    looked at. -/
def anyWanted (wants : Predicate) : List Line → Except Fault Bool
  | [] => .ok false
  | line :: rest => do
    if ← wants line then return true
    anyWanted wants rest

/-- The lines that are wanted, and the others, each in order. -/
def divide (wants : Predicate) : List Line → Except Fault (List Line × List Line)
  | [] => .ok ([], [])
  | line :: rest => do
    let wanted ← wants line
    let (matching, others) ← divide wants rest
    return if wanted then (line :: matching, others) else (matching, line :: others)

namespace Inbox

variable {κ : Type}

def empty : Inbox κ := ⟨[], Slots.empty, false⟩

instance : Inhabited (Inbox κ) := ⟨empty⟩

/-- A closed inbox that holds the given lines. -/
def filled (lines : List Line) : Inbox κ := ⟨lines, Slots.empty, true⟩

def isReady (inbox : Inbox κ) : Bool := !inbox.lines.isEmpty

def push (inbox : Inbox κ) (line : Line) : Except Fault (Arrival κ × Inbox κ) :=
  if inbox.closed then .ok (.discarded, inbox)
  else do
    let chosen ← wanting line inbox.listeners.entries
    let remaining := (chosen.map Prod.fst).foldl Slots.erase inbox.listeners
    return (.held (chosen.map fun entry => entry.2.callback),
      { inbox with lines := inbox.lines ++ [line], listeners := remaining })

def register (inbox : Inbox κ) (listener : Listener κ) :
    Except Fault (Registration × Inbox κ) := do
  if ← anyWanted listener.wants inbox.lines then
    return (.satisfied, inbox)
  else if inbox.closed then
    return (.refused, inbox)
  else
    return (.pending, { inbox with listeners := inbox.listeners.insert listener })

def read? (inbox : Inbox κ) : Option (Line × Inbox κ) :=
  match inbox.lines with
  | [] => none
  | line :: rest => some (line, { inbox with lines := rest })

def extract (inbox : Inbox κ) (wants : Predicate) : Except Fault (List Line) × Inbox κ :=
  match divide wants inbox.lines with
  | .ok (matching, others) => (.ok matching, { inbox with lines := others })
  | .error fault => (.error fault, { inbox with lines := [] })

/-- The callbacks given up are in the order of their listeners. -/
def close (inbox : Inbox κ) : List κ × Inbox κ :=
  (inbox.listeners.values.map Listener.callback,
    { inbox with listeners := Slots.empty, closed := true })

/-! ### What each operation does to the lines and the listeners -/

theorem wanting_eq_ok {line : Line} {entries chosen : List (Nat × Listener κ)}
    (h : wanting line entries = .ok chosen) :
    chosen = entries.filter fun e => e.2.accepts line := by
  induction entries generalizing chosen with
  | nil => exact (Except.ok.inj h).symm
  | cons entry rest ih =>
    rw [wanting] at h
    cases hwants : entry.2.wants line with
    | error fault =>
      rw [hwants] at h
      exact absurd h (by simp only [bind, Except.bind, reduceCtorEq, not_false_eq_true])
    | ok wanted =>
      cases hrest : wanting line rest with
      | error fault =>
        rw [hwants, hrest] at h
        exact absurd h (by simp only [bind, Except.bind, reduceCtorEq, not_false_eq_true])
      | ok others =>
        rw [hwants, hrest] at h
        have hchosen := (Except.ok.inj h).symm
        rw [hchosen, ih hrest, List.filter_cons, Listener.accepts, hwants]

/-- A push that is accepted appends the line and takes out exactly the listeners
    that want it, in the order of their keys. -/
theorem push_eq_held {inbox next : Inbox κ} {line : Line} {due : List κ}
    (h : inbox.push line = .ok (.held due, next)) :
    inbox.closed = false ∧ next.closed = false ∧ next.lines = inbox.lines ++ [line] ∧
      next.listeners.entries = inbox.listeners.entries.filter (fun e => !e.2.accepts line) ∧
      due = (inbox.listeners.entries.filter fun e => e.2.accepts line).map
        fun e => e.2.callback := by
  unfold push at h
  split at h
  · exact absurd (Except.ok.inj h) (by simp only [Prod.mk.injEq, reduceCtorEq, false_and,
      not_false_eq_true])
  · next hopen =>
    have hclosed : inbox.closed = false := Bool.eq_false_iff.mpr hopen
    cases hchosen : wanting line inbox.listeners.entries with
    | error fault =>
      rw [hchosen] at h
      exact absurd h (by simp only [bind, Except.bind, reduceCtorEq, not_false_eq_true])
    | ok chosen =>
      rw [hchosen] at h
      rcases Prod.mk.inj (Except.ok.inj h) with ⟨hdue, hnext⟩
      rw [← hnext, ← Arrival.held.inj hdue, wanting_eq_ok hchosen]
      exact ⟨hclosed, hclosed, rfl, Slots.entries_eraseAll_filter _ _, rfl⟩

/-- A line is discarded only by a closed inbox, which it leaves as it is. -/
theorem push_eq_discarded {inbox next : Inbox κ} {line : Line}
    (h : inbox.push line = .ok (.discarded, next)) : inbox.closed = true ∧ next = inbox := by
  unfold push at h
  split at h
  · next hclosed => exact ⟨hclosed, (Prod.mk.inj (Except.ok.inj h)).2.symm⟩
  · cases hchosen : wanting line inbox.listeners.entries with
    | error fault =>
      rw [hchosen] at h
      exact absurd h (by simp only [bind, Except.bind, reduceCtorEq, not_false_eq_true])
    | ok chosen =>
      rw [hchosen] at h
      have harrival := (Prod.mk.inj (Except.ok.inj h)).1
      exact absurd harrival (by simp only [reduceCtorEq, not_false_eq_true])

/-- The three ways in which a registration goes. -/
theorem register_cases {inbox next : Inbox κ} {listener : Listener κ} {result : Registration}
    (h : inbox.register listener = .ok (result, next)) :
    (result = .satisfied ∧ anyWanted listener.wants inbox.lines = .ok true ∧ next = inbox) ∨
    (result = .refused ∧ anyWanted listener.wants inbox.lines = .ok false ∧
      inbox.closed = true ∧ next = inbox) ∨
    (result = .pending ∧ anyWanted listener.wants inbox.lines = .ok false ∧
      inbox.closed = false ∧
      next = { inbox with listeners := inbox.listeners.insert listener }) := by
  unfold register at h
  cases hany : anyWanted listener.wants inbox.lines with
  | error fault =>
    rw [hany] at h
    exact absurd h (by simp only [bind, Except.bind, reduceCtorEq, not_false_eq_true])
  | ok found =>
    rw [hany] at h
    cases found with
    | true =>
      have hpair := Prod.mk.inj (Except.ok.inj h)
      exact .inl ⟨hpair.1.symm, rfl, hpair.2.symm⟩
    | false =>
      cases hclosed : inbox.closed with
      | true =>
        simp only [hclosed] at h
        have hpair := Prod.mk.inj (Except.ok.inj h)
        exact .inr (.inl ⟨hpair.1.symm, rfl, rfl, hpair.2.symm⟩)
      | false =>
        simp only [hclosed] at h
        have hpair := Prod.mk.inj (Except.ok.inj h)
        exact .inr (.inr ⟨hpair.1.symm, rfl, rfl, hpair.2.symm⟩)

/-- A listener is pending only if the inbox is open and holds no line it wants. -/
theorem register_eq_pending {inbox next : Inbox κ} {listener : Listener κ}
    (h : inbox.register listener = .ok (.pending, next)) :
    inbox.closed = false ∧ anyWanted listener.wants inbox.lines = .ok false ∧
      next = { inbox with listeners := inbox.listeners.insert listener } := by
  rcases register_cases h with ⟨heq, -⟩ | ⟨heq, -⟩ | ⟨-, hnone, hopen, hnext⟩
  · exact absurd heq (by simp only [reduceCtorEq, not_false_eq_true])
  · exact absurd heq (by simp only [reduceCtorEq, not_false_eq_true])
  · exact ⟨hopen, hnone, hnext⟩

instance : Inspect (Inbox κ) where
  inspect inbox := Inspect.record "InputBuffer"
    [("lines", inspect inbox.lines), ("listeners", inspect inbox.listeners.size),
      ("is_closed", inspect inbox.closed)]

end Inbox

end Testbench
