import Testbench.Proofs.Work

/-!
# The Search and the Wait

What a bench does to get a new window, told case by case. The environment has its
turn first, and everything after that depends on the lines that are then there.

With no directive among them a search changes nothing. Otherwise all directives go,
all other lines stay in order, and the earliest directive decides.

A listener looks through the lines once more. If a directive has slipped in, the
wait is over at once; if the inbox is closed, no directive can follow. Only if it is
open and without a directive does the bench wait for the environment.

## Main definitions

* `Bench.allowed`: The outcome of granting a window, as the outcome of a search.

## Theorems

* `divide_ok`, `anyWanted_ok`: A test that no line breaks.
* `Bench.openWindow_of_none`, `Bench.openWindow_of_nothing`: A search among lines without a
  directive.
* `Bench.openWindow_of_directive`, `Bench.openWindow_of_malformed`: A search that finds a
  directive.
* `Bench.listen_of_satisfied`, `Bench.listen_of_refused`, `Bench.listen_of_pending`: The
  three ways in which a registration goes.
* `Bench.waitForDelay_of_found`, `Bench.waitForDelay_of_closed`,
  `Bench.waitForDelay_of_rung`, `Bench.waitForDelay_of_vain`: The wait put together.
-/

namespace Testbench

theorem divide_ok (p : Line → Bool) (lines : List Line) :
    divide (fun line => .ok (p line)) lines
      = .ok (lines.filter p, lines.filter fun line => !p line) := by
  induction lines with
  | nil => rfl
  | cons line rest ih =>
    unfold divide
    rw [ih]
    -- The line goes to one side or the other, and the rest is divided already.
    cases hp : p line with
    | true =>
      simp only [List.filter_cons, hp, Bool.not_true, if_true, Bool.false_eq_true, if_false]
      rfl
    | false =>
      simp only [List.filter_cons, hp, Bool.not_false, if_true, Bool.false_eq_true, if_false]
      rfl

theorem anyWanted_ok (p : Line → Bool) (lines : List Line) :
    anyWanted (fun line => .ok (p line)) lines = .ok (lines.any p) := by
  induction lines with
  | nil => rfl
  | cons line rest ih =>
    unfold anyWanted
    rw [List.any_cons, ih]
    cases p line with
    | true => rfl
    | false => rfl

namespace Bench

variable {ε σ : Type}

/-! ### The search for a directive -/

/-- Whether a window could be granted, told as the outcome of a search. -/
def allowed : Except Fault Unit → Except Halt Bool
  | .ok () => .ok true
  | .error fault => .error (.fault fault)

theorem grant_eq (s : SimulatedTime) (delay : Duration) (b : Bench ε σ) :
    ∃ next, (grant s delay >>= fun _ => pure true : BenchM ε σ Bool) b
        = (allowed (s.grant delay).1, next) ∧
      next.own = { b.own with policy := .simulated (s.grant delay).2 } ∧
      next.environment = b.environment ∧ next.inbox = b.inbox := by
  simp only [SimulatedTime.grant]
  -- The end of the window may lie beyond the last timestamp. The start of the window is
  -- set all the same, so the policy changes in either case.
  cases hlimit : s.now.add? delay with
  | some limit =>
    have hgrant : grant s delay b = (.ok (),
        { b with policy := .simulated { s with opened := s.now, limit } }.note
          (.windowOpened delay)) := by
      simp only [grant, SimulatedTime.grant, hlimit]
    rw [bind_of_ok hgrant]
    exact ⟨_, rfl, rfl, rfl, rfl⟩
  | none =>
    have hgrant : grant s delay b = (.error (.fault .timeOverflow),
        { b with policy := .simulated { s with opened := s.now } }) := by
      simp only [grant, SimulatedTime.grant, hlimit]
    rw [bind_of_error hgrant]
    exact ⟨_, rfl, rfl, rfl, rfl⟩

variable [Environment ε]

theorem extract_directives (b : Bench ε σ) :
    extract wantsDirective b = (.ok ((b.turn .access).inbox.lines.filter Line.isDirective),
      { b.turn .access with
        inbox := { (b.turn .access).inbox with
          lines := (b.turn .access).inbox.lines.filter fun line => !line.isDirective } }) := by
  have hdivide : divide wantsDirective (b.turn .access).inbox.lines = _ :=
    divide_ok Line.isDirective (b.turn .access).inbox.lines
  simp only [extract, Inbox.extract, hdivide]

theorem openWindow_of_none {b : Bench ε σ} (s : SimulatedTime)
    (h : ∀ line ∈ (b.turn .access).inbox.lines, line.isDirective = false) :
    openWindow s b = (.ok false, b.turn .access) := by
  -- Neither half of the division moves a line: nothing is taken, everything is kept.
  have hnone : (b.turn .access).inbox.lines.filter Line.isDirective = [] := by
    rw [List.filter_eq_nil_iff]
    intro line hline
    rw [h line hline]
    exact Bool.false_ne_true
  have hall : (b.turn .access).inbox.lines.filter (fun line => !line.isDirective)
      = (b.turn .access).inbox.lines := by
    rw [List.filter_eq_self]
    intro line hline
    rw [h line hline]
    rfl
  have hextract := extract_directives b
  rw [hnone, hall] at hextract
  unfold openWindow
  rw [bind_of_ok hextract]
  rfl

theorem openWindow_of_nothing {b : Bench ε σ} (s : SimulatedTime)
    (h : (b.turn .access).inbox.lines.filter Line.isDirective = []) :
    openWindow s b = (.ok false, b.turn .access) := by
  refine openWindow_of_none s fun line hline => ?_
  exact Bool.eq_false_iff.mpr (List.filter_eq_nil_iff.mp h line hline)

/-- All directives are gone afterwards, and the earliest one decided. -/
theorem openWindow_of_directive {b : Bench ε σ} (s : SimulatedTime) {directive : Line}
    {superseded : List Line} {delay : Duration}
    (h : (b.turn .access).inbox.lines.filter Line.isDirective = directive :: superseded)
    (hdelay : directive.delay? = some delay) :
    ∃ next, openWindow s b = (allowed (s.grant delay).1, next) ∧
      next.own = { b.own with policy := .simulated (s.grant delay).2 } ∧
      next.environment = (b.turn .access).environment ∧
      next.inbox = { (b.turn .access).inbox with
        lines := (b.turn .access).inbox.lines.filter fun line => !line.isDirective } := by
  have hextract := extract_directives b
  rw [h] at hextract
  unfold openWindow
  rw [bind_of_ok hextract, ← own_turn .access b]
  simp only [hdelay]
  -- A note about superseded directives is not part of what is compared.
  by_cases hsup : superseded = []
  · rw [if_neg (not_not_intro hsup)]
    exact grant_eq s delay _
  · rw [if_pos hsup]
    exact grant_eq s delay _

/-- A malformed directive is an error, but it is gone like all others. -/
theorem openWindow_of_malformed {b : Bench ε σ} (s : SimulatedTime) {directive : Line}
    {superseded : List Line}
    (h : (b.turn .access).inbox.lines.filter Line.isDirective = directive :: superseded)
    (hdelay : directive.delay? = none) :
    ∃ next, openWindow s b = (.error (.error (.malformedDelay directive)), next) ∧
      next.own = b.own ∧ next.environment = (b.turn .access).environment ∧
      next.inbox = { (b.turn .access).inbox with
        lines := (b.turn .access).inbox.lines.filter fun line => !line.isDirective } := by
  have hextract := extract_directives b
  rw [h] at hextract
  unfold openWindow
  rw [bind_of_ok hextract, ← own_turn .access b]
  simp only [hdelay]
  -- The superseded directives are noted before the earliest one turns out malformed.
  by_cases hsup : superseded = []
  · rw [if_neg (not_not_intro hsup)]
    exact ⟨_, rfl, rfl, rfl, rfl⟩
  · rw [if_pos hsup]
    exact ⟨_, rfl, rfl, rfl, rfl⟩

/-! ### The listener -/

theorem listen_of_satisfied {b : Bench ε σ}
    (h : (b.turn .access).inbox.lines.any Line.isDirective) :
    listen b = (.ok (), { b.turn .access with wake := .asleep }) := by
  have hany : anyWanted wantsDirective (b.turn .access).inbox.lines = .ok true := by
    rw [← h]
    exact anyWanted_ok _ _
  simp only [listen, Inbox.register, hany]
  rfl

theorem listen_of_refused {b : Bench ε σ}
    (h : (b.turn .access).inbox.lines.any Line.isDirective = false)
    (hclosed : (b.turn .access).inbox.closed = true) :
    listen b = (.error (.error .inputClosed), { b.turn .access with wake := .asleep }) := by
  have hany : anyWanted wantsDirective (b.turn .access).inbox.lines = .ok false := by
    rw [← h]
    exact anyWanted_ok _ _
  simp only [listen, Inbox.register, hany, hclosed]
  rfl

/-- The bench once its listener is pending, before the environment gets its turn. -/
def listening (b : Bench ε σ) : Bench ε σ :=
  { b with
    wake := .asleep
    inbox := { b.inbox with listeners := b.inbox.listeners.insert ⟨wantsDirective, ()⟩ } }

theorem listen_of_pending {b : Bench ε σ}
    (h : (b.turn .access).inbox.lines.any Line.isDirective = false)
    (hopen : (b.turn .access).inbox.closed = false) :
    listen b = (match ((b.turn .access).listening.turn .waiting).wake with
      | .rung => Except.ok ()
      | .released => Except.error (Halt.error .inputClosed)
      | .asleep => Except.error Halt.blocked, (b.turn .access).listening.turn .waiting) := by
  have hany : anyWanted wantsDirective (b.turn .access).inbox.lines = .ok false := by
    rw [← h]
    exact anyWanted_ok _ _
  have hregister : (b.turn .access).inbox.register ⟨wantsDirective, ()⟩
      = .ok (.pending, (b.turn .access).listening.inbox) := by
    unfold Inbox.register
    rw [hany]
    exact if_neg (ne_true_of_eq_false hopen)
  -- The wait is reduced to how the listener was left by the environment's turn.
  simp only [listen, hregister]
  change (match ((b.turn .access).listening.turn .waiting).wake with
    | .rung => (Except.ok (), (b.turn .access).listening.turn .waiting)
    | .released =>
      (Except.error (Halt.error .inputClosed), (b.turn .access).listening.turn .waiting)
    | .asleep => (Except.error Halt.blocked, (b.turn .access).listening.turn .waiting)) = _
  cases ((b.turn .access).listening.turn .waiting).wake <;> rfl

/-! ### The wait for a window -/

theorem allowed_ne (result : Except Fault Unit) : allowed result ≠ .ok false := by
  cases result with
  | ok _ => exact nofun
  | error fault => exact nofun

/-- A search that was not in vain decides the wait. -/
theorem waitForDelay_of_found {b next : Bench ε σ} {s : SimulatedTime} {result : Except Halt Bool}
    (h : openWindow s b = (result, next)) (hfound : result ≠ .ok false) :
    waitForDelay s b = (result.map fun _ => (), next) := by
  cases result with
  | ok found =>
    have htrue : found = true := by
      cases found with
      | true => rfl
      | false => exact absurd rfl hfound
    unfold waitForDelay
    rw [bind_of_ok h, htrue]
    rfl
  | error halt =>
    unfold waitForDelay
    rw [bind_of_error h]
    rfl

/-- A wait that does not find a directive at once ends as the listener does. -/
theorem waitForDelay_of_closed {b b₁ b₂ : Bench ε σ} {s : SimulatedTime} {halt : Halt}
    (h : openWindow s b = (.ok false, b₁)) (hlisten : listen b₁ = (.error halt, b₂)) :
    waitForDelay s b = (.error halt, b₂) := by
  unfold waitForDelay
  rw [bind_of_ok h]
  simp only [Bool.false_eq_true, if_false]
  exact bind_of_error hlisten

theorem waitForDelay_of_rung {b b₁ b₂ next : Bench ε σ} {s : SimulatedTime}
    {result : Except Halt Bool} (h : openWindow s b = (.ok false, b₁))
    (hlisten : listen b₁ = (.ok (), b₂)) (hsearch : openWindow s b₂ = (result, next))
    (hfound : result ≠ .ok false) : waitForDelay s b = (result.map fun _ => (), next) := by
  unfold waitForDelay
  rw [bind_of_ok h]
  simp only [Bool.false_eq_true, if_false]
  rw [bind_of_ok hlisten]
  -- The second search is not in vain, so the loop is not entered once more.
  cases result with
  | ok found =>
    have htrue : found = true := by
      cases found with
      | true => rfl
      | false => exact absurd rfl hfound
    rw [bind_of_ok hsearch, htrue]
    rfl
  | error halt =>
    rw [bind_of_error hsearch]
    rfl

/-- A call without a directive leaves the bench with nothing to wait for. -/
theorem waitForDelay_of_vain {b b₁ b₂ next : Bench ε σ} {s : SimulatedTime}
    (h : openWindow s b = (.ok false, b₁)) (hlisten : listen b₁ = (.ok (), b₂))
    (hsearch : openWindow s b₂ = (.ok false, next)) :
    waitForDelay s b = (.error .blocked, next) := by
  unfold waitForDelay
  rw [bind_of_ok h]
  simp only [Bool.false_eq_true, if_false]
  rw [bind_of_ok hlisten, bind_of_ok hsearch]
  rfl

end Bench

end Testbench
