import Testbench.Proofs.Scripts
import Testbench.Proofs.Sleeping

/-!
# Producers at Their Own Pace

A test environment whose producer runs on a thread of its own. It has the same script
as one that sends a chunk at a time, and it keeps to the same agreement: the lines of
a chunk are pushed only after the report of the window before. But how far it gets
until the bench looks at its inbox the next time is up to a schedule, which says how
many acts the producer carries out at each turn. As every look at the inbox is
preceded by a turn, the schedules are all the ways in which the producer's pushes can
fall between the operations of the bench. The end of the input is a further act behind
the last line.

A bench that is asleep stays so until something wakes it, so at that turn the producer
goes on at least to the act that does.

What the producer still owes is a part of the lines that are known to come, and
`Arriving` says which. Turns only make that part shorter. A wait ends when nothing is
missing any more, whichever of its three looks at the inbox finds the directive.

## Main definitions

* `Paced`: An environment with a producer on a schedule.
* `Supply`: What the producer still owes behind the lines of the current chunk.
* `Arriving`: Which lines are still missing from an inbox.
* `Bench.Expects`: The same of a bench and its environment.

## Theorems

* `Arriving.proceed`: A producer that goes on leaves fewer lines missing.
* `Bench.expects_access`, `Bench.expects_waiting`: A turn of the producer, while the bench
  is awake and while it sleeps.
* `Bench.waitForDelay_of_arriving`: A wait for a chunk on its way.
* `Bench.waitForDelay_of_ending`: A wait for the end of the input on its way.
-/

namespace Testbench

structure Paced (τ : Type) where
  sink : τ
  /-- What the producer may do now, in this order. -/
  ahead : List Act
  /-- What it may do after each of the reports to come. -/
  later : List (List Act)
  /-- How many acts it carries out at each turn. -/
  pace : Nat → Nat
  turns : Nat

/-- The acts for each chunk of a script. The input ends behind the last line. -/
def segments : List (List Line) → List (List Act)
  | [] => [[.close]]
  | [chunk] => [chunk.map .push ++ [.close]]
  | chunk :: rest => chunk.map .push :: segments rest

namespace Paced

variable {τ : Type}

def release (e : Paced τ) : Paced τ :=
  match e.later with
  | [] => e
  | segment :: rest => { e with ahead := e.ahead ++ segment, later := rest }

/-- A producer of the whole script, which may begin with the first chunk. -/
def producing (sink : τ) (pace : Nat → Nat) (chunks : List (List Line)) : Paced τ :=
  release ⟨sink, [], segments chunks, pace, 0⟩

def proceed (count : Nat) (e : Paced τ) : List Act × Paced τ :=
  (e.ahead.take count, { e with ahead := e.ahead.drop count, turns := e.turns + 1 })

/-- The act wakes a bench that waits for a directive. -/
def wakes : Act → Bool
  | .push line => line.isDirective
  | .close => true
  | .elapse _ => false

def acts (moment : Moment) (e : Paced τ) : List Act × Paced τ :=
  match moment with
  | .access | .slept => e.proceed (e.pace e.turns)
  | .wrote text =>
    if isReport text then e.release.proceed (e.pace e.turns) else e.proceed (e.pace e.turns)
  | .waiting => e.proceed (max (e.pace e.turns) (e.ahead.findIdx wakes + 1))

instance [Sink τ] : Environment (Paced τ) where
  accept text e :=
    let (result, sink) := Sink.writeLine text e.sink
    (result, { e with sink })
  acts := acts

/-- A producer that goes on past the lines, and further into what is behind them. -/
theorem proceed_past {e : Paced τ} {lines : List Line} {tail : List Act} {count : Nat}
    (hahead : e.ahead = lines.map .push ++ tail) (hcount : lines.length ≤ count) :
    e.proceed count = (lines.map .push ++ tail.take (count - lines.length),
      { e with ahead := tail.drop (count - lines.length), turns := e.turns + 1 }) := by
  have hlength : (lines.map Act.push).length ≤ count := by
    rw [List.length_map]
    exact hcount
  unfold proceed
  rw [hahead, List.take_append, List.take_of_length_le hlength, List.drop_append,
    List.drop_of_length_le hlength, List.length_map, List.nil_append]

end Paced

/-! ### What is still missing -/

/-- What the producer owes behind the current chunk, when `chunks` are still to come: the
    acts it may do now, and those for later. -/
inductive Supply : List (List Line) → Bool → List Act → List (List Act) → Prop
  | more (chunk : List Line) (rest : List (List Line)) :
    Supply (chunk :: rest) false [] (segments (chunk :: rest))
  | closing : Supply [] false [.close] []
  | closed : Supply [] true [] []

/-- Of the lines `lines`, those in `missing` have not arrived yet, but will. -/
structure Arriving (inbox : Inbox Unit) (ahead : List Act) (later : List (List Act))
    (lines missing : List Line) (chunks : List (List Line)) : Prop where
  whole : inbox.lines ++ missing = lines
  supply : ∃ tail, ahead = missing.map .push ++ tail ∧ Supply chunks inbox.closed tail later
  complete : inbox.closed = true → missing = []
  unheard : inbox.listeners.entries = []

namespace Arriving

variable {inbox : Inbox Unit} {ahead : List Act} {later : List (List Act)}
  {lines missing : List Line} {chunks : List (List Line)}

/-- A producer that carries out one act. -/
theorem proceedOne {act : Act} (h : Arriving inbox (act :: ahead) later lines missing chunks) :
    ∃ missing', missing' <:+ missing ∧
      Arriving (inbox.afterAct act) ahead later lines missing' chunks := by
  rcases h.supply with ⟨tail, hahead, hsupply⟩
  cases missing with
  | nil =>
    -- Behind the lines there is nothing but the end of the input.
    rw [List.map_nil, List.nil_append] at hahead
    rw [← hahead] at hsupply
    cases hclosed : inbox.closed with
    | true =>
      rw [hclosed] at hsupply
      exact absurd hsupply nofun
    | false =>
      rw [hclosed] at hsupply
      cases hsupply
      exact ⟨[], List.suffix_refl _, h.whole, ⟨[], rfl, .closed⟩, fun _ => rfl, rfl⟩
  | cons line missing =>
    rw [List.map_cons, List.cons_append, List.cons.injEq] at hahead
    -- The act pushes the first of the missing lines. The inbox is open, for it is not
    -- closed before the last of them.
    rcases hahead with ⟨rfl, rfl⟩
    have hopen : inbox.closed = false := by
      cases hclosed : inbox.closed with
      | true => exact absurd (h.complete hclosed) (List.cons_ne_nil _ _)
      | false => rfl
    rw [Inbox.afterAct_push line hopen h.unheard]
    refine ⟨missing, List.suffix_cons _ _, ?_, ⟨tail, rfl, hsupply⟩, ?_, h.unheard⟩
    · rw [List.append_assoc]
      exact h.whole
    · intro hclosed
      exact absurd (h.complete hclosed) (List.cons_ne_nil _ _)

/-- A producer that goes on leaves fewer lines missing. -/
theorem proceed (h : Arriving inbox ahead later lines missing chunks) (count : Nat) :
    ∃ missing', missing' <:+ missing ∧
      Arriving (inbox.after (ahead.take count)) (ahead.drop count) later lines missing' chunks := by
  induction count generalizing inbox ahead missing with
  | zero => exact ⟨missing, List.suffix_refl _, h⟩
  | succ count ih =>
    cases ahead with
    | nil => exact ⟨missing, List.suffix_refl _, h⟩
    | cons act ahead =>
      -- One act, and then the rest of them from there.
      rcases h.proceedOne with ⟨missing₁, hsuffix, hone⟩
      rcases ih hone with ⟨missing₂, hsuffix', hrest⟩
      exact ⟨missing₂, hsuffix'.trans hsuffix, hrest⟩

/-- A report makes the next chunk part of the lines to come. -/
theorem release {τ : Type} {e : Paced τ} {chunk : List Line} {inbox : Inbox Unit}
    (h : Arriving inbox e.ahead e.later lines [] (chunk :: chunks)) :
    Arriving inbox e.release.ahead e.release.later (lines ++ chunk) chunk chunks := by
  rcases h.supply with ⟨tail, hahead, hsupply⟩
  have hwhole := h.whole
  rw [List.append_nil] at hwhole
  rw [List.map_nil, List.nil_append] at hahead
  -- With a chunk to come the inbox is open, and the producer waits for the report.
  rcases hclosed : inbox.closed with _ | _
  · rw [hclosed] at hsupply
    generalize hlater : e.later = later at hsupply
    cases hsupply
    refine ⟨by rw [hwhole], ?_, ?_, h.unheard⟩
    · cases chunks with
      | nil =>
        refine ⟨[.close], ?_, ?_⟩
        · simp only [Paced.release, hlater, segments, hahead, List.nil_append]
        · simp only [Paced.release, hlater, segments, hclosed]
          exact .closing
      | cons next rest =>
        refine ⟨[], ?_, ?_⟩
        · simp only [Paced.release, hlater, segments, hahead, List.nil_append, List.append_nil]
        · simp only [Paced.release, hlater, segments, hclosed]
          exact .more next rest
    · exact fun htrue => absurd htrue (ne_true_of_eq_false hclosed)
  · rw [hclosed] at hsupply
    exact absurd hsupply nofun

/-- Without a chunk to come a report changes nothing. -/
theorem release_end {τ : Type} {e : Paced τ} {inbox : Inbox Unit}
    (h : Arriving inbox e.ahead e.later lines missing []) : e.release = e := by
  rcases h.supply with ⟨tail, -, hsupply⟩
  generalize hlater : e.later = later at hsupply
  generalize inbox.closed = closed at hsupply
  cases hsupply <;> simp only [Paced.release, hlater]

end Arriving

namespace Bench

variable {σ τ : Type}

/-! ### Turns of the producer -/

theorem length_le_findIdx_wakes {plain : List Line} (rest : List Act)
    (hplain : ∀ line ∈ plain, line.isDirective = false) :
    plain.length ≤ (plain.map Act.push ++ rest).findIdx Paced.wakes := by
  have hasleep : ∀ act ∈ plain.map Act.push, Paced.wakes act = false := by
    intro act hact
    rcases List.mem_map.mp hact with ⟨line, hline, rfl⟩
    exact hplain line hline
  -- None of the lines wakes the bench, so the first act that does is behind them.
  have hfirst := List.findIdx_eq_length_of_false hasleep
  rw [List.findIdx_append, hfirst, if_neg (Nat.lt_irrefl _), List.length_map]
  exact Nat.le_add_left _ _

/-- What the producer around a bench owes. -/
def Expects (a : Bench (Paced τ) σ) (lines missing : List Line) (chunks : List (List Line)) :
    Prop :=
  Arriving a.inbox a.environment.ahead a.environment.later lines missing chunks

variable [Sink τ] {a : Bench (Paced τ) σ} {lines missing : List Line} {chunks : List (List Line)}

theorem expects_access (h : Expects a lines missing chunks) :
    ∃ missing', missing' <:+ missing ∧ Expects (a.turn .access) lines missing' chunks := by
  simp only [Expects, inbox_turn, environment_turn]
  exact h.proceed (a.environment.pace a.environment.turns)

/-- A producer whose bench sleeps goes on to the directive. -/
theorem expects_waiting {plain : List Line} {directive : Line}
    (h : Expects a lines (plain ++ [directive]) chunks)
    (hplain : ∀ line ∈ plain, line.isDirective = false)
    (hdirective : directive.isDirective = true) :
    (a.listening.turn .waiting).wake = .rung ∧
      Expects (a.listening.turn .waiting) lines [] chunks := by
  rcases h.supply with ⟨tail, hahead, hsupply⟩
  have hopen : a.inbox.closed = false := by
    cases hclosed : a.inbox.closed with
    | true => exact absurd (h.complete hclosed) (List.concat_ne_nil _ _)
    | false => rfl
  rcases asleep_listening h.unheard hopen with ⟨key, hasleep⟩
  let e := a.environment
  let count := max (e.pace e.turns) (e.ahead.findIdx Paced.wakes + 1)
  let more := count - (plain ++ [directive]).length
  have hfar : (plain ++ [directive]).length ≤ count := by
    have hlater : plain.length ≤ e.ahead.findIdx Paced.wakes := by
      change plain.length ≤ a.environment.ahead.findIdx Paced.wakes
      rw [hahead, List.map_append, List.append_assoc]
      exact length_le_findIdx_wakes _ hplain
    rw [List.length_append, List.length_singleton]
    exact Nat.le_trans (Nat.succ_le_succ hlater) (Nat.le_max_right _ _)
  have hproceed : e.proceed count = ((plain ++ [directive]).map .push ++ tail.take more,
    { e with ahead := tail.drop more, turns := e.turns + 1 }) := Paced.proceed_past hahead hfar
  let b : Bench (Paced τ) σ :=
    { a.listening with environment := { e with ahead := tail.drop more, turns := e.turns + 1 } }
  let woken := ((plain ++ [directive]).map Act.push).foldl (receive false) b
  have hb : Asleep b key := ⟨hasleep.listeners, hasleep.isOpen, hasleep.wake⟩
  rcases foldl_woken false hb hplain hdirective with ⟨hrung, hunheard, hstill, hlines⟩
  have hturn : a.listening.turn .waiting = (tail.take more).foldl (receive false) woken := by
    change (e.proceed count).1.foldl (receive false)
      { a.listening with environment := (e.proceed count).2 } = _
    rw [hproceed, List.foldl_append]
  have harriving : Arriving woken.inbox tail e.later lines [] chunks := by
    refine ⟨?_, ⟨tail, rfl, ?_⟩, fun _ => rfl, hunheard⟩
    · rw [List.append_nil, hlines]
      exact h.whole
    · rw [hstill, ← hopen]
      exact hsupply
  -- Behind the acts up to the directive there may be more of them in the same turn. They
  -- find nobody listening.
  rcases harriving.proceed more with ⟨missing', hsuffix, hrest⟩
  rw [List.suffix_nil.mp hsuffix] at hrest
  rw [hturn]
  refine ⟨(wake_foldl false _ hunheard).trans hrung, ?_⟩
  rcases foldl_receive_eq false (tail.take more) woken with ⟨-, hinbox, henvironment⟩
  have hwoken : woken.environment = b.environment := (foldl_receive_eq false _ b).2.2
  rw [Expects.eq_def, hinbox, henvironment, hwoken]
  exact hrest

/-- Or to the end of the input. -/
theorem expects_waiting_end (h : Expects a lines [] []) (hopen : a.inbox.closed = false) :
    (a.listening.turn .waiting).wake = .released := by
  rcases h.supply with ⟨tail, hahead, hsupply⟩
  rw [hopen] at hsupply
  rcases asleep_listening h.unheard hopen with ⟨key, hasleep⟩
  let e := a.environment
  let count := max (e.pace e.turns) (e.ahead.findIdx Paced.wakes + 1)
  let b : Bench (Paced τ) σ :=
    { a.listening with environment := (Environment.acts .waiting e).2 }
  have hcount : 1 ≤ count := Nat.le_trans (Nat.succ_le_succ (Nat.zero_le _)) (Nat.le_max_right _ _)
  -- Nothing is missing and the inbox is open, so only its closing is left.
  have hclose : e.ahead = [.close] := by
    change a.environment.ahead = _
    rw [hahead]
    generalize a.environment.later = later at hsupply
    cases hsupply
    rfl
  have hturn : a.listening.turn .waiting = receive false b .close := by
    change (e.ahead.take count).foldl (receive false) b = _
    rw [hclose, List.take_of_length_le hcount, List.foldl_cons, List.foldl_nil]
  rw [hturn]
  have hb : Asleep b key := ⟨hasleep.listeners, hasleep.isOpen, hasleep.wake⟩
  exact (receive_close false hb).1

/-! ### Waits -/

section Directive

variable {old : List Line} {directive : Line} {delay : Duration}

theorem filter_directive (hold : ∀ line ∈ old, line.isDirective = false)
    (hdirective : directive.isDirective = true) :
    (old ++ [directive]).filter Line.isDirective = [directive] := by
  rw [List.filter_append, List.filter_eq_nil_iff.mpr fun line hline =>
    ne_true_of_eq_false (hold line hline), List.filter_cons, if_pos hdirective]
  rfl

theorem filter_others (hold : ∀ line ∈ old, line.isDirective = false)
    (hdirective : directive.isDirective = true) :
    (old ++ [directive]).filter (fun line => !line.isDirective) = old := by
  have hkept : old.filter (fun line => !line.isDirective) = old := by
    rw [List.filter_eq_self]
    intro line hline
    rw [hold line hline]
    rfl
  rw [List.filter_append, hkept, List.filter_cons, hdirective]
  exact List.append_nil old

/-- A search after the last line of a chunk has arrived. -/
theorem openWindow_of_expected (s : SimulatedTime)
    (h : Expects (a.turn .access) (old ++ [directive]) [] chunks)
    (hold : ∀ line ∈ old, line.isDirective = false) (hdelay : directive.delay? = some delay) :
    ∃ next, openWindow s a = (allowed (s.grant delay).1, next) ∧
      next.own = { a.own with policy := .simulated (s.grant delay).2 } ∧
      Expects next old [] chunks := by
  have hlines : (a.turn .access).inbox.lines = old ++ [directive] := by
    rw [← h.whole, List.append_nil]
  have hdirective := Line.isDirective_of_delay? hdelay
  have hwanted : (a.turn .access).inbox.lines.filter Line.isDirective = [directive] := by
    rw [hlines]
    exact filter_directive hold hdirective
  rcases openWindow_of_directive s hwanted hdelay with ⟨next, hwindow, hown, henvironment, hinbox⟩
  refine ⟨next, hwindow, hown, ?_⟩
  rw [hlines, filter_others hold hdirective] at hinbox
  rw [Expects.eq_def, hinbox, henvironment]
  exact ⟨List.append_nil old, h.supply, fun _ => rfl, h.unheard⟩

omit [Sink τ] in
/-- Either the chunk has arrived, or its directive is still missing. -/
theorem Expects.arrived_or_missing (h : Expects a (old ++ [directive]) missing chunks)
    (hold : ∀ line ∈ old, line.isDirective = false) :
    missing = [] ∨ ∃ plain, missing = plain ++ [directive] ∧
      (∀ line ∈ plain, line.isDirective = false) ∧
      ∀ line ∈ a.inbox.lines, line.isDirective = false := by
  have hwhole := h.whole
  have hsuffix : missing <:+ old ++ [directive] := ⟨_, hwhole⟩
  -- What is missing is the end of what was to come, and that end is the directive.
  rcases List.suffix_concat_iff.mp hsuffix with hnone | ⟨plain, rfl, hplain⟩
  · exact .inl hnone
  · rw [← List.append_assoc] at hwhole
    have harrived : a.inbox.lines ++ plain = old := List.append_cancel_right hwhole
    refine .inr ⟨plain, rfl, fun line hline => hold line (hplain.mem hline), ?_⟩
    intro line hline
    refine hold line ?_
    rw [← harrived]
    exact List.mem_append_left _ hline

theorem openWindow_of_arrived (s : SimulatedTime) (h : Expects a (old ++ [directive]) [] chunks)
    (hold : ∀ line ∈ old, line.isDirective = false) (hdelay : directive.delay? = some delay) :
    ∃ next, openWindow s a = (allowed (s.grant delay).1, next) ∧
      next.own = { a.own with policy := .simulated (s.grant delay).2 } ∧
      Expects next old [] chunks := by
  rcases expects_access h with ⟨missing', hsuffix, h'⟩
  rw [List.suffix_nil.mp hsuffix] at h'
  exact openWindow_of_expected s h' hold hdelay

/-- A wait for a chunk on its way ends with the window of the chunk. -/
theorem waitForDelay_of_arriving (s : SimulatedTime)
    (h : Expects a (old ++ [directive]) missing chunks)
    (hold : ∀ line ∈ old, line.isDirective = false) (hdelay : directive.delay? = some delay) :
    ∃ next, waitForDelay s a = ((allowed (s.grant delay).1).map fun _ => (), next) ∧
      next.own = { a.own with policy := .simulated (s.grant delay).2 } ∧
      Expects next old [] chunks := by
  have hdirective := Line.isDirective_of_delay? hdelay
  rcases expects_access h with ⟨missing₁, -, h₁⟩
  rcases h₁.arrived_or_missing hold with rfl | ⟨plain, rfl, hplain, hquiet⟩
  · -- The chunk is there before the first search.
    rcases openWindow_of_expected s h₁ hold hdelay with ⟨next, hwindow, hown, hnext⟩
    exact ⟨next, waitForDelay_of_found hwindow (allowed_ne _), hown, hnext⟩
  · have hsearch := openWindow_of_none s hquiet
    rcases expects_access h₁ with ⟨missing₂, -, h₂⟩
    rcases h₂.arrived_or_missing hold with rfl | ⟨plain', rfl, hplain', hquiet'⟩
    · -- The directive has slipped in between the search and the registration.
      have hany : ((a.turn .access).turn .access).inbox.lines.any Line.isDirective := by
        rw [← List.append_nil ((a.turn .access).turn .access).inbox.lines, h₂.whole,
          List.any_append, List.any_cons, hdirective, Bool.true_or, Bool.or_true]
      have hlisten := listen_of_satisfied hany
      rcases openWindow_of_arrived (a := { (a.turn .access).turn .access with wake := .asleep })
        s h₂ hold hdelay with ⟨next, hwindow, hown, hnext⟩
      refine ⟨next, waitForDelay_of_rung hsearch hlisten hwindow (allowed_ne _), ?_, hnext⟩
      rw [hown, ← own_turn .access a, ← own_turn .access (a.turn .access)]
      rfl
    · -- It is missing still, and the bench sleeps until it comes.
      have hnone : ((a.turn .access).turn .access).inbox.lines.any Line.isDirective = false := by
        rw [List.any_eq_false]
        exact fun line hline => ne_true_of_eq_false (hquiet' line hline)
      have hopen : ((a.turn .access).turn .access).inbox.closed = false := by
        cases hclosed : ((a.turn .access).turn .access).inbox.closed with
        | true => exact absurd (h₂.complete hclosed) (List.concat_ne_nil _ _)
        | false => rfl
      have hlisten := listen_of_pending hnone hopen
      rcases expects_waiting h₂ hplain' hdirective with ⟨hrung, h₃⟩
      simp only [hrung] at hlisten
      rcases openWindow_of_arrived s h₃ hold hdelay with ⟨next, hwindow, hown, hnext⟩
      refine ⟨next, waitForDelay_of_rung hsearch hlisten hwindow (allowed_ne _), ?_, hnext⟩
      rw [hown, own_turn, ← own_turn .access a, ← own_turn .access (a.turn .access)]
      rfl

end Directive

/-- A wait for the end of the input ends with it. -/
theorem waitForDelay_of_ending (s : SimulatedTime) (h : Expects a lines [] [])
    (hplain : ∀ line ∈ lines, line.isDirective = false) :
    ∃ next, waitForDelay s a = (.error (.error .inputClosed), next) ∧ next.own = a.own := by
  have hlines : ∀ {b : Bench (Paced τ) σ}, Expects b lines [] [] →
      ∀ line ∈ b.inbox.lines, line.isDirective = false := by
    intro b hb line hline
    refine hplain line ?_
    rw [← hb.whole]
    exact List.mem_append_left _ hline
  rcases expects_access h with ⟨missing₁, hsuffix₁, h₁⟩
  rw [List.suffix_nil.mp hsuffix₁] at h₁
  rcases expects_access h₁ with ⟨missing₂, hsuffix₂, h₂⟩
  rw [List.suffix_nil.mp hsuffix₂] at h₂
  have hsearch := openWindow_of_none s (hlines h₁)
  have hnone : ((a.turn .access).turn .access).inbox.lines.any Line.isDirective = false := by
    rw [List.any_eq_false]
    exact fun line hline => ne_true_of_eq_false (hlines h₂ line hline)
  -- The producer may have closed the inbox at any of its turns up to here, or else it
  -- does so while the bench sleeps.
  cases hclosed : ((a.turn .access).turn .access).inbox.closed with
  | true =>
    refine ⟨_, waitForDelay_of_closed hsearch (listen_of_refused hnone hclosed), ?_⟩
    rw [← own_turn .access a, ← own_turn .access (a.turn .access)]
    rfl
  | false =>
    have hlisten := listen_of_pending hnone hclosed
    simp only [expects_waiting_end h₂ hclosed] at hlisten
    refine ⟨_, waitForDelay_of_closed hsearch hlisten, ?_⟩
    rw [own_turn, ← own_turn .access a, ← own_turn .access (a.turn .access)]
    rfl

end Bench

end Testbench
