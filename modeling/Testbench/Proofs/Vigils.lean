import Testbench.Proofs.Sleeping
import Testbench.Proofs.WakeUp

/-!
# A Wait Is a Vigil

The threads that take part in a wait are a description of their own. This module ties
it to what a bench does: whatever its environment, a wait of a bench is a sequence of
steps of the threads, in which the acts of the environment are those of a producer that
carries out its duties at once. So what holds in all reachable states of the threads
holds for every wait of a bench.

## Main definitions

* `Threads.Mirrors`: The threads between two operations, seen from an inbox.
* `Threads.Guards`: The threads around a bench that has registered.
* `Threads.EndsAs`: What a wait ends with, and how the thread of the bench then stands.

## Theorems

* `Threads.Mirrors.after`: Acts of an environment are steps of a producer.
* `Threads.Guards.foldl`: Also while a listener is pending.
* `Threads.steps_waitForDelay`: A wait is a sequence of steps.
* `Bench.inbox_of_inputClosed`: A bench takes the input to have ended only if it has.
-/

namespace Testbench

namespace Inbox

/-- Acts take no line away. -/
theorem mem_afterAct {κ : Type} {inbox : Inbox κ} (act : Act) {line : Line}
    (h : line ∈ inbox.lines) : line ∈ (inbox.afterAct act).lines := by
  cases act with
  | push other =>
    rcases hpush : inbox.push other with fault | ⟨_ | due, next⟩
    · simp only [afterAct, hpush]
      exact h
    · simp only [afterAct, hpush, (push_eq_discarded hpush).2]
      exact h
    · simp only [afterAct, hpush, (push_eq_held hpush).2.2.1]
      exact List.mem_append_left _ h
  | close | elapse duration => exact h

theorem mem_after {κ : Type} {inbox : Inbox κ} (acts : List Act) {line : Line}
    (h : line ∈ inbox.lines) : line ∈ (inbox.after acts).lines := by
  induction acts generalizing inbox with
  | nil => exact h
  | cons act acts ih => exact ih (mem_afterAct act h)

end Inbox

namespace Threads

open Function Bench

abbrev Steps : Threads → Threads → Prop := Relation.ReflTransGen Step

theorem free_update {duties : Option Nat → List Duty} (thread : Option Nat)
    (h : ∀ other, duties other = []) : ∀ other, update duties thread [] other = [] :=
  forall_update (p := fun duties => duties = []) h rfl

/-- The threads have the same lines, nobody listens and nobody has a duty. -/
structure Mirrors (t : Threads) (inbox : Inbox Unit) : Prop where
  lines : t.inbox.lines = inbox.lines
  closed : t.inbox.closed = inbox.closed
  unheard : t.inbox.listeners.entries = []
  unheard' : inbox.listeners.entries = []
  free : ∀ thread, t.duties thread = []

/-- The bench and its channels are where they were. -/
structure Untouched (t next : Threads) : Prop where
  vigil : next.vigil = t.vigil
  rung : next.rung = t.rung
  released : next.released = t.released

namespace Untouched

theorem refl (t : Threads) : Untouched t t := ⟨rfl, rfl, rfl⟩

theorem trans {a b c : Threads} (hab : Untouched a b) (hbc : Untouched b c) : Untouched a c :=
  ⟨hbc.vigil.trans hab.vigil, hbc.rung.trans hab.rung, hbc.released.trans hab.released⟩

end Untouched

namespace Mirrors

variable {t : Threads} {inbox : Inbox Unit}

theorem afterAct (h : Mirrors t inbox) (act : Act) :
    ∃ next, Steps t next ∧ Untouched t next ∧ Mirrors next (inbox.afterAct act) := by
  cases act with
  | push line =>
    cases hclosed : inbox.closed with
    | true =>
      -- A closed inbox drops the line. No step is needed for that.
      have hpush : inbox.push line = .ok (.discarded, inbox) := by rw [Inbox.push, if_pos hclosed]
      refine ⟨t, .refl, Untouched.refl t, ?_⟩
      simp only [Inbox.afterAct, hpush]
      exact h
    | false =>
      have hpush := Inbox.push_of_unheard line (h.closed.trans hclosed) h.unheard
      refine ⟨_, .single (.push (h.free (some 0)) hpush), ⟨rfl, rfl, rfl⟩, ?_⟩
      rw [Inbox.afterAct_push line hclosed h.unheard']
      refine ⟨?_, h.closed, h.unheard, h.unheard', free_update (some 0) h.free⟩
      simp only [h.lines]
  | close =>
    have hnone : t.inbox.close.1 = [] := by
      unfold Inbox.close
      rw [Slots.values, h.unheard]
      rfl
    have hclose : t.inbox.close = ([], t.inbox.close.2) := Prod.ext hnone rfl
    exact ⟨_, .single (.close (h.free (some 0)) hclose), ⟨rfl, rfl, rfl⟩,
      h.lines, rfl, rfl, rfl, free_update (some 0) h.free⟩
  | elapse duration => exact ⟨t, .refl, Untouched.refl t, h⟩

/-- Acts of an environment are steps of a producer. -/
theorem after (h : Mirrors t inbox) (acts : List Act) :
    ∃ next, Steps t next ∧ Untouched t next ∧ Mirrors next (inbox.after acts) := by
  induction acts generalizing t inbox with
  | nil => exact ⟨t, .refl, Untouched.refl t, h⟩
  | cons act acts ih =>
    rcases h.afterAct act with ⟨t₁, hsteps, hsame, h₁⟩
    rcases ih h₁ with ⟨t₂, hsteps', hsame', h₂⟩
    exact ⟨t₂, hsteps.trans hsteps', hsame.trans hsame', h₂⟩

theorem turn {ε σ : Type} [Environment ε] {b : Bench ε σ} (h : Mirrors t b.inbox)
    (moment : Moment) :
    ∃ next, Steps t next ∧ Untouched t next ∧ Mirrors next (b.turn moment).inbox := by
  rw [inbox_turn]
  exact h.after _

end Mirrors

/-- The threads around a bench that has registered its listener: it is pending, or it has
    been called, and then there is a directive, or it was given up. -/
inductive Guards {ε σ : Type} (t : Threads) (channel : Nat) (b : Bench ε σ) : Prop
  | asleep {key key' : Nat} (hasleep : Asleep b key) (hlines : t.inbox.lines = b.inbox.lines)
      (hopen : t.inbox.closed = false)
      (hentries : t.inbox.listeners.entries = [(key', ⟨wantsDirective, channel⟩)])
      (hfree : ∀ thread, t.duties thread = []) (hunrung : t.rung channel = false)
  | rung (hwake : b.wake = .rung) (hrung : t.rung channel = true) (h : Mirrors t b.inbox)
      (hdirective : ∃ line ∈ b.inbox.lines, line.isDirective = true)
  | released (hwake : b.wake = .released) (hunrung : t.rung channel = false)
      (hreleased : t.released channel = true) (h : Mirrors t b.inbox)

/-- A thread alone with a call to make makes it. -/
theorem steps_call {t : Threads} {duties : Option Nat → List Duty} {thread : Option Nat}
    {channel : Nat} (hduties : t.duties = update duties thread (calls [channel]))
    (hfree : ∀ other, duties other = []) :
    ∃ next, Steps t next ∧ next.inbox = t.inbox ∧ next.vigil = t.vigil ∧
      next.rung channel = true ∧ ∀ other, next.duties other = [] := by
  -- To ring and then to release are two steps, and nobody else makes one in between.
  have hfirst : t.duties thread = [.ring channel, .release channel] := by
    rw [hduties, update_self]
    rfl
  refine ⟨_, .tail (.single (.serve hfirst)) (.serve (update_self _ _ _)), rfl, rfl,
    update_self _ _ _, ?_⟩
  intro other
  change update (update t.duties thread _) thread [] other = []
  rw [update_idem, hduties, update_idem]
  exact free_update thread hfree other

/-- And one alone with a channel to release releases it. -/
theorem steps_release {t : Threads} {duties : Option Nat → List Duty} {thread : Option Nat}
    {channel : Nat} (hduties : t.duties = update duties thread [.release channel])
    (hfree : ∀ other, duties other = []) :
    ∃ next, Steps t next ∧ next.inbox = t.inbox ∧ next.vigil = t.vigil ∧ next.rung = t.rung ∧
      next.released channel = true ∧ ∀ other, next.duties other = [] := by
  have hfirst : t.duties thread = [.release channel] := by rw [hduties, update_self]
  refine ⟨_, .single (.serve hfirst), rfl, rfl, rfl, update_self _ _ _, ?_⟩
  intro other
  change update t.duties thread [] other = []
  rw [hduties, update_idem]
  exact free_update thread hfree other

namespace Guards

variable {ε σ : Type} {t : Threads} {channel : Nat} {b : Bench ε σ}

section Pending

variable {key key' : Nat} (inCall : Bool) (hasleep : Asleep b key)
  (hlines : t.inbox.lines = b.inbox.lines) (hopen : t.inbox.closed = false)
  (hentries : t.inbox.listeners.entries = [(key', ⟨wantsDirective, channel⟩)])
  (hfree : ∀ thread, t.duties thread = []) (hunrung : t.rung channel = false)

include hasleep hlines hopen hentries hfree hunrung

-- Both inboxes take the line, and on either side the listener stays where it is.
theorem receive_plain {line : Line} (hplain : line.isDirective = false) :
    ∃ next, Steps t next ∧ next.vigil = t.vigil ∧
      Guards next channel (b.receive inCall (.push line)) := by
  have hpush := Inbox.push_plain hentries hopen hplain
  have hkept := free_update (some 0) hfree
  refine ⟨_, .single (.push (hfree (some 0)) hpush), rfl, ?_⟩
  rw [Bench.receive_plain inCall hasleep hplain]
  refine .asleep ⟨hasleep.listeners, hasleep.isOpen, hasleep.wake⟩ ?_ hopen hentries hkept hunrung
  simp only [hlines]

omit hunrung in
-- The push of a producer and the two duties that it leaves are one act of the environment.
theorem receive_directive {line : Line} (hdirective : line.isDirective = true) :
    ∃ next, Steps t next ∧ next.vigil = t.vigil ∧
      Guards next channel (b.receive inCall (.push line)) := by
  rcases Inbox.push_directive hentries hopen hdirective with
    ⟨inbox, hpush, hunheard, hstill, htaken⟩
  rcases Bench.receive_directive inCall hasleep hdirective with ⟨hwake, hnone, hopen', hlines'⟩
  let pushed : Threads := { t with inbox, duties := update t.duties (some 0) (calls [channel]) }
  have hstep : Step t pushed := .push (hfree (some 0)) hpush
  rcases steps_call (t := pushed) rfl hfree with ⟨next, hsteps, hsame, hvigil, hrung, hfree'⟩
  have hheld : next.inbox.lines = (b.receive inCall (.push line)).inbox.lines := by
    rw [hsame, hlines', ← hlines]
    exact htaken
  refine ⟨next, .head hstep hsteps, hvigil, .rung hwake hrung ⟨hheld, ?_, ?_, hnone, hfree'⟩ ?_⟩
  · rw [hsame, hopen']
    exact hstill
  · rw [hsame]
    exact hunheard
  · refine ⟨line, ?_, hdirective⟩
    rw [hlines']
    exact List.mem_append_right _ List.mem_cons_self

omit hopen in
-- The listener is given up without being called, so the channel is released unrung.
theorem receive_close :
    ∃ next, Steps t next ∧ next.vigil = t.vigil ∧
      Guards next channel (b.receive inCall .close) := by
  have hclose : t.inbox.close = ([channel], t.inbox.close.2) := by
    refine Prod.ext ?_ rfl
    unfold Inbox.close
    rw [Slots.values, hentries]
    rfl
  let closed : Threads :=
    { t with inbox := t.inbox.close.2, duties := update t.duties (some 0) [.release channel] }
  have hstep : Step t closed := .close (hfree (some 0)) hclose
  rcases steps_release (t := closed) rfl hfree with
    ⟨next, hsteps, hsame, hvigil, hrung, hreleased, hfree'⟩
  rcases Bench.receive_close inCall hasleep with ⟨hwake, hnone⟩
  refine ⟨next, .head hstep hsteps, hvigil,
    .released hwake ?_ hreleased ⟨?_, ?_, ?_, hnone, hfree'⟩⟩
  · rw [hrung]
    exact hunrung
  · rw [hsame]
    exact hlines
  · rw [hsame]
    rfl
  · rw [hsame]
    rfl

-- The clock is no part of a wait in simulated time, so no thread makes a step.
theorem receive_elapse (duration : Duration) :
    ∃ next, Steps t next ∧ next.vigil = t.vigil ∧
      Guards next channel (b.receive inCall (.elapse duration)) := by
  have hkept : (b.receive inCall (.elapse duration)).inbox = b.inbox ∧
      (b.receive inCall (.elapse duration)).wake = b.wake := by
    simp only [Bench.receive]
    split
    · exact ⟨rfl, rfl⟩
    · exact ⟨rfl, rfl⟩
  have hasleep' : Asleep (b.receive inCall (.elapse duration)) key := by
    refine ⟨?_, ?_, hkept.2.trans hasleep.wake⟩
    · rw [hkept.1]
      exact hasleep.listeners
    · rw [hkept.1]
      exact hasleep.isOpen
  refine ⟨t, .refl, rfl, .asleep hasleep' ?_ hopen hentries hfree hunrung⟩
  rw [hkept.1]
  exact hlines

end Pending

/-- An act of the environment, and the duties it leaves. -/
theorem receive (h : Guards t channel b) (inCall : Bool) (act : Act) :
    ∃ next, Steps t next ∧ next.vigil = t.vigil ∧ Guards next channel (b.receive inCall act) := by
  have hinbox := (receive_eq inCall b act).2.1
  cases h with
  | asleep hasleep hlines hopen hentries hfree hunrung =>
    cases act with
    | push line =>
      cases hline : line.isDirective with
      | false => exact receive_plain inCall hasleep hlines hopen hentries hfree hunrung hline
      | true => exact receive_directive inCall hasleep hlines hopen hentries hfree hline
    | close => exact receive_close inCall hasleep hlines hentries hfree hunrung
    | elapse duration =>
      exact receive_elapse inCall hasleep hlines hopen hentries hfree hunrung duration
  -- Once the listener is gone, an act is one of a producer whom nobody listens to.
  | rung hwake hrung h hdirective =>
    rcases h.afterAct act with ⟨next, hsteps, hsame, hmirrors⟩
    rw [← hinbox] at hmirrors
    refine ⟨next, hsteps, hsame.vigil, .rung ?_ ?_ hmirrors ?_⟩
    · exact (wake_receive inCall act h.unheard').1.trans hwake
    · rw [hsame.rung]
      exact hrung
    · rcases hdirective with ⟨line, hline, hmark⟩
      refine ⟨line, ?_, hmark⟩
      rw [hinbox]
      exact Inbox.mem_afterAct act hline
  | released hwake hunrung hreleased h =>
    rcases h.afterAct act with ⟨next, hsteps, hsame, hmirrors⟩
    rw [← hinbox] at hmirrors
    refine ⟨next, hsteps, hsame.vigil, .released ?_ ?_ ?_ hmirrors⟩
    · exact (wake_receive inCall act h.unheard').1.trans hwake
    · rw [hsame.rung]
      exact hunrung
    · rw [hsame.released]
      exact hreleased

/-- Acts of an environment are steps of a producer also while a listener is pending. -/
theorem foldl (h : Guards t channel b) (inCall : Bool) (acts : List Act) :
    ∃ next, Steps t next ∧ next.vigil = t.vigil ∧
      Guards next channel (acts.foldl (Bench.receive inCall) b) := by
  induction acts generalizing t b with
  | nil => exact ⟨t, .refl, rfl, h⟩
  | cons act acts ih =>
    rcases h.receive inCall act with ⟨t₁, hsteps, hvigil, h₁⟩
    rcases ih h₁ with ⟨t₂, hsteps', hvigil', h₂⟩
    exact ⟨t₂, hsteps.trans hsteps', hvigil'.trans hvigil, h₂⟩

theorem turn [Environment ε] (h : Guards t channel b) (moment : Moment) :
    ∃ next, Steps t next ∧ next.vigil = t.vigil ∧ Guards next channel (b.turn moment) := by
  -- The threads see nothing of the state that the environment goes on from.
  have hb : Guards t channel
      { b with environment := (Environment.acts moment b.environment).2 } := by
    cases h with
    | asleep hasleep hlines hopen hentries hfree hunrung =>
      exact .asleep ⟨hasleep.listeners, hasleep.isOpen, hasleep.wake⟩ hlines hopen hentries hfree
        hunrung
    | rung hwake hrung h hdirective => exact .rung hwake hrung h hdirective
    | released hwake hunrung hreleased h => exact .released hwake hunrung hreleased h
  exact hb.foldl moment.isInCall _

end Guards

/-! ### Waits -/

/-- How the thread of the bench stands when a wait has ended: it is asleep only if nothing
    has woken it, and otherwise the input has ended or a directive was found. -/
def EndsAs : Except Halt Unit → Vigil → Prop
  | .error (.error .inputClosed), vigil => vigil = .ended
  | .error .blocked, vigil => ∃ channel, vigil = .sleeping channel
  | _, vigil => ∃ directive, vigil = .found directive

section Waits

variable {ε σ : Type} [Environment ε] {t : Threads} {b : Bench ε σ}

theorem extract_of_mirrors {inbox : Inbox Unit} (h : Mirrors t inbox) :
    t.inbox.extract wantsDirective = (.ok (inbox.lines.filter Line.isDirective),
      { t.inbox with lines := inbox.lines.filter fun line => !line.isDirective }) := by
  have hdivide : divide wantsDirective inbox.lines = _ := divide_ok Line.isDirective inbox.lines
  simp only [Inbox.extract, h.lines, hdivide]

/-- A search that comes upon a directive. -/
theorem steps_find (s : SimulatedTime) (h : Mirrors t b.inbox) (hvigil : t.vigil = .searching)
    (hsome : ∃ line ∈ (b.turn .access).inbox.lines, line.isDirective = true) :
    ∃ next result bnext directive, openWindow s b = (result, bnext) ∧ result ≠ .ok false ∧
      Steps t next ∧ next.vigil = .found directive ∧ Mirrors next bnext.inbox ∧
      EndsAs (result.map fun _ => ()) next.vigil := by
  rcases h.turn .access with ⟨t₁, hsteps, hsame, h₁⟩
  rcases hfilter : (b.turn .access).inbox.lines.filter Line.isDirective with _ | ⟨directive, rest⟩
  · rcases hsome with ⟨line, hline, hdirective⟩
    exact absurd hdirective (List.filter_eq_nil_iff.mp hfilter line hline)
  · have hextract := extract_of_mirrors h₁
    rw [hfilter] at hextract
    have hstep := Step.find (hsame.vigil.trans hvigil) hextract
    -- The vigil ends at the directive, whether or not it can be read and granted.
    cases hdelay : directive.delay? with
    | none =>
      rcases openWindow_of_malformed s hfilter hdelay with ⟨bnext, hwindow, -, -, hinbox⟩
      refine ⟨_, _, bnext, directive, hwindow, nofun, hsteps.tail hstep, rfl, ?_, ⟨directive, rfl⟩⟩
      rw [hinbox]
      exact ⟨rfl, h₁.closed, h₁.unheard, h₁.unheard', h₁.free⟩
    | some delay =>
      rcases openWindow_of_directive s hfilter hdelay with ⟨bnext, hwindow, -, -, hinbox⟩
      refine ⟨_, _, bnext, directive, hwindow, allowed_ne _, hsteps.tail hstep, rfl, ?_, ?_⟩
      · rw [hinbox]
        exact ⟨rfl, h₁.closed, h₁.unheard, h₁.unheard', h₁.free⟩
      · cases (s.grant delay).1 with
        | ok _ => exact ⟨directive, rfl⟩
        | error fault => exact ⟨directive, rfl⟩

/-- A search in vain. -/
theorem steps_miss (h : Mirrors t b.inbox) (hvigil : t.vigil = .searching)
    (hplain : ∀ line ∈ (b.turn .access).inbox.lines, line.isDirective = false) :
    ∃ next, Steps t next ∧ next.vigil = .registering ∧ Mirrors next (b.turn .access).inbox := by
  rcases h.turn .access with ⟨t₁, hsteps, hsame, h₁⟩
  have hnone : (b.turn .access).inbox.lines.filter Line.isDirective = [] := by
    rw [List.filter_eq_nil_iff]
    exact fun line hline => ne_true_of_eq_false (hplain line hline)
  have hall : (b.turn .access).inbox.lines.filter (fun line => !line.isDirective)
      = (b.turn .access).inbox.lines := by
    rw [List.filter_eq_self]
    intro line hline
    rw [hplain line hline]
    rfl
  have hextract := extract_of_mirrors h₁
  rw [hnone, hall] at hextract
  exact ⟨_, hsteps.tail (.miss (hsame.vigil.trans hvigil) hextract), rfl,
    rfl, h₁.closed, h₁.unheard, h₁.unheard', h₁.free⟩

/-- A registration that finds a directive rings at once, and the search is repeated. -/
theorem steps_satisfied {inbox : Inbox Unit} (h : Mirrors t inbox)
    (hvigil : t.vigil = .registering) (hany : inbox.lines.any Line.isDirective = true) :
    ∃ next, Steps t next ∧ next.vigil = .searching ∧ Mirrors next inbox := by
  have hwanted : anyWanted wantsDirective t.inbox.lines = .ok true := by
    rw [h.lines, ← hany]
    exact anyWanted_ok _ _
  have hregister : t.inbox.register ⟨wantsDirective, t.channels⟩ = .ok (.satisfied, t.inbox) := by
    unfold Inbox.register
    rw [hwanted]
    rfl
  let called : Threads := { t with
    vigil := .sleeping t.channels, channels := t.channels + 1
    duties := update t.duties none (calls [t.channels]) }
  have hstep : Step t called := .satisfied hvigil (h.free none) hregister
  rcases steps_call (t := called) rfl h.free with ⟨t₁, hsteps, hinbox, hsleeping, hrung, hfree⟩
  -- Registering, ringing, releasing and waking up, with nothing in between.
  refine ⟨_, (Relation.ReflTransGen.head hstep hsteps).tail
    (.wake hsleeping (hfree none) hrung), rfl, ?_, ?_, ?_, h.unheard', hfree⟩
  · rw [hinbox]
    exact h.lines
  · rw [hinbox]
    exact h.closed
  · rw [hinbox]
    exact h.unheard

/-- One that finds the inbox closed is released, and the input has ended. -/
theorem steps_refused {inbox : Inbox Unit} (ht : Sound t) (h : Mirrors t inbox)
    (hvigil : t.vigil = .registering) (hnone : inbox.lines.any Line.isDirective = false)
    (hclosed : inbox.closed = true) :
    ∃ next, Steps t next ∧ next.vigil = .ended ∧ Mirrors next inbox := by
  have hwanted : anyWanted wantsDirective t.inbox.lines = .ok false := by
    rw [h.lines, ← hnone]
    exact anyWanted_ok _ _
  have hregister : t.inbox.register ⟨wantsDirective, t.channels⟩ = .ok (.refused, t.inbox) := by
    unfold Inbox.register
    rw [hwanted]
    exact if_pos (h.closed.trans hclosed)
  let refused : Threads := { t with
    vigil := .sleeping t.channels, channels := t.channels + 1
    duties := update t.duties none [.release t.channels] }
  have hstep : Step t refused := .refused hvigil (h.free none) hregister
  rcases steps_release (t := refused) rfl h.free with
    ⟨t₁, hsteps, hinbox, hsleeping, hrung, hreleased, hfree⟩
  -- A channel just made has not been rung, and a refusal does not ring it.
  have hunrung : t₁.rung t.channels = false := by
    rw [hrung]
    exact (ht.fresh t.channels (Nat.le_refl _)).1
  refine ⟨_, (Relation.ReflTransGen.head hstep hsteps).tail
    (.giveUp hsleeping (hfree none) hunrung hreleased), rfl, ?_, ?_, ?_, h.unheard', hfree⟩
  · rw [hinbox]
    exact h.lines
  · rw [hinbox]
    exact h.closed
  · rw [hinbox]
    exact h.unheard

omit [Environment ε] in
/-- Any other is pending, and the threads guard the bench. -/
theorem steps_pending (ht : Sound t) (h : Mirrors t b.inbox) (hvigil : t.vigil = .registering)
    (hnone : b.inbox.lines.any Line.isDirective = false) (hopen : b.inbox.closed = false) :
    ∃ next, Steps t next ∧ next.vigil = .sleeping t.channels ∧
      Guards next t.channels b.listening := by
  have hwanted : anyWanted wantsDirective t.inbox.lines = .ok false := by
    rw [h.lines, ← hnone]
    exact anyWanted_ok _ _
  have hregister : t.inbox.register ⟨wantsDirective, t.channels⟩ = .ok (.pending, { t.inbox with
      listeners := t.inbox.listeners.insert ⟨wantsDirective, t.channels⟩ }) := by
    unfold Inbox.register
    rw [hwanted]
    exact if_neg (ne_true_of_eq_false (h.closed.trans hopen))
  rcases asleep_listening h.unheard' hopen with ⟨key, hasleep⟩
  rcases Slots.entries_insert t.inbox.listeners ⟨wantsDirective, t.channels⟩ with ⟨key', hperm⟩
  rw [h.unheard] at hperm
  exact ⟨_, .single (.pending hvigil (h.free none) hregister), rfl, .asleep hasleep h.lines
    (h.closed.trans hopen) (List.perm_singleton.mp hperm) h.free
    (ht.fresh t.channels (Nat.le_refl _)).1⟩

theorem Sound.steps {next : Threads} (ht : Sound t) (h : Steps t next) : Sound next := by
  induction h with
  | refl => exact ht
  | tail _ hstep ih => exact ih.step hstep

/-- The search after the bench has been woken is not in vain. -/
theorem steps_second {b₁ b₂ : Bench ε σ} (s : SimulatedTime) (h : Mirrors t b₂.inbox)
    (hvigil : t.vigil = .searching) (hsome : ∃ line ∈ b₂.inbox.lines, line.isDirective = true)
    (hsearch : openWindow s b = (.ok false, b₁)) (hlisten : listen b₁ = (.ok (), b₂)) :
    ∃ next, Steps t next ∧ EndsAs (waitForDelay s b).1 next.vigil ∧
      next.inbox.lines = (waitForDelay s b).2.inbox.lines ∧
      next.inbox.closed = (waitForDelay s b).2.inbox.closed := by
  -- No act takes a line away, so the directive is still there when the search begins.
  have hstill : ∃ line ∈ (b₂.turn .access).inbox.lines, line.isDirective = true := by
    rcases hsome with ⟨line, hline, hdirective⟩
    refine ⟨line, ?_, hdirective⟩
    rw [inbox_turn]
    exact Inbox.mem_after _ hline
  rcases steps_find s h hvigil hstill with
    ⟨next, result, bnext, directive, hwindow, hfound, hsteps, -, hmirrors, hends⟩
  rw [waitForDelay_of_rung hsearch hlisten hwindow hfound]
  exact ⟨next, hsteps, hends, hmirrors.lines, hmirrors.closed⟩

/-- A wait of a bench is a sequence of steps of the threads around it, and it ends as the
    vigil of its own thread does. -/
theorem steps_waitForDelay (s : SimulatedTime) (ht : Sound t) (h : Mirrors t b.inbox)
    (hvigil : t.vigil = .searching) :
    ∃ next, Steps t next ∧ EndsAs (waitForDelay s b).1 next.vigil ∧
      next.inbox.lines = (waitForDelay s b).2.inbox.lines ∧
      next.inbox.closed = (waitForDelay s b).2.inbox.closed := by
  by_cases hfirst : ∃ line ∈ (b.turn .access).inbox.lines, line.isDirective = true
  · rcases steps_find s h hvigil hfirst with
      ⟨next, result, bnext, directive, hwindow, hfound, hsteps, -, hmirrors, hends⟩
    rw [waitForDelay_of_found hwindow hfound]
    exact ⟨next, hsteps, hends, hmirrors.lines, hmirrors.closed⟩
  · -- The search is in vain, and the bench goes on to register.
    have hplain : ∀ line ∈ (b.turn .access).inbox.lines, line.isDirective = false := by
      intro line hline
      exact eq_false_of_ne_true fun hdirective => hfirst ⟨line, hline, hdirective⟩
    have hsearch := openWindow_of_none s hplain
    rcases steps_miss h hvigil hplain with ⟨t₁, hsteps₁, hvigil₁, h₁⟩
    rcases h₁.turn .access with ⟨t₂, hsteps₂, hsame₂, h₂⟩
    have ht₂ : Sound t₂ := (ht.steps hsteps₁).steps hsteps₂
    have hvigil₂ : t₂.vigil = .registering := hsame₂.vigil.trans hvigil₁
    -- Between the search and the registration the environment has had another turn.
    cases hany : ((b.turn .access).turn .access).inbox.lines.any Line.isDirective with
    | true =>
      rcases steps_satisfied h₂ hvigil₂ hany with ⟨t₃, hsteps₃, hvigil₃, h₃⟩
      let woken : Bench ε σ := { (b.turn .access).turn .access with wake := .asleep }
      have hwoken : Mirrors t₃ woken.inbox := h₃
      rcases steps_second s hwoken hvigil₃ (List.any_eq_true.mp hany) hsearch
        (listen_of_satisfied hany) with ⟨next, hsteps, hends, hlines, hclosed⟩
      exact ⟨next, ((hsteps₁.trans hsteps₂).trans hsteps₃).trans hsteps, hends, hlines, hclosed⟩
    | false =>
      cases hclosed : ((b.turn .access).turn .access).inbox.closed with
      | true =>
        rcases steps_refused ht₂ h₂ hvigil₂ hany hclosed with ⟨next, hsteps, hended, hmirrors⟩
        rw [waitForDelay_of_closed hsearch (listen_of_refused hany hclosed)]
        exact ⟨next, (hsteps₁.trans hsteps₂).trans hsteps, hended, hmirrors.lines, hmirrors.closed⟩
      | false =>
        rcases steps_pending ht₂ h₂ hvigil₂ hany hclosed with ⟨t₃, hsteps₃, hvigil₃, hguards⟩
        rcases hguards.turn .waiting with ⟨t₄, hsteps₄, hvigil₄, h₄⟩
        have hsteps := ((hsteps₁.trans hsteps₂).trans hsteps₃).trans hsteps₄
        have hsleeping := hvigil₄.trans hvigil₃
        have hlisten := listen_of_pending hany hclosed
        -- What the environment did meanwhile decides how the bench finds its channel.
        cases h₄ with
        | @asleep key key' hasleep hlines hopen hentries hfree hunrung =>
          simp only [hasleep.wake] at hlisten
          rw [waitForDelay_of_closed hsearch hlisten]
          exact ⟨t₄, hsteps, ⟨_, hsleeping⟩, hlines, hopen.trans hasleep.isOpen.symm⟩
        | rung hwake hrung h₄ hdirective =>
          simp only [hwake] at hlisten
          have hstep := Step.wake hsleeping (h₄.free none) hrung
          have hnext : Mirrors { t₄ with vigil := .searching }
              (((b.turn .access).turn .access).listening.turn .waiting).inbox :=
            ⟨h₄.lines, h₄.closed, h₄.unheard, h₄.unheard', h₄.free⟩
          rcases steps_second s hnext rfl hdirective hsearch hlisten with
            ⟨next, hrest, hends, hlines, hclosed⟩
          exact ⟨next, (hsteps.tail hstep).trans hrest, hends, hlines, hclosed⟩
        | released hwake hunrung hreleased h₄ =>
          simp only [hwake] at hlisten
          have hstep := Step.giveUp hsleeping (h₄.free none) hunrung hreleased
          rw [waitForDelay_of_closed hsearch hlisten]
          exact ⟨_, hsteps.tail hstep, rfl, h₄.lines, h₄.closed⟩

end Waits

end Threads

namespace Bench

variable {ε σ : Type} [Environment ε]

/-- Whatever the environment does, a bench takes the input to have ended only if its inbox
    is closed and holds no directive. -/
theorem inbox_of_inputClosed {s : SimulatedTime} {b next : Bench ε σ}
    (hunheard : b.inbox.listeners.entries = [])
    (h : waitForDelay s b = (.error (.error .inputClosed), next)) :
    next.inbox.closed = true ∧ ∀ line ∈ next.inbox.lines, line.isDirective = false := by
  -- The threads are started at the lines of the inbox, with nobody having done anything.
  have hmirrors : Threads.Mirrors (Threads.initial b.inbox.lines b.inbox.closed) b.inbox :=
    ⟨rfl, rfl, rfl, hunheard, fun _ => rfl⟩
  rcases Threads.steps_waitForDelay s (Threads.sound_initial _ _) hmirrors rfl with
    ⟨t, hsteps, hends, hlines, hclosed⟩
  have ht : Threads.Sound t := Threads.Sound.steps (Threads.sound_initial _ _) hsteps
  rw [h] at hends hlines hclosed
  have hover := ht.ended hends
  rw [← hlines, ← hclosed]
  exact hover

end Bench

end Testbench
