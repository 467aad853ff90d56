import Testbench.Proofs.Waiting

/-!
# A Bench Asleep

What the acts of an environment do to a bench whose listener is pending, and to one
that has none. The listener is the only one, and it asks for directives. Other lines
pass it by; a directive calls it and the end of the input gives it up, and from then on
no act can wake the bench again.

## Main definitions

* `Bench.Asleep`: The listener of the bench is pending.

## Theorems

* `Inbox.push_plain`, `Inbox.push_directive`: A push when the bench listens.
* `Bench.asleep_listening`: A bench is asleep once it has registered.
* `Bench.wake_receive`, `Bench.wake_foldl`: Without a listener nothing wakes a bench.
* `Bench.receive_plain`: Lines that are no directives do not wake it.
* `Bench.receive_directive`, `Bench.receive_close`: What does.
* `Bench.foldl_woken`: The acts up to the directive, all at once.
-/

namespace Testbench

namespace Inbox

variable {κ : Type} {inbox : Inbox κ} {key : Nat} {callback : κ} {line : Line}

theorem push_plain
    (hlisteners : inbox.listeners.entries = [(key, ⟨Bench.wantsDirective, callback⟩)])
    (hopen : inbox.closed = false) (hplain : line.isDirective = false) :
    inbox.push line = .ok (.held [], { inbox with lines := inbox.lines ++ [line] }) := by
  have hwanting : wanting line inbox.listeners.entries = .ok [] := by
    rw [hlisteners, wanting, wanting]
    simp only [Bench.wantsDirective, hplain]
    rfl
  unfold push
  rw [if_neg (ne_true_of_eq_false hopen), hwanting]
  rfl

theorem push_directive
    (hlisteners : inbox.listeners.entries = [(key, ⟨Bench.wantsDirective, callback⟩)])
    (hopen : inbox.closed = false) (hdirective : line.isDirective = true) :
    ∃ next, inbox.push line = .ok (.held [callback], next) ∧ next.listeners.entries = [] ∧
      next.closed = false ∧ next.lines = inbox.lines ++ [line] := by
  -- The listener of the bench is the only one, so it is all that wants the line.
  have hwanting : wanting line inbox.listeners.entries = .ok inbox.listeners.entries := by
    rw [hlisteners, wanting, wanting]
    simp only [Bench.wantsDirective, hdirective]
    rfl
  have haccepts : (⟨Bench.wantsDirective, callback⟩ : Listener κ).accepts line = true := hdirective
  rcases hpush : inbox.push line with fault | ⟨_ | due, next⟩
  · unfold push at hpush
    rw [if_neg (ne_true_of_eq_false hopen), hwanting] at hpush
    cases hpush
  · exact absurd (push_eq_discarded hpush).1 (ne_true_of_eq_false hopen)
  · rcases push_eq_held hpush with ⟨-, hstill, hlines, hremaining, hdue⟩
    rw [hlisteners] at hremaining hdue
    simp only [List.filter_cons, haccepts, Bool.not_true, Bool.false_eq_true, if_false, if_true,
      List.filter_nil, List.map_cons, List.map_nil] at hremaining hdue
    exact ⟨next, by rw [hdue], hremaining, hstill, hlines⟩

end Inbox

namespace Bench

variable {ε σ : Type}

/-- The listener of the bench is pending. -/
structure Asleep (b : Bench ε σ) (key : Nat) : Prop where
  listeners : b.inbox.listeners.entries = [(key, ⟨wantsDirective, ()⟩)]
  isOpen : b.inbox.closed = false
  wake : b.wake = .asleep

theorem asleep_listening {b : Bench ε σ} (hunheard : b.inbox.listeners.entries = [])
    (hopen : b.inbox.closed = false) : ∃ key, Asleep b.listening key := by
  -- The slot of the new listener is not known, but there is no other one.
  rcases Slots.entries_insert b.inbox.listeners ⟨wantsDirective, ()⟩ with ⟨key, hperm⟩
  rw [hunheard] at hperm
  exact ⟨key, List.perm_singleton.mp hperm, hopen, rfl⟩

-- Without a listener no act has anything to call, and none brings a listener in.
theorem wake_receive (inCall : Bool) (act : Act) {b : Bench ε σ}
    (h : b.inbox.listeners.entries = []) :
    (b.receive inCall act).wake = b.wake ∧
      (b.receive inCall act).inbox.listeners.entries = [] := by
  cases act with
  | push line =>
    rcases hpush : b.inbox.push line with fault | ⟨_ | due, inbox⟩
    · simp only [receive, hpush, h, and_self]
    · simp only [receive, hpush]
      split
      · exact ⟨rfl, h⟩
      · exact ⟨rfl, h⟩
    · rcases Inbox.push_eq_held hpush with ⟨-, -, -, hlisteners, hdue⟩
      rw [h] at hlisteners hdue
      have hnone : due.isEmpty = true := by rw [hdue]; rfl
      simp only [receive, hpush, hnone, if_true, true_and]
      exact hlisteners
  | close =>
    have hnone : b.inbox.close.1 = [] := by rw [Inbox.close, Slots.values, h]; rfl
    simp only [receive, hnone, List.isEmpty_nil, if_true, true_and]
    rfl
  | elapse duration =>
    simp only [receive]
    split
    · exact ⟨rfl, h⟩
    · exact ⟨rfl, h⟩

theorem wake_foldl (inCall : Bool) (acts : List Act) {b : Bench ε σ}
    (h : b.inbox.listeners.entries = []) : (acts.foldl (receive inCall) b).wake = b.wake := by
  induction acts generalizing b with
  | nil => rfl
  | cons act acts ih =>
    rcases wake_receive inCall act h with ⟨hwake, hunheard⟩
    rw [List.foldl_cons, ih hunheard, hwake]

/-- Lines that are no directives do not wake a bench. -/
theorem receive_plain (inCall : Bool) {b : Bench ε σ} {key : Nat} {line : Line}
    (hb : Asleep b key) (hplain : line.isDirective = false) :
    b.receive inCall (.push line)
      = { b with inbox := { b.inbox with lines := b.inbox.lines ++ [line] } } := by
  simp only [receive, Inbox.push_plain hb.listeners hb.isOpen hplain, List.isEmpty_nil, if_true]

theorem foldl_plain (inCall : Bool) (lines : List Line) {b : Bench ε σ} {key : Nat}
    (hb : Asleep b key) (hplain : ∀ line ∈ lines, line.isDirective = false) :
    (lines.map Act.push).foldl (receive inCall) b
      = { b with inbox := { b.inbox with lines := b.inbox.lines ++ lines } } := by
  induction lines generalizing b with
  | nil => rw [List.map_nil, List.foldl_nil, List.append_nil]
  | cons line lines ih =>
    have hfirst := receive_plain inCall hb (hplain line List.mem_cons_self)
    -- The bench sleeps on, so the induction hypothesis applies to what is left.
    have hnext : Asleep (b.receive inCall (.push line)) key := by
      rw [hfirst]
      exact ⟨hb.listeners, hb.isOpen, hb.wake⟩
    rw [List.map_cons, List.foldl_cons, ih hnext fun other hother =>
      hplain other (List.mem_cons_of_mem line hother), hfirst]
    simp only [List.append_assoc, List.singleton_append]

/-- A directive wakes it. -/
theorem receive_directive (inCall : Bool) {b : Bench ε σ} {key : Nat} {line : Line}
    (hb : Asleep b key) (hdirective : line.isDirective = true) :
    (b.receive inCall (.push line)).wake = .rung ∧
      (b.receive inCall (.push line)).inbox.listeners.entries = [] ∧
      (b.receive inCall (.push line)).inbox.closed = false ∧
      (b.receive inCall (.push line)).inbox.lines = b.inbox.lines ++ [line] := by
  rcases Inbox.push_directive hb.listeners hb.isOpen hdirective with
    ⟨next, hpush, hlisteners, hopen, hlines⟩
  simp only [receive, hpush, List.isEmpty_cons, Bool.false_eq_true, if_false, hb.wake]
  exact ⟨rfl, hlisteners, hopen, hlines⟩

/-- The end of the input releases it. -/
theorem receive_close (inCall : Bool) {b : Bench ε σ} {key : Nat} (hb : Asleep b key) :
    (b.receive inCall .close).wake = .released ∧
      (b.receive inCall .close).inbox.listeners.entries = [] := by
  have hsome : b.inbox.close.1.isEmpty = false := by
    unfold Inbox.close
    rw [Slots.values, hb.listeners]
    rfl
  simp only [receive, hsome, Bool.false_eq_true, if_false, hb.wake]
  exact ⟨rfl, rfl⟩

/-- Whatever comes before it. -/
theorem foldl_woken (inCall : Bool) {b : Bench ε σ} {key : Nat} {plain : List Line}
    {directive : Line} (hb : Asleep b key) (hplain : ∀ line ∈ plain, line.isDirective = false)
    (hdirective : directive.isDirective = true) :
    let woken := ((plain ++ [directive]).map Act.push).foldl (receive inCall) b
    woken.wake = .rung ∧ woken.inbox.listeners.entries = [] ∧ woken.inbox.closed = false ∧
      woken.inbox.lines = b.inbox.lines ++ (plain ++ [directive]) := by
  have hplains := foldl_plain inCall plain hb hplain
  have hasleep : Asleep ((plain.map Act.push).foldl (receive inCall) b) key := by
    rw [hplains]
    exact ⟨hb.listeners, hb.isOpen, hb.wake⟩
  rcases receive_directive inCall hasleep hdirective with ⟨hrung, hunheard, hopen, hlines⟩
  intro woken
  have hwoken : woken = ((plain.map Act.push).foldl (receive inCall) b).receive inCall
      (.push directive) := by
    change ((plain ++ [directive]).map Act.push).foldl (receive inCall) b = _
    rw [List.map_append, List.foldl_append]
    rfl
  rw [hwoken]
  refine ⟨hrung, hunheard, hopen, ?_⟩
  rw [hlines, hplains, List.append_assoc]

end Bench

end Testbench
