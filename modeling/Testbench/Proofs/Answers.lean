import Testbench.Proofs.Listeners
import Testbench.Proofs.Waiting

/-!
# Predicates with an Answer for Every Line

A predicate may be broken for some lines, and most of what can go wrong with an inbox
comes from that. Where every predicate has an answer the operations are as simple as
they look: an open inbox accepts every line, an extraction divides the lines, and a
registration ends in one of three ways, which the lines held and the end of the input
decide between them.

## Main definitions

* `IsTotal`: The predicate has an answer for every line.
* `wantedBy`: The answer of a predicate, where it has one.

## Theorems

* `IsTotal.extract_eq`: An extraction divides the lines.
* `Inbox.push_of_answers`: An open inbox accepts the line.
* `IsTotal.register_cases`: How a registration ends.
* `Bench.listen_cases`: The same for the listener of the bench.
-/

namespace Testbench

def IsTotal (wants : Predicate) : Prop := ∀ line, ∃ wanted, wants line = .ok wanted

/-- A line for which the predicate has no answer is not wanted. -/
def wantedBy (wants : Predicate) (line : Line) : Bool :=
  match wants line with
  | .ok wanted => wanted
  | .error _ => false

theorem IsTotal.eq_ok {wants : Predicate} (h : IsTotal wants) :
    wants = fun line => .ok (wantedBy wants line) := by
  funext line
  rcases h line with ⟨wanted, hwanted⟩
  rw [wantedBy, hwanted]

variable {κ : Type}

theorem IsTotal.extract_eq {wants : Predicate} (h : IsTotal wants) (inbox : Inbox κ) :
    inbox.extract wants = (.ok (inbox.lines.filter (wantedBy wants)),
      { inbox with lines := inbox.lines.filter fun line => !wantedBy wants line }) := by
  have hdivide : divide wants inbox.lines = .ok (inbox.lines.filter (wantedBy wants),
      inbox.lines.filter fun line => !wantedBy wants line) := by
    rw [← divide_ok (wantedBy wants), ← h.eq_ok]
  simp only [Inbox.extract, hdivide]

/-- The lines held decide first, and then the end of the input. -/
theorem IsTotal.register_cases {listener : Listener κ} (h : IsTotal listener.wants)
    (inbox : Inbox κ) :
    (inbox.lines.any (wantedBy listener.wants) = true ∧
      inbox.register listener = .ok (.satisfied, inbox)) ∨
    (inbox.lines.any (wantedBy listener.wants) = false ∧ inbox.closed = true ∧
      inbox.register listener = .ok (.refused, inbox)) ∨
    (inbox.lines.any (wantedBy listener.wants) = false ∧ inbox.closed = false ∧
      inbox.register listener
        = .ok (.pending, { inbox with listeners := inbox.listeners.insert listener })) := by
  have hany : anyWanted listener.wants inbox.lines
      = .ok (inbox.lines.any (wantedBy listener.wants)) := by
    rw [← anyWanted_ok (wantedBy listener.wants), ← h.eq_ok]
  unfold Inbox.register
  rw [hany]
  cases inbox.lines.any (wantedBy listener.wants) with
  | true => exact .inl ⟨rfl, rfl⟩
  | false =>
    rcases inbox with ⟨lines, listeners, _ | _⟩
    · exact .inr (.inr ⟨rfl, rfl, rfl⟩)
    · exact .inr (.inl ⟨rfl, rfl, rfl⟩)

theorem wanting_of_answers {line : Line} {entries : List (Nat × Listener κ)}
    (h : ∀ entry ∈ entries, ∃ wanted, entry.2.wants line = .ok wanted) :
    ∃ chosen, wanting line entries = .ok chosen := by
  induction entries with
  | nil => exact ⟨[], rfl⟩
  | cons entry rest ih =>
    rcases h entry List.mem_cons_self with ⟨wanted, hwanted⟩
    rcases ih fun other hother => h other (List.mem_cons_of_mem entry hother) with
      ⟨others, hothers⟩
    unfold wanting
    rw [hwanted, hothers]
    exact ⟨_, rfl⟩

theorem Inbox.push_of_closed {inbox : Inbox κ} (line : Line) (hclosed : inbox.closed = true) :
    inbox.push line = .ok (.discarded, inbox) := by
  unfold push
  rw [if_pos hclosed]

theorem Inbox.push_of_answers {inbox : Inbox κ} {line : Line} (hopen : inbox.closed = false)
    (h : ∀ listener ∈ inbox.listeners.values, ∃ wanted, listener.wants line = .ok wanted) :
    ∃ due next, inbox.push line = .ok (.held due, next) := by
  have hentries : ∀ entry ∈ inbox.listeners.entries, ∃ wanted, entry.2.wants line = .ok wanted :=
    fun entry hentry => h entry.2 (List.mem_map_of_mem hentry)
  rcases wanting_of_answers hentries with ⟨chosen, hchosen⟩
  unfold push
  rw [if_neg (ne_true_of_eq_false hopen), hchosen]
  exact ⟨_, _, rfl⟩

/-- The listener of the bench is refused, or satisfied, or waits for the environment. -/
theorem Bench.listen_cases {ε σ : Type} [Environment ε] (b : Bench ε σ) :
    ((b.turn .access).inbox.register ⟨wantsDirective, ()⟩
        = .ok (.satisfied, (b.turn .access).inbox) ∧
      listen b = (.ok (), { b.turn .access with wake := .asleep })) ∨
    ((b.turn .access).inbox.register ⟨wantsDirective, ()⟩
        = .ok (.refused, (b.turn .access).inbox) ∧
      listen b = (.error (.error .inputClosed), { b.turn .access with wake := .asleep })) ∨
    ((b.turn .access).inbox.register ⟨wantsDirective, ()⟩
        = .ok (.pending, (b.turn .access).listening.inbox) ∧
      ∃ result, (∀ fault, result ≠ .error (.fault fault)) ∧
        listen b = (result, (b.turn .access).listening.turn .waiting)) := by
  have htotal : IsTotal (Listener.mk wantsDirective ()).wants := fun line => ⟨_, rfl⟩
  rcases htotal.register_cases (b.turn .access).inbox with ⟨hany, hregister⟩ |
    ⟨hany, hclosed, hregister⟩ | ⟨hany, hopen, hregister⟩
  · exact .inl ⟨hregister, listen_of_satisfied hany⟩
  · exact .inr (.inl ⟨hregister, listen_of_refused hany hclosed⟩)
  · refine .inr (.inr ⟨hregister, _, ?_, listen_of_pending hany hopen⟩)
    intro fault
    cases ((b.turn .access).listening.turn .waiting).wake with
    | rung | released | asleep => simp

end Testbench
