import Testbench.Proofs.Answers
import Testbench.Proofs.OnRecord

/-!
# Every Line in One Place

Lines are numbered as they are accepted, so that equal lines can be told apart. From
then on a line has been read, or it has been extracted, or it is still held, and never
two of these. The ledger keeps the three places. It moves a line as the inbox does: a
read takes the first line held, and an extraction all lines held that are wanted.

What makes this more than bookkeeping is that the lines held in the ledger are those of
the inbox, in its order, and that the replies of the exchange are the lines that the
ledger moves. So an extraction from the middle leaves the numbers of what was read and
of what is still held in increasing order, with no gap but for lines that have been
extracted.

Nothing is asked of the predicates of listeners, nor of callbacks: a push that fails is
not accepted, and a callback that fails has changed nothing by that. The predicate of an
extraction must have an answer for every line, or lines are lost.

## Main definitions

* `Numbered`: A line with the number of its arrival.
* `Ledger`: Where every line is that was accepted.
* `Ledger.enter`: What a step of an exchange moves.
* `Ledger.Accounts`: The ledger is in agreement with an inbox.
* `Action.ExtractsSafely`: An extraction has an answer for every line.

## Theorems

* `Ledger.Accounts.enter`: Every step keeps the ledger in agreement.
* `Ledger.notTaken_eq`: What was read and what is held is all that was not extracted.
* `OnRecord.accepted_of_closed`: After the end of the input no line is accepted.
* `OnRecord.lines_are_conserved`: Where the lines of an exchange are, and how they move.
-/

namespace Testbench

/-! ### Numbers -/

structure Numbered where
  number : Nat
  line : Line
  deriving DecidableEq

/-- The lines, numbered in order. -/
def numbered (lines : List Line) : List Numbered := lines.zipIdx.map fun e => ⟨e.2, e.1⟩

theorem numbered_append_singleton (lines : List Line) (line : Line) :
    numbered (lines ++ [line]) = numbered lines ++ [⟨lines.length, line⟩] := by
  unfold numbered
  rw [List.zipIdx_append, List.map_append, Nat.zero_add]
  rfl

theorem map_number_numbered (lines : List Line) :
    (numbered lines).map Numbered.number = List.range lines.length := by
  rw [numbered, List.map_map, List.range_eq_range']
  exact List.zipIdx_map_snd 0 lines

theorem number_lt_of_mem {lines : List Line} {n : Numbered} (h : n ∈ numbered lines) :
    n.number < lines.length := by
  rw [← List.mem_range, ← map_number_numbered]
  exact List.mem_map_of_mem h

theorem pairwise_numbered (lines : List Line) :
    (numbered lines).Pairwise fun m n => m.number < n.number := by
  rw [← List.pairwise_map, map_number_numbered]
  exact List.pairwise_lt_range

/-- The predicate of an extraction has an answer for every line. -/
def Action.ExtractsSafely : Action → Prop
  | .extract wants => IsTotal wants
  | _ => True

/-! ### The ledger -/

structure Ledger where
  /-- Oldest first. A line's number is its place in this list. -/
  accepted : List Line
  held : List Numbered
  /-- In the order of the reads. -/
  read : List Numbered
  /-- One list for each extraction, in the order of the extractions. -/
  taken : List (List Numbered)

namespace Ledger

def blank : Ledger := ⟨[], [], [], []⟩

def accept (g : Ledger) (line : Line) : Ledger :=
  { g with
    accepted := g.accepted ++ [line]
    held := g.held ++ [⟨g.accepted.length, line⟩] }

def readFirst (g : Ledger) : Ledger :=
  match g.held with
  | [] => g
  | first :: rest => { g with held := rest, read := g.read ++ [first] }

def take (g : Ledger) (wants : Predicate) : Ledger :=
  { g with
    held := g.held.filter fun n => !wantedBy wants n.line
    taken := g.taken ++ [g.held.filter fun n => wantedBy wants n.line] }

/-- Enters the next step of the exchange. -/
def enter (x : Exchange) (g : Ledger) : Ledger :=
  match x.tasks with
  | .push line :: _ =>
    match x.inbox.push line with
    | .ok (.held _, _) => g.accept line
    | _ => g
  | .perform _ .read :: _ => g.readFirst
  | .perform _ (.extract wants) :: _ => g.take wants
  | _ => g

structure Accounts (g : Ledger) (inbox : Inbox Callback) : Prop where
  lines : g.held.map Numbered.line = inbox.lines
  inOrder : (g.read ++ g.held).Pairwise fun m n => m.number < n.number
  complete : (g.read ++ g.taken.flatten ++ g.held).Perm (numbered g.accepted)

theorem accounts_blank : blank.Accounts Inbox.empty :=
  ⟨rfl, List.Pairwise.nil, List.Perm.refl _⟩

namespace Accounts

variable {g : Ledger} {inbox next : Inbox Callback}

/-- Only the lines of the inbox count. -/
theorem sameLines (h : g.Accounts inbox) (hlines : next.lines = inbox.lines) : g.Accounts next :=
  ⟨h.lines.trans hlines.symm, h.inOrder, h.complete⟩

theorem accept (h : g.Accounts inbox) {line : Line} (hlines : next.lines = inbox.lines ++ [line]) :
    (g.accept line).Accounts next := by
  refine ⟨?_, ?_, ?_⟩
  · rw [hlines, ← h.lines, Ledger.accept, List.map_append]
    rfl
  · -- The new number is larger than all that were given out before.
    simp only [Ledger.accept]
    rw [← List.append_assoc, List.pairwise_append]
    refine ⟨h.inOrder, List.pairwise_singleton _ _, ?_⟩
    intro m hm n hn
    rw [List.mem_singleton.mp hn]
    refine number_lt_of_mem (h.complete.mem_iff.mp ?_)
    rcases List.mem_append.mp hm with hread | hheld
    · exact List.mem_append_left _ (List.mem_append_left _ hread)
    · exact List.mem_append_right _ hheld
  · simp only [Ledger.accept]
    rw [numbered_append_singleton, ← List.append_assoc]
    exact h.complete.append_right _

theorem readFirst (h : g.Accounts inbox) {first : Line} {rest : List Line}
    (hlines : inbox.lines = first :: rest) :
    ∃ n later, g.held = n :: later ∧ n.line = first ∧
      g.readFirst = { g with held := later, read := g.read ++ [n] } ∧
      g.readFirst.Accounts { inbox with lines := rest } := by
  have hheld := h.lines.trans hlines
  rcases g with ⟨accepted, _ | ⟨n, later⟩, read, taken⟩
  · exact absurd hheld nofun
  · rw [List.map_cons, List.cons.injEq] at hheld
    refine ⟨n, later, rfl, hheld.1, rfl, hheld.2, ?_, ?_⟩
    · have horder := h.inOrder
      rw [List.append_cons] at horder
      exact horder
    · -- The line moves from the front of the one list to the end of the other.
      refine List.Perm.trans ?_ h.complete
      simp only [Ledger.readFirst, List.append_assoc, List.singleton_append]
      exact (List.perm_middle.symm).append_left read

theorem take (h : g.Accounts inbox) (wants : Predicate) :
    (g.take wants).Accounts
      { inbox with lines := inbox.lines.filter fun line => !wantedBy wants line } := by
  refine ⟨?_, ?_, ?_⟩
  · simp only [Ledger.take]
    rw [← h.lines, List.filter_map]
    rfl
  · refine h.inOrder.sublist ?_
    exact List.Sublist.append_left List.filter_sublist g.read
  · -- What was held is divided between what is taken and what is kept.
    refine List.Perm.trans ?_ h.complete
    simp only [Ledger.take, List.flatten_append, List.flatten_singleton, List.append_assoc]
    refine List.Perm.append_left _ (List.Perm.append_left _ ?_)
    exact List.filter_append_perm (fun n => wantedBy wants n.line) g.held

end Accounts

end Ledger

/-! ### Steps -/

namespace Exchange

theorem lines_register (x : Exchange) (owner : Option String) (wants : Predicate)
    (callback : Callback) : (x.register owner wants callback).inbox.lines = x.inbox.lines := by
  rcases hregister : x.inbox.register ⟨wants, callback⟩ with fault | ⟨_ | _ | _, inbox⟩
  · simp only [register, hregister]
    rfl
  · simp only [register, hregister]
    rfl
  · simp only [register, hregister]
    rfl
  · rcases Inbox.register_eq_pending hregister with ⟨-, -, rfl⟩
    simp only [register, hregister]
    rfl

end Exchange

namespace Ledger

variable {x : Exchange} {g : Ledger}

theorem Accounts.push (h : g.Accounts x.inbox) {line : Line} {rest : List Task}
    (htasks : x.tasks = .push line :: rest) : (g.enter x).Accounts x.step.inbox := by
  rcases hpush : x.inbox.push line with fault | ⟨_ | due, inbox⟩
  · simp only [enter, Exchange.step, Exchange.push, htasks, hpush]
    exact h
  · simp only [enter, Exchange.step, Exchange.push, htasks, hpush]
    exact h
  · simp only [enter, Exchange.step, Exchange.push, htasks, hpush]
    exact h.accept (Inbox.push_eq_held hpush).2.2.1

theorem Accounts.perform (h : g.Accounts x.inbox) {owner : Option String} {action : Action}
    {rest : List Task} (haction : action.ExtractsSafely)
    (htasks : x.tasks = .perform owner action :: rest) : (g.enter x).Accounts x.step.inbox := by
  cases action with
  | push line | pushAll lines | close | ready | inspect | unknown | fail =>
    simp only [enter, Exchange.step, htasks]
    exact h.sameLines rfl
  | read =>
    simp only [enter, Exchange.step, Exchange.perform, Inbox.read?, htasks]
    cases hlines : x.inbox.lines with
    | nil =>
      have hheld : g.held = [] := List.map_eq_nil_iff.mp (h.lines.trans hlines)
      simp only [Ledger.readFirst, hheld]
      exact h
    | cons first later =>
      rcases h.readFirst hlines with ⟨-, -, -, -, -, hnext⟩
      exact hnext
  | extract wants =>
    have htotal : IsTotal wants := haction
    simp only [enter, Exchange.step, Exchange.perform, Exchange.extract, htasks,
      htotal.extract_eq]
    exact h.take wants
  | register name wants program =>
    simp only [enter, Exchange.step, htasks]
    exact h.sameLines (Exchange.lines_register _ owner wants ⟨name, program⟩)

/-- Every step keeps the ledger in agreement with the inbox. -/
theorem Accounts.enter (h : g.Accounts x.inbox) (hx : x.MadeOf Action.ExtractsSafely) :
    (g.enter x).Accounts x.step.inbox := by
  rcases htasks : x.tasks with _ | ⟨task, rest⟩
  · simp only [Ledger.enter, Exchange.step, htasks]
    exact h
  · cases task with
    | perform owner action =>
      have haction : action.Throughout Action.ExtractsSafely := hx.head htasks
      exact h.perform haction.here htasks
    | push line => exact h.push htasks
    | call callback =>
      simp only [Ledger.enter, Exchange.step, htasks]
      exact h
    | reply owner reply =>
      simp only [Ledger.enter, Exchange.step, htasks]
      cases owner with
      | none => exact h
      | some name => exact h

/-- What was read and what is held is all that was not extracted. -/
theorem notTaken_eq {inbox : Inbox Callback} (h : g.Accounts inbox) :
    g.read ++ g.held = (numbered g.accepted).filter fun n => n ∉ g.taken.flatten := by
  have hnodup : (g.read ++ g.taken.flatten ++ g.held).Nodup :=
    h.complete.nodup_iff.mpr ((pairwise_numbered g.accepted).imp fun hlt heq => by
      rw [heq] at hlt
      exact Nat.lt_irrefl _ hlt)
  rw [List.nodup_append, List.nodup_append] at hnodup
  rcases hnodup with ⟨⟨-, -, hread⟩, -, hheld⟩
  have hkept : (g.read ++ g.taken.flatten ++ g.held).filter (fun n => n ∉ g.taken.flatten)
      = g.read ++ g.held := by
    rw [List.filter_append, List.filter_append]
    have hnone : g.taken.flatten.filter (fun n => n ∉ g.taken.flatten) = [] := by
      rw [List.filter_eq_nil_iff]
      intro n hn
      rw [decide_eq_true_iff]
      exact not_not_intro hn
    rw [hnone, List.append_nil, List.filter_eq_self.mpr, List.filter_eq_self.mpr]
    · intro n hn
      rw [decide_eq_true_iff]
      exact fun htaken => hheld n (List.mem_append_right _ htaken) n hn rfl
    · intro n hn
      rw [decide_eq_true_iff]
      exact fun htaken => hread n hn n htaken rfl
  -- Both sides are in increasing order, so it is enough that they have the same lines.
  refine List.Perm.eq_of_pairwise ?_ h.inOrder ((pairwise_numbered g.accepted).filter _) ?_
  · intro m n _ _ hmn hnm
    exact absurd hmn (Nat.lt_asymm hnm)
  · rw [← hkept]
    exact h.complete.filter _

/-- A closed inbox accepts nothing. -/
theorem accepted_enter (g : Ledger) (hclosed : x.inbox.closed = true) :
    (g.enter x).accepted = g.accepted := by
  unfold enter
  split
  · next line _ _ =>
    split
    · next hpush =>
      exact absurd hclosed (ne_true_of_eq_false (Inbox.push_eq_held hpush).1)
    · rfl
  · unfold readFirst
    split <;> rfl
  · rfl
  · rfl

end Ledger

/-! ### Exchanges with a ledger -/

namespace OnRecord

/-- An exchange whose lines are kept in a ledger, from a new inbox onwards. -/
abbrev HasLedger (k : OnRecord Ledger) : Prop :=
  Reachable Action.ExtractsSafely Ledger.enter Ledger.blank k

variable {k : OnRecord Ledger}

theorem HasLedger.accounts (h : HasLedger k) : k.record.Accounts k.exchange.inbox := by
  rcases h with ⟨journal, hlater⟩
  induction hlater with
  | refl => exact Ledger.accounts_blank
  | tail hbefore hmove ih =>
    cases hmove with
    | step => exact ih.enter (Reachable.madeOf ⟨journal, hbefore⟩)
    | ask action hidle _ => exact ih

theorem accepted_of_closed {later : OnRecord Ledger}
    (h : Later Action.ExtractsSafely Ledger.enter k later)
    (hclosed : k.exchange.inbox.closed = true) : later.record.accepted = k.record.accepted := by
  induction h with
  | refl => rfl
  | tail hbefore hmove ih =>
    have hstill := (Exchange.closed_of_moves (Later.exchange hbefore) hclosed).1
    cases hmove with
    | step => exact (Ledger.accepted_enter _ hstill).trans ih
    | ask action hidle _ => exact ih

theorem next_of_read {owner : Option String} {rest : List Task}
    (h : k.record.Accounts k.exchange.inbox)
    (htasks : k.exchange.tasks = .perform owner .read :: rest) :
    (k.record.held = [] ∧ (k.next Ledger.enter).exchange.tasks = .reply owner .noInput :: rest ∧
      (k.next Ledger.enter).exchange.inbox = k.exchange.inbox ∧
      (k.next Ledger.enter).record = k.record) ∨
    (∃ first later, k.record.held = first :: later ∧
      (k.next Ledger.enter).exchange.tasks = .reply owner (.line first.line) :: rest ∧
      (k.next Ledger.enter).record =
        { k.record with held := later, read := k.record.read ++ [first] }) := by
  simp only [next, Ledger.enter, Exchange.step, Exchange.perform, Inbox.read?, htasks]
  cases hlines : k.exchange.inbox.lines with
  | nil =>
    have hheld : k.record.held = [] := List.map_eq_nil_iff.mp (h.lines.trans hlines)
    refine .inl ⟨hheld, rfl, rfl, ?_⟩
    simp only [Ledger.readFirst, hheld]
  | cons line lines =>
    rcases h.readFirst hlines with ⟨first, later, hheld, hfirst, hrecord, -⟩
    refine .inr ⟨first, later, hheld, ?_, hrecord⟩
    rw [hfirst]
    rfl

theorem next_of_extract {owner : Option String} {wants : Predicate} {rest : List Task}
    (h : k.record.Accounts k.exchange.inbox) (htotal : IsTotal wants)
    (htasks : k.exchange.tasks = .perform owner (.extract wants) :: rest) :
    (k.next Ledger.enter).exchange.tasks = .reply owner
        (.lines ((k.record.held.filter fun n => wantedBy wants n.line).map Numbered.line)) :: rest ∧
      (k.next Ledger.enter).record =
        { k.record with
          held := k.record.held.filter fun n => !wantedBy wants n.line
          taken := k.record.taken ++ [k.record.held.filter fun n => wantedBy wants n.line] } := by
  have hbatch : k.exchange.inbox.lines.filter (wantedBy wants)
      = (k.record.held.filter fun n => wantedBy wants n.line).map Numbered.line := by
    rw [← h.lines, List.filter_map]
    rfl
  simp only [next, Ledger.enter, Exchange.step, Exchange.perform, Exchange.extract, htasks,
    htotal.extract_eq, hbatch]
  exact ⟨rfl, rfl⟩

theorem next_of_push {line : Line} {rest : List Task}
    (htasks : k.exchange.tasks = .push line :: rest) (hopen : k.exchange.inbox.closed = false)
    (hanswers : ∀ listener ∈ k.exchange.inbox.listeners.values,
      ∃ wanted, listener.wants line = .ok wanted) :
    (k.next Ledger.enter).record =
      { k.record with
        accepted := k.record.accepted ++ [line]
        held := k.record.held ++ [⟨k.record.accepted.length, line⟩] } := by
  rcases Inbox.push_of_answers hopen hanswers with ⟨due, inbox, hpush⟩
  simp only [next, Ledger.enter, htasks, hpush]
  rfl

/-- In every state of every exchange the ledger holds the lines of the inbox, and every
    line accepted so far is in one place. What was read comes before what is held, in the
    order of arrival, and together they are what was not extracted. An extraction answers
    with the wanted ones of the lines held, in order of arrival, and takes just these. A
    read takes the first line held, and answers that there is no input exactly if none is
    held, when it changes nothing. An open inbox accepts a line under the next number, and
    a closed one accepts none any more. -/
theorem lines_are_conserved (h : HasLedger k) :
    k.record.held.map Numbered.line = k.exchange.inbox.lines ∧
    (k.record.read ++ k.record.taken.flatten ++ k.record.held).Perm (numbered k.record.accepted) ∧
    (k.record.read ++ k.record.held).Pairwise (fun m n => m.number < n.number) ∧
    k.record.read ++ k.record.held
      = (numbered k.record.accepted).filter (fun n => n ∉ k.record.taken.flatten) ∧
    (∀ owner wants rest, k.exchange.tasks = .perform owner (.extract wants) :: rest →
      let batch := k.record.held.filter fun n => wantedBy wants n.line
      batch.Pairwise (fun m n => m.number < n.number) ∧
      (k.next Ledger.enter).exchange.tasks
        = .reply owner (.lines (batch.map Numbered.line)) :: rest ∧
      (k.next Ledger.enter).record =
        { k.record with
          held := k.record.held.filter fun n => !wantedBy wants n.line
          taken := k.record.taken ++ [batch] }) ∧
    (∀ owner rest, k.exchange.tasks = .perform owner .read :: rest →
      (k.record.held = [] ∧ (k.next Ledger.enter).exchange.tasks = .reply owner .noInput :: rest ∧
        (k.next Ledger.enter).exchange.inbox = k.exchange.inbox ∧
        (k.next Ledger.enter).record = k.record) ∨
      (∃ first later, k.record.held = first :: later ∧
        (k.next Ledger.enter).exchange.tasks = .reply owner (.line first.line) :: rest ∧
        (k.next Ledger.enter).record =
          { k.record with held := later, read := k.record.read ++ [first] })) ∧
    (∀ line rest, k.exchange.tasks = .push line :: rest → k.exchange.inbox.closed = false →
      (∀ listener ∈ k.exchange.inbox.listeners.values, ∃ wanted, listener.wants line = .ok wanted) →
      (k.next Ledger.enter).record =
        { k.record with
          accepted := k.record.accepted ++ [line]
          held := k.record.held ++ [⟨k.record.accepted.length, line⟩] }) ∧
    (k.exchange.inbox.closed = true →
      ∀ later, Later Action.ExtractsSafely Ledger.enter k later →
        later.record.accepted = k.record.accepted) := by
  have haccounts := h.accounts
  refine ⟨haccounts.lines, haccounts.complete, haccounts.inOrder, Ledger.notTaken_eq haccounts,
    ?_, fun owner rest => next_of_read haccounts, fun line rest => next_of_push,
    fun hclosed later hlater => accepted_of_closed hlater hclosed⟩
  intro owner wants rest htasks
  have haction : (Action.extract wants).Throughout Action.ExtractsSafely := h.madeOf.head htasks
  have hheld := (List.pairwise_append.mp haccounts.inOrder).2.1
  exact ⟨hheld.filter _, next_of_extract haccounts haction.here htasks⟩

/-- The second of three lines has called a listener, whose callback is about to extract
    it. Nothing has become of the third line yet. -/
def sweeping : OnRecord Ledger :=
  let listening := nextFor Ledger.enter 2 ⟨(fresh (.empty none) Ledger.blank).exchange.asked
    (.register "sweep" Bench.wantsDirective [.extract Bench.wantsDirective, .read]), Ledger.blank⟩
  nextFor Ledger.enter 4 ⟨listening.exchange.asked
    (.pushAll [⟨"coin"⟩, ⟨"Delay: 1"⟩, ⟨"coin"⟩]), listening.record⟩

theorem lines_are_conserved_sweeping :
    sweeping.record.held = [⟨0, ⟨"coin"⟩⟩, ⟨1, ⟨"Delay: 1"⟩⟩] ∧
      (sweeping.next Ledger.enter).record.held = [⟨0, ⟨"coin"⟩⟩] ∧
      (sweeping.next Ledger.enter).record.taken = [[⟨1, ⟨"Delay: 1"⟩⟩]] := by
  have hregister : (Action.register "sweep" Bench.wantsDirective
      [.extract Bench.wantsDirective, .read]).Throughout Action.ExtractsSafely := by
    refine .intro trivial fun inner hinner => ?_
    rcases List.mem_cons.mp hinner with rfl | hread
    · exact .of_plain (fun line => ⟨_, rfl⟩) rfl
    · rw [List.mem_singleton.mp hread]
      exact .of_plain trivial rfl
  have hpush : ∀ lines, (Action.pushAll lines).Throughout Action.ExtractsSafely :=
    fun _ => .of_plain trivial rfl
  have hsweeping : HasLedger sweeping :=
    ((reachable_fresh _).ask rfl hregister 2).ask rfl (hpush _) 4
  have hheld : sweeping.record.held = [⟨0, ⟨"coin"⟩⟩, ⟨1, ⟨"Delay: 1"⟩⟩] := by decide
  rcases (lines_are_conserved hsweeping).2.2.2.2.1 (some "sweep") Bench.wantsDirective _ rfl with
    ⟨-, -, hrecord⟩
  rw [hrecord, hheld]
  exact ⟨rfl, by decide, by decide⟩

end OnRecord

end Testbench
