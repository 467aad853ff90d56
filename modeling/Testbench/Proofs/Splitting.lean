import Testbench.Proofs.RoundTrip
import Testbench.Proofs.Settled

/-!
# The Lines of a Stream

What a feed pushes is told by a reference that knows neither reads nor carried-over bytes. The
bytes of the whole stream are split at every newline at once. Each part before a newline is a
piece, without the carriage return of its terminator, and what follows the last newline is one
as well if there is anything and the stream has ended properly. The lines are the pieces up to
the first that is no text.

A read that fails and a piece that is no text both end the stream, and only the bytes before
the failure count. So the lines depend on the bytes and on how they end, and on nothing else:
not on the cuts, and not on what else is done with the inbox. Others may use it while the feed
runs, and listeners may use it when they are called, to any depth. As long as none of them
closes it or fails, it accepts every line when its turn comes, and it is closed after the last.

## Main definitions

* `Read.delivered`, `Read.failure?`: The bytes of a stream, and how they end.
* `Framing.split`: The reference.
* `Action.LeavesOpen`: Neither the action nor what it sets off closes the inbox or fails.
* `Feed.Deed`, `Feed.Outcome.among`: A feed that is not alone with its inbox.

## Theorems

* `Framing.split_append`: Splitting a stream that comes in two parts.
* `framed_eq_split`: The lines of a stream are those of the reference.
* `Exchange.StaysOpen.step`: An inbox that nobody closes stays open.
* `Feed.Outcome.Goes.accepts`: An inbox that is left open accepts every line.
* `Feed.pushes_the_pieces`: What a feed pushes.
-/

namespace Testbench

/-! ### The reference -/

namespace Read

/-- The bytes that are read before the stream ends or a read fails. -/
def delivered : List Read → List UInt8
  | [] | .failed _ :: _ => []
  | .interrupted :: rest => delivered rest
  | .data bytes :: rest => bytes ++ delivered rest

/-- The failure in which the stream ends, if it does not end properly. -/
def failure? : List Read → Option IoFailure
  | [] => none
  | .failed cause :: _ => some cause
  | .interrupted :: rest | .data _ :: rest => failure? rest

end Read

namespace Framing

def isText (piece : List UInt8) : Bool := (Text.decode? piece).isSome

/-- What follows the last newline, if it is a piece. -/
def remainder (complete : Bool) (part : List UInt8) : List (List UInt8) :=
  if complete && !part.isEmpty then [part] else []

/-- The pieces of a stream that is split at its newlines. -/
def split (complete : Bool) (bytes : List UInt8) : List (List UInt8) :=
  (bytes.splitOn newline).dropLast.map stripped
    ++ (bytes.splitOn newline).getLast?.toList.flatMap (remainder complete)

theorem splitOn_eq (bytes : List UInt8) :
    bytes.splitOn newline = (pieces bytes).1 ++ [(pieces bytes).2] := by
  rw [List.splitOn_eq_splitOnP]
  induction bytes with
  | nil => rfl
  | cons b rest ih =>
    rw [List.splitOnP_cons_eq_if_modifyHead, ih]
    by_cases hb : b = newline
    · simp only [pieces, hb, beq_self_eq_true, if_true, List.cons_append]
    · simp only [pieces, hb, beq_iff_eq, if_false]
      rcases pieces rest with ⟨_ | ⟨piece, others⟩, unfinished⟩
      · rfl
      · rfl

theorem split_eq (complete : Bool) (bytes : List UInt8) :
    split complete bytes
      = (pieces bytes).1.map stripped ++ remainder complete (pieces bytes).2 := by
  rw [split, splitOn_eq, List.dropLast_concat, List.getLast?_concat]
  exact congrArg _ (List.append_nil _)

/-- What has been terminated in the first part is complete. -/
theorem split_append (complete : Bool) (front back : List UInt8) :
    split complete (front ++ back)
      = (pieces front).1.map stripped ++ split complete ((pieces front).2 ++ back) := by
  rw [split_eq, split_eq, pieces_append, List.map_append, List.append_assoc]

theorem split_of_not_mem {part : List UInt8} (h : newline ∉ part) (complete : Bool) :
    split complete part = remainder complete part := by
  rw [split_eq, pieces_of_not_mem h]
  rfl

/-- Texts are pieces, up to the first that is none. -/
theorem encode_texts (parts : List (List UInt8)) :
    (texts parts).1.map (fun line => Text.encode line.text) = parts.takeWhile isText := by
  induction parts with
  | nil => rfl
  | cons piece rest ih =>
    rw [texts, List.takeWhile_cons, isText]
    cases hpiece : Text.decode? piece with
    | none => rfl
    | some text => simp only [List.map_cons, ih, Text.encode_of_decode? hpiece, Option.isSome_some,
        if_true]

end Framing

open Framing

/-- The lines of a stream are those of the reference, and it breaks off at a piece that is no
    text before it ends in a failure. -/
theorem framed_eq_split (reads : List Read) {unfinished : List UInt8} (h : newline ∉ unfinished) :
    framed unfinished reads =
      ((texts (split (Read.failure? reads).isNone (unfinished ++ Read.delivered reads))).1,
        if (texts (split (Read.failure? reads).isNone (unfinished ++ Read.delivered reads))).2
          then some .notText else Read.failure? reads) := by
  induction reads generalizing unfinished with
  | nil =>
    rw [Read.delivered, List.append_nil, split_of_not_mem h]
    cases unfinished with
    | nil => rfl
    | cons b rest => rfl
  | cons read rest ih =>
    cases read with
    | interrupted => exact ih h
    | failed cause =>
      rw [Read.delivered, List.append_nil, split_of_not_mem h]
      rfl
    | data bytes =>
      rw [framed_data, ih (newline_not_mem_unfinished _), Read.delivered, Read.failure?,
        ← List.append_assoc, split_append _ (unfinished ++ bytes), texts_append]
      rcases texts ((pieces (unfinished ++ bytes)).1.map stripped) with ⟨lines, _ | _⟩
      · rfl
      · rfl

/-! ### An inbox that stays open -/

/-- Neither the action itself closes the inbox or fails, nor does it lack an answer. -/
def Action.LeavesOpen : Action → Prop
  | .close => False
  | action => action.Harmless

/-- Whatever pending listeners do, they leave the inbox open. -/
def Inbox.LeavesOpen (inbox : Inbox Callback) : Prop :=
  ∀ listener ∈ inbox.listeners.values,
    (Action.register listener.callback.name listener.wants listener.callback.program).Throughout
      Action.LeavesOpen

/-- Every listener has an answer, so an open inbox accepts every line. -/
theorem Inbox.LeavesOpen.push_eq {inbox : Inbox Callback} (h : inbox.LeavesOpen)
    (hopen : inbox.closed = false) (line : Line) :
    ∃ due next, inbox.push line = .ok (.held due, next) :=
  Inbox.push_of_answers hopen fun listener hlistener => (h listener hlistener).here line

namespace Exchange

/-- An exchange that has not failed, in which nothing is left to do that fails or closes the
    inbox. -/
structure StaysOpen (x : Exchange) : Prop where
  madeOf : x.MadeOf Action.LeavesOpen
  isOpen : x.inbox.closed = false
  answer : ∀ fault, x.answer ≠ some (.error fault)

variable {x : Exchange}

/-- What is performed changes neither the answer nor that the inbox is open. -/
theorem perform_leavesOpen (x : Exchange) (owner : Option String) {action : Action}
    (h : action.LeavesOpen) :
    (x.perform owner action).inbox.closed = x.inbox.closed ∧
      (x.perform owner action).answer = x.answer := by
  cases action with
  | push line | pushAll lines | ready | inspect | unknown => exact ⟨rfl, rfl⟩
  | close | fail => exact absurd h id
  | read =>
    cases hlines : x.inbox.lines with
    | nil =>
      simp only [perform, Inbox.read?, hlines]
      exact ⟨rfl, rfl⟩
    | cons line rest =>
      simp only [perform, Inbox.read?, hlines]
      exact ⟨rfl, rfl⟩
  | extract wants =>
    have htotal : IsTotal wants := h
    simp only [perform, extract, htotal.extract_eq]
    exact ⟨rfl, rfl⟩
  | register name wants program =>
    have htotal : IsTotal (Listener.mk wants (Callback.mk name program)).wants := h
    rcases htotal.register_cases x.inbox with ⟨-, hregister⟩ | ⟨-, -, hregister⟩ |
      ⟨-, -, hregister⟩
    · simp only [perform, register, hregister]
      exact ⟨rfl, rfl⟩
    · simp only [perform, register, hregister]
      exact ⟨rfl, rfl⟩
    · simp only [perform, register, hregister]
      exact ⟨rfl, rfl⟩

namespace StaysOpen

/-- An inbox that nobody closes stays open. -/
theorem step (h : x.StaysOpen) : x.step.StaysOpen := by
  suffices hmore : x.step.inbox.closed = false ∧ ∀ fault, x.step.answer ≠ some (.error fault) from
    ⟨h.madeOf.step, hmore.1, hmore.2⟩
  rcases x with ⟨inbox, _ | ⟨task, rest⟩, notices, journal, answer⟩
  · exact ⟨h.isOpen, h.answer⟩
  · cases task with
    | perform owner action =>
      have haction : action.LeavesOpen := (h.madeOf.head rfl).here
      rcases perform_leavesOpen ⟨inbox, rest, notices, journal, answer⟩ owner haction with
        ⟨hclosed, hanswer⟩
      exact ⟨hclosed.trans h.isOpen, fun fault hfault => h.answer fault (hanswer.symm.trans hfault)⟩
    | push line =>
      rcases Inbox.LeavesOpen.push_eq h.madeOf.listeners h.isOpen line with ⟨due, next, hpush⟩
      simp only [Exchange.step, Exchange.push, hpush]
      exact ⟨(Inbox.push_eq_held hpush).2.1, h.answer⟩
    | call callback => exact ⟨h.isOpen, h.answer⟩
    | reply owner reply =>
      cases owner with
      | none => exact ⟨h.isOpen, fun fault hfault => by cases hfault⟩
      | some name => exact ⟨h.isOpen, h.answer⟩

theorem stepFor (h : x.StaysOpen) (n : Nat) : (Exchange.stepFor n x).StaysOpen := by
  induction n generalizing x with
  | zero => exact h
  | succ n ih => exact ih h.step

end StaysOpen

end Exchange

/-! ### A feed among others -/

namespace Feed

/-- What is done with an inbox while a feed runs. -/
inductive Deed
  /-- The feed pushes its next line. -/
  | pushes (line : Line)
  /-- Somebody else uses the inbox. -/
  | performs (action : Action)

namespace Deed

def line? : Deed → Option Line
  | .pushes line => some line
  | .performs _ => none

def LeavesOpen : Deed → Prop
  | .pushes _ => True
  | .performs action => action.Throughout Action.LeavesOpen

end Deed

namespace Outcome

def doing (o : Outcome) : Deed → Outcome
  | .pushes line => o.receive line
  | .performs action => o.act action

/-- A feed that is not alone with its inbox. -/
def among (o : Outcome) (deeds : List Deed) : Outcome := deeds.foldl doing o

/-- The feed goes on, and its inbox is open and stays so. -/
structure Goes (o : Outcome) : Prop where
  fault : o.fault = none
  isOpen : o.inbox.closed = false
  leavesOpen : o.inbox.LeavesOpen

variable {o : Outcome}

theorem Goes.act (h : o.Goes) {action : Action} (haction : action.Throughout Action.LeavesOpen) :
    (o.act action).Goes := by
  have hbegin : (Exchange.mk o.inbox [.perform none action] [] o.journal none).StaysOpen := by
    refine ⟨⟨fun task htask => ?_, h.leavesOpen⟩, h.isOpen, nofun⟩
    rw [List.mem_singleton.mp htask]
    exact haction
  have hask : (Exchange.ask o.inbox o.journal action).StaysOpen := hbegin.stepFor _
  unfold Outcome.act
  rw [h.fault]
  refine ⟨?_, hask.isOpen, hask.madeOf.listeners⟩
  -- The answer is no fault, so the feed does not break off.
  rcases hanswer : (Exchange.ask o.inbox o.journal action).answer with _ | fault | reply
  · simp only [hanswer]
  · exact absurd hanswer (hask.answer fault)
  · simp only [hanswer]

theorem Goes.doing (h : o.Goes) {deed : Deed} (hdeed : deed.LeavesOpen) : (o.doing deed).Goes := by
  cases deed with
  | pushes line =>
    have hnoted : (o.note (.lineReceived line)).Goes := ⟨h.fault, h.isOpen, h.leavesOpen⟩
    change (o.receive line).Goes
    rw [Outcome.receive, h.fault]
    exact hnoted.act (.of_plain trivial rfl)
  | performs action => exact h.act hdeed

theorem Goes.among (h : o.Goes) {deeds : List Deed} (hdeeds : ∀ deed ∈ deeds, deed.LeavesOpen) :
    (o.among deeds).Goes := by
  induction deeds generalizing o with
  | nil => exact h
  | cons deed rest ih =>
    exact ih (h.doing (hdeeds deed List.mem_cons_self)) fun later hlater =>
      hdeeds later (List.mem_cons_of_mem deed hlater)

theorem among_lines (o : Outcome) (lines : List Line) :
    o.among (lines.map .pushes) = lines.foldl Outcome.receive o := by
  rw [among, List.foldl_map]
  rfl

/-- While it goes on, its inbox accepts every line, whatever was done before. -/
theorem Goes.accepts (h : o.Goes) {before : List Deed} (hbefore : ∀ deed ∈ before, deed.LeavesOpen)
    (line : Line) :
    (o.among before).fault = none ∧
      ∃ due next, (o.among before).inbox.push line = .ok (.held due, next) :=
  have hgoes : (o.among before).Goes := h.among hbefore
  ⟨hgoes.fault, Inbox.LeavesOpen.push_eq hgoes.leavesOpen hgoes.isOpen line⟩

theorem Goes.finish (h : o.Goes) (failure : Option IoFailure) :
    (o.finish failure).inbox.closed = true ∧ (o.finish failure).fault = none := by
  rcases Outcome.finish_closes h.fault failure with ⟨hinbox, hfault⟩
  rw [hinbox]
  exact ⟨rfl, hfault⟩

end Outcome

/-- A feed pushes the pieces of its stream that come before the first that is no text, and then
    closes the inbox, whether the stream has ended properly or not. Others may use the inbox in
    between and listeners may use it when they are called: as long as they leave it open, it
    accepts every line at its turn. Where the stream was cut or interrupted makes no difference. -/
theorem pushes_the_pieces {inbox : Inbox Callback} (hopen : inbox.closed = false)
    (hlisteners : inbox.LeavesOpen) (journal : Journal) (reads : List Read) :
    ∃ lines failure,
      lines.map (fun line => Text.encode line.text)
        = (split (Read.failure? reads).isNone (Read.delivered reads)).takeWhile isText ∧
      run inbox journal reads
        = (Outcome.among ⟨inbox, [], journal, none⟩ (lines.map .pushes)).finish failure ∧
      (inbox.OnlyNotifies → (run inbox journal reads).inbox.lines = inbox.lines ++ lines) ∧
      (∀ deeds : List Deed, deeds.filterMap Deed.line? = lines →
        (∀ deed ∈ deeds, deed.LeavesOpen) →
        (∀ before line after, deeds = before ++ .pushes line :: after →
          (Outcome.among ⟨inbox, [], journal, none⟩ before).fault = none ∧
          ∃ due next, (Outcome.among ⟨inbox, [], journal, none⟩ before).inbox.push line
            = .ok (.held due, next)) ∧
        (Outcome.among ⟨inbox, [], journal, none⟩ deeds).inbox.closed = false ∧
        ((Outcome.among ⟨inbox, [], journal, none⟩ deeds).finish failure).inbox.closed = true ∧
        ((Outcome.among ⟨inbox, [], journal, none⟩ deeds).finish failure).fault = none) ∧
      ∀ others : List Read, Read.delivered others = Read.delivered reads →
        Read.failure? others = Read.failure? reads →
        run inbox journal others = run inbox journal reads := by
  have hgoes : Outcome.Goes ⟨inbox, [], journal, none⟩ := ⟨rfl, hopen, hlisteners⟩
  have hframed : ∀ stream : List Read, run inbox journal stream
      = ((framed [] stream).1.foldl Outcome.receive ⟨inbox, [], journal, none⟩).finish
          (framed [] stream).2 := fun _ => rfl
  refine ⟨(framed [] reads).1, (framed [] reads).2, ?_, ?_, fun hnotifies => ?_,
    fun deeds _ hdeeds => ⟨?_, ?_, ?_⟩, fun others hdelivered hfailure => ?_⟩
  · rw [framed_eq_split reads List.not_mem_nil]
    exact encode_texts _
  · rw [hframed, Outcome.among_lines]
  · have hflows : Outcome.Flows ⟨inbox, [], journal, none⟩ := ⟨rfl, hopen, hnotifies⟩
    rcases hflows.receiveAll (framed [] reads).1 with ⟨hlast, hall⟩
    rw [hframed, (Outcome.finish_closes hlast.fault _).1]
    exact hall
  · intro before line after hsplit
    exact hgoes.accepts (fun deed hdeed => hdeeds deed (hsplit ▸ List.mem_append_left _ hdeed)) line
  · exact (hgoes.among hdeeds).isOpen
  · exact (hgoes.among hdeeds).finish _
  · rw [hframed, hframed, framed_eq_split others List.not_mem_nil,
      framed_eq_split reads List.not_mem_nil, hdelivered, hfailure]

/-- The listener consumes what it waits for, and then waits for a directive. -/
def busy : Inbox Callback :=
  ⟨[], Slots.empty.insert ⟨fun line => .ok !line.isDirective, "first",
    [.read, .register "second" Bench.wantsDirective [.push ⟨"late"⟩]]⟩, false⟩

/-- A terminator and a character are cut in two, and the third piece is no text. -/
def cut : List Read :=
  [.data [0x61, 13], .interrupted, .data [10, 0xC3], .data [0xA9, 13, 13],
    .data [10, 0xFF, 10, 0x62], .failed .timedOut]

def uncut : List Read :=
  [.data [0x61, 13, 10, 0xC3, 0xA9, 13, 13, 10, 0xFF, 10, 0x62], .failed .timedOut]

theorem pushes_the_pieces_cut :
    (∃ (lines : List Line) (failure : Option IoFailure),
      lines.map (fun line => Text.encode line.text) = [[0x61], [0xC3, 0xA9, 13]] ∧
      run busy (.empty none) cut
        = (Outcome.among ⟨busy, [], .empty none, none⟩ (lines.map .pushes)).finish failure) ∧
      run busy (.empty none) uncut = run busy (.empty none) cut := by
  have hbusy : busy.LeavesOpen := by
    intro listener hlistener
    rw [List.mem_singleton.mp hlistener]
    refine .intro (fun line => ⟨_, rfl⟩) fun inner hinner => ?_
    rcases List.mem_cons.mp hinner with rfl | hregister
    · exact .of_plain trivial rfl
    · rw [List.mem_singleton.mp hregister]
      refine .intro (fun line => ⟨_, rfl⟩) fun innermost hinnermost => ?_
      rw [List.mem_singleton.mp hinnermost]
      exact .of_plain trivial rfl
  have hopen : busy.closed = false := rfl
  rcases pushes_the_pieces hopen hbusy (.empty none) cut with
    ⟨lines, failure, hlines, hrun, -, -, hcuts⟩
  exact ⟨⟨lines, failure, hlines.trans (by decide), hrun⟩, hcuts uncut rfl rfl⟩

end Feed

end Testbench
