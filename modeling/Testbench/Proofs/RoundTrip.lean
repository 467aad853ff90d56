import Testbench.Feed
import Testbench.Inbox.Exchange.Ending
import Testbench.Proofs.Answers
import Testbench.Sink.Writer

/-!
# Lines There and Back

Lines that are written to a byte channel can be read back from its bytes. This takes little
of the lines, no newline in them and no carriage return at their end, and little of the
channels. The one that takes the bytes may take them in parts as small as it likes, and the
one that hands them out may cut them anywhere, inside a character or between a carriage
return and a newline; both may be interrupted.

The reason is the same on either side: the parts do not matter. What has been taken is the
bytes of the lines, each with a newline, and what is framed depends on all bytes together.
Between the two it is enough that a newline and a carriage return are bytes that occur in no
other character.

## Main definitions

* `Writer.Steady`: A channel that never fails.
* `Writer.writeLines`, `Writer.stream`: Lines written in order, and their bytes.
* `Read.bytes`: The bytes of a read.
* `Inbox.OnlyNotifies`: Nothing that happens to an inbox is due to its listeners.

## Theorems

* `Text.mem_of_mem_encode`, `Text.getLast?_of_encode`: The bytes of ASCII characters.
* `Writer.Steady.writeLines`: What is taken of lines.
* `framed_whole`: Where a stream was cut.
* `Framing.pieces_stream`, `framed_stream`: The lines of a stream.
* `Feed.Outcome.Flows.receiveAll`: Lines pushed into an open inbox.
* `Feed.receives_what_is_written`: From the one end to the other.
-/

namespace Testbench

/-! ### The bytes of a text -/

namespace Text

theorem encode_eq_flatMap (s : String) : encode s = s.toList.flatMap String.utf8EncodeChar := by
  rw [encode, ← String.utf8Encode_toList, List.utf8Encode, List.data_toByteArray]

/-- A byte below 128 is the one byte of its character. -/
theorem toNat_of_mem_utf8EncodeChar {c : Char} {b : UInt8} (h : b ∈ String.utf8EncodeChar c)
    (hb : b < 128) : c.toNat = b.toNat := by
  have hhigh : ∀ v, 128 ≤ v → v < 256 → b ≠ UInt8.ofNat v := fun v hlow hup heq => by
    rw [heq, UInt8.lt_iff_toNat_lt] at hb
    change v % 256 < 128 at hb
    omega
  unfold String.utf8EncodeChar at h
  simp only at h
  split at h
  · next hsmall =>
    rw [List.mem_singleton.mp h]
    change c.toNat = c.toNat % 256
    change c.toNat ≤ 127 at hsmall
    omega
  · exfalso
    split at h
    · simp only [List.mem_cons, List.not_mem_nil, or_false] at h
      rcases h with h | h <;> exact hhigh _ (by omega) (by omega) h
    · split at h
      · simp only [List.mem_cons, List.not_mem_nil, or_false] at h
        rcases h with h | h | h <;> exact hhigh _ (by omega) (by omega) h
      · simp only [List.mem_cons, List.not_mem_nil, or_false] at h
        rcases h with h | h | h | h <;> exact hhigh _ (by omega) (by omega) h

theorem eq_of_mem_utf8EncodeChar {c d : Char} (h : UInt8.ofNat d.toNat ∈ String.utf8EncodeChar c)
    (hd : d.toNat < 128) : c = d := by
  have hbyte : (UInt8.ofNat d.toNat).toNat = d.toNat := by
    change d.toNat % 256 = d.toNat
    omega
  have hsame := toNat_of_mem_utf8EncodeChar h (by
    rw [UInt8.lt_iff_toNat_lt, hbyte]
    exact hd)
  rw [hbyte] at hsame
  exact Char.toNat_inj.mp hsame

/-- The byte of an ASCII character occurs only where the character does. -/
theorem mem_of_mem_encode {s : String} {c : Char} (h : UInt8.ofNat c.toNat ∈ encode s)
    (hc : c.toNat < 128) : c ∈ s.toList := by
  rw [encode_eq_flatMap] at h
  rcases List.mem_flatMap.mp h with ⟨d, hd, hmem⟩
  rw [← eq_of_mem_utf8EncodeChar hmem hc]
  exact hd

/-- It comes last only where the character does. -/
theorem getLast?_of_encode {s : String} {c : Char}
    (h : (encode s).getLast? = some (UInt8.ofNat c.toNat)) (hc : c.toNat < 128) :
    s.toList.getLast? = some c := by
  rw [encode_eq_flatMap] at h
  rcases List.eq_nil_or_concat s.toList with hnil | ⟨front, d, hlast⟩
  · rw [hnil] at h
    exact absurd h nofun
  · rw [List.concat_eq_append] at hlast
    rw [hlast, List.flatMap_append, List.flatMap_singleton, List.getLast?_append,
      List.getLast?_eq_some_getLast String.utf8EncodeChar_ne_nil, Option.some_or] at h
    have hmem := List.getLast_mem (String.utf8EncodeChar_ne_nil (c := d))
    rw [Option.some.inj h] at hmem
    rw [hlast, List.getLast?_concat, eq_of_mem_utf8EncodeChar hmem hc]

end Text

/-! ### Writing -/

namespace Writer

open Text

/-- The channel takes at least one byte of each attempt, and never fails. -/
structure Steady (w : Writer) : Prop where
  share : ∀ n, 0 < w.share n
  capacity : w.capacity = none
  flushes : w.flushes = none

/-- Lines are written in order, up to the first that cannot be written. -/
def writeLines : List String → Writer → Except IoFailure Unit × Writer
  | [], w => (.ok (), w)
  | line :: rest, w =>
    match w.writeLine line with
    | (.ok (), next) => writeLines rest next
    | (.error cause, next) => (.error cause, next)

/-- The bytes of lines, each with its terminator. -/
def stream (lines : List String) : List UInt8 := lines.flatMap fun line => encode line ++ [10]

/-- All of the bytes have been taken, and the channel is as before. -/
structure Takes (w : Writer) (bytes : List UInt8) (result : Except IoFailure Unit × Writer) :
    Prop where
  ok : result.1 = .ok ()
  taken : result.2.taken = w.taken ++ bytes
  steady : result.2.Steady

variable {w : Writer}

theorem Takes.exists_next {bytes : List UInt8} {result : Except IoFailure Unit × Writer}
    (h : w.Takes bytes result) :
    ∃ next, result = (.ok (), next) ∧ next.taken = w.taken ++ bytes ∧ next.Steady :=
  ⟨result.2, Prod.ext h.ok rfl, h.taken, h.steady⟩

/-- An attempt is interrupted, or gets on. -/
theorem Steady.attempt_cases (h : w.Steady) {bytes : List UInt8} (hbytes : bytes ≠ []) :
    (∃ next, w.attempt bytes = (.interrupted, next) ∧ next.taken = w.taken ∧ next.Steady) ∨
    ∃ count next, w.attempt bytes = (.took (count + 1), next) ∧
      next.taken = w.taken ++ bytes.take (count + 1) ∧ next.Steady := by
  unfold attempt
  split
  · exact .inl ⟨_, rfl, rfl, ⟨h.share, h.capacity, h.flushes⟩⟩
  · refine .inr ?_
    have hroom : w.room bytes.length = min (w.share w.attempts) bytes.length := by
      rw [room, h.capacity]
    have hfull : w.isFull = false := by
      rw [isFull, h.capacity]
      rfl
    have hshare := h.share w.attempts
    have hlength := List.length_pos_iff.mpr hbytes
    simp only [hfull]
    rcases hcount : w.room bytes.length with _ | count
    · omega
    · exact ⟨count, _, rfl, rfl, ⟨h.share, h.capacity, h.flushes⟩⟩

theorem writeAll_of_interrupted {next : Writer} {bytes : List UInt8} (hbytes : bytes ≠ [])
    (h : w.attempt bytes = (.interrupted, next)) : w.writeAll bytes = next.writeAll bytes := by
  conv => lhs; unfold Writer.writeAll
  rw [dif_neg hbytes]
  split
  · next next' hattempt =>
    rw [h] at hattempt
    rw [(Prod.mk.inj hattempt).2]
  all_goals
    next hattempt =>
      rw [h] at hattempt
      cases hattempt

theorem writeAll_of_took {next : Writer} {bytes : List UInt8} {count : Nat} (hbytes : bytes ≠ [])
    (h : w.attempt bytes = (.took (count + 1), next)) :
    w.writeAll bytes = next.writeAll (bytes.drop (count + 1)) := by
  conv => lhs; unfold Writer.writeAll
  rw [dif_neg hbytes]
  split
  case h_3 count' next' hattempt =>
    rw [h] at hattempt
    rcases Prod.mk.inj hattempt with ⟨hcount, hnext⟩
    rw [hnext, Attempt.took.inj hcount]
  all_goals
    next hattempt =>
      rw [h] at hattempt
      cases hattempt

/-- All bytes are taken in the end, by the bytes that are left and then by the interruptions. -/
theorem Steady.writeAll {w : Writer} (h : w.Steady) (bytes : List UInt8) :
    w.Takes bytes (w.writeAll bytes) := by
  by_cases hbytes : bytes = []
  · subst hbytes
    unfold Writer.writeAll
    exact ⟨rfl, (List.append_nil _).symm, h⟩
  rcases h.attempt_cases hbytes with ⟨next, hattempt, htaken, hnext⟩ |
    ⟨count, next, hattempt, htaken, hnext⟩
  -- The same bytes are offered again, with an interruption less to come.
  · have hlower : next.pending < w.pending := pending_lt_of_interrupted hattempt
    rcases hnext.writeAll bytes with ⟨hok, hmore, hsteady⟩
    rw [writeAll_of_interrupted hbytes hattempt]
    exact ⟨hok, by rw [hmore, htaken], hsteady⟩
  · have hlower : (bytes.drop (count + 1)).length < bytes.length := by
      have := List.length_pos_iff.mpr hbytes
      rw [List.length_drop]
      omega
    rcases hnext.writeAll (bytes.drop (count + 1)) with ⟨hok, hmore, hsteady⟩
    rw [writeAll_of_took hbytes hattempt]
    refine ⟨hok, ?_, hsteady⟩
    rw [hmore, htaken, List.append_assoc, List.take_append_drop]
termination_by (bytes.length, w.pending)
decreasing_by
  · exact Prod.Lex.right _ hlower
  · exact Prod.Lex.left _ _ hlower

theorem Steady.flush (h : w.Steady) : w.Takes [] w.flush := by
  unfold Writer.flush
  split
  · next limit hlimit => exact absurd (h.flushes.symm.trans hlimit) nofun
  · exact ⟨rfl, (List.append_nil _).symm, ⟨h.share, h.capacity, h.flushes⟩⟩

theorem Steady.writeLine (h : w.Steady) (line : String) :
    w.Takes (encode line ++ [10]) (w.writeLine line) := by
  rcases (h.writeAll (encode line)).exists_next with ⟨first, hfirst, htaken, hsteady⟩
  rcases (hsteady.writeAll [10]).exists_next with ⟨second, hsecond, htaken', hsteady'⟩
  unfold Writer.writeLine
  simp only [hfirst, hsecond]
  rcases hsteady'.flush with ⟨hok, hsame, hlast⟩
  refine ⟨hok, ?_, hlast⟩
  rw [hsame, List.append_nil, htaken', htaken, List.append_assoc]

theorem Steady.writeLines {w : Writer} (h : w.Steady) (lines : List String) :
    w.Takes (stream lines) (w.writeLines lines) := by
  induction lines generalizing w with
  | nil => exact ⟨rfl, (List.append_nil _).symm, h⟩
  | cons line rest ih =>
    rcases (h.writeLine line).exists_next with ⟨next, hfirst, htaken, hsteady⟩
    unfold Writer.writeLines
    simp only [hfirst]
    rcases ih hsteady with ⟨hok, hmore, hlast⟩
    refine ⟨hok, ?_, hlast⟩
    rw [hmore, htaken, List.append_assoc, stream, stream, List.flatMap_cons]

end Writer

/-! ### Dividing a stream into lines -/

/-- The bytes of a read, if it has any. -/
def Read.bytes : Read → List UInt8
  | .data bytes => bytes
  | .interrupted | .failed _ => []

namespace Framing

theorem pieces_of_not_mem {piece : List UInt8} (h : newline ∉ piece) :
    pieces piece = ([], piece) := by
  induction piece with
  | nil => rfl
  | cons b rest ih =>
    rw [List.mem_cons, not_or] at h
    rw [pieces, if_neg (Ne.symm h.1), ih h.2]

/-- A piece and its terminator. -/
theorem pieces_terminated {piece : List UInt8} (h : newline ∉ piece) (rest : List UInt8) :
    pieces (piece ++ newline :: rest) = (piece :: (pieces rest).1, (pieces rest).2) := by
  induction piece with
  | nil => rw [List.nil_append, pieces, if_pos rfl]
  | cons b piece ih =>
    rw [List.mem_cons, not_or] at h
    rw [List.cons_append, pieces, if_neg (Ne.symm h.1), ih h.2]

/-- What is unfinished is not terminated. -/
theorem newline_not_mem_unfinished (bytes : List UInt8) : newline ∉ (pieces bytes).2 := by
  induction bytes with
  | nil => exact List.not_mem_nil
  | cons b rest ih =>
    by_cases hb : b = newline
    · simp only [pieces, hb, if_true]
      exact ih
    · simp only [pieces, hb, if_false]
      rcases hrest : pieces rest with ⟨_ | ⟨piece, others⟩, unfinished⟩
      · rw [hrest] at ih
        simp only [List.mem_cons, not_or]
        exact ⟨Ne.symm hb, ih⟩
      · rw [hrest] at ih
        exact ih

theorem texts_append (front back : List (List UInt8)) :
    texts (front ++ back) = if (texts front).2 then texts front
      else ((texts front).1 ++ (texts back).1, (texts back).2) := by
  induction front with
  | nil => rfl
  | cons piece rest ih =>
    rw [List.cons_append, texts, texts]
    cases Text.decode? piece with
    | none => rfl
    | some text =>
      simp only [ih]
      split
      · rfl
      · rfl

/-- The lines of texts are the texts. -/
theorem texts_encode (lines : List String) :
    texts (lines.map Text.encode) = (lines.map Line.mk, false) := by
  induction lines with
  | nil => rfl
  | cons line rest ih =>
    rw [List.map_cons, texts, Text.decode?_encode, ih]
    rfl

/-- Lines with their terminators are divided into the lines, and nothing is left over. -/
theorem pieces_stream {lines : List String} (hlines : ∀ line ∈ lines, '\n' ∉ line.toList) :
    pieces (Writer.stream lines) = (lines.map Text.encode, []) := by
  induction lines with
  | nil => rfl
  | cons line rest ih =>
    have hfirst : newline ∉ Text.encode line := fun hmem =>
      hlines line List.mem_cons_self (Text.mem_of_mem_encode (c := '\n') hmem (by decide))
    rw [Writer.stream, List.flatMap_cons, List.append_assoc]
    change pieces (Text.encode line ++ newline :: Writer.stream rest) = _
    rw [pieces_terminated hfirst, ih fun other hother =>
      hlines other (List.mem_cons_of_mem line hother)]
    rfl

/-- Nothing is taken for a part of a terminator. -/
theorem stripped_encode {line : String} (h : line.toList.getLast? ≠ some '\r') :
    stripped (Text.encode line) = Text.encode line :=
  if_neg fun hlast => h (Text.getLast?_of_encode (c := '\r') hlast (by decide))

end Framing

open Framing

theorem framed_data (unfinished bytes : List UInt8) (reads : List Read) :
    framed unfinished (.data bytes :: reads) =
      if (texts ((pieces (unfinished ++ bytes)).1.map stripped)).2 then
        ((texts ((pieces (unfinished ++ bytes)).1.map stripped)).1, some .notText)
      else ((texts ((pieces (unfinished ++ bytes)).1.map stripped)).1
          ++ (framed (pieces (unfinished ++ bytes)).2 reads).1,
        (framed (pieces (unfinished ++ bytes)).2 reads).2) := rfl

/-- Where a stream was cut cannot be told from the lines. -/
theorem framed_whole {reads : List Read} (hreads : ∀ cause, .failed cause ∉ reads)
    {unfinished : List UInt8} (h : newline ∉ unfinished) :
    framed unfinished reads = framed [] [.data (unfinished ++ reads.flatMap Read.bytes)] := by
  induction reads generalizing unfinished with
  | nil =>
    rw [List.flatMap_nil, List.append_nil, framed_data, List.nil_append, pieces_of_not_mem h]
    rfl
  | cons read rest ih =>
    have hrest : ∀ cause, .failed cause ∉ rest := fun cause hmem =>
      hreads cause (List.mem_cons_of_mem read hmem)
    cases read with
    | interrupted => exact ih hrest h
    | failed cause => exact absurd List.mem_cons_self (hreads cause)
    | data bytes =>
      -- What is terminated so far is the first part of what is terminated in the end.
      have hwhole := pieces_append (unfinished ++ bytes) (rest.flatMap Read.bytes)
      rw [framed_data, ih hrest (newline_not_mem_unfinished _), framed_data [], framed_data [],
        List.flatMap_cons, List.nil_append, List.nil_append, Read.bytes, ← List.append_assoc,
        hwhole, List.map_append, texts_append]
      rcases texts ((pieces (unfinished ++ bytes)).1.map stripped) with ⟨lines, _ | _⟩
      · rcases texts ((pieces ((pieces (unfinished ++ bytes)).2 ++ rest.flatMap Read.bytes)).1.map
          stripped) with ⟨later, _ | _⟩
        · exact Prod.ext (List.append_assoc _ _ _).symm rfl
        · rfl
      · rfl

/-- The bytes of lines are divided into these lines. -/
theorem framed_stream {lines : List String}
    (hlines : ∀ line ∈ lines, '\n' ∉ line.toList ∧ line.toList.getLast? ≠ some '\r') :
    framed [] [.data (Writer.stream lines)] = (lines.map Line.mk, none) := by
  have hstripped : (lines.map Text.encode).map stripped = lines.map Text.encode := by
    rw [List.map_map]
    exact List.map_congr_left fun line hline => stripped_encode (hlines line hline).2
  rw [framed_data, List.nil_append, pieces_stream fun line hline => (hlines line hline).1,
    hstripped, texts_encode, if_neg Bool.false_ne_true]
  exact Prod.ext (List.append_nil _) rfl

/-! ### Lines pushed into an inbox -/

/-- All listeners have an answer for every line, and leave the inbox alone when called. -/
def Inbox.OnlyNotifies (inbox : Inbox Callback) : Prop :=
  ∀ listener ∈ inbox.listeners.values, IsTotal listener.wants ∧ listener.callback.program = []

namespace Exchange

/-- Callbacks that leave the inbox alone. -/
theorem stepFor_calls (n : Nat) {x : Exchange} {due : List Callback}
    (htasks : x.tasks = due.map .call ++ [.reply none .done])
    (hprograms : ∀ callback ∈ due, callback.program = []) (hanswer : x.answer = none) :
    (stepFor n x).inbox = x.inbox ∧ ∀ fault, (stepFor n x).answer ≠ some (.error fault) := by
  induction n generalizing x due with
  | zero =>
    refine ⟨rfl, fun fault h => ?_⟩
    rw [stepFor, hanswer] at h
    cases h
  | succ n ih =>
    cases due with
    | nil =>
      have hstep : x.step = { x with tasks := [], answer := some (.ok .done) } := by
        rw [step]
        simp only [htasks]
        rfl
      rw [stepFor, hstep, stepFor_of_tasks_eq_nil n rfl]
      exact ⟨rfl, fun fault h => by cases h⟩
    | cons callback rest =>
      have hstep : x.step = { x with
          tasks := rest.map .call ++ [.reply none .done],
          notices := .fired callback.name :: x.notices } := by
        rw [step]
        simp only [htasks, List.map_cons, List.cons_append]
        rw [hprograms callback List.mem_cons_self]
        rfl
      rw [stepFor, hstep]
      exact ih rfl (fun other hother => hprograms other (List.mem_cons_of_mem callback hother))
        hanswer

end Exchange

namespace Feed

open Exchange

/-- A feed into an open inbox. -/
structure Outcome.Flows (o : Outcome) : Prop where
  fault : o.fault = none
  isOpen : o.inbox.closed = false
  notifies : o.inbox.OnlyNotifies

/-- What an action leaves of the inbox is what its first task leaves. -/
theorem Outcome.act_of_calls {o : Outcome} (hfault : o.fault = none) {action : Action}
    {due : List Callback} {x : Exchange} {n : Nat}
    (hask : Exchange.ask o.inbox o.journal action = stepFor n x)
    (htasks : x.tasks = due.map .call ++ [.reply none .done])
    (hprograms : ∀ callback ∈ due, callback.program = []) (hanswer : x.answer = none) :
    (o.act action).inbox = x.inbox ∧ (o.act action).fault = none := by
  rcases stepFor_calls n htasks hprograms hanswer with ⟨hinbox, hresult⟩
  unfold Outcome.act
  rw [hfault]
  simp only [hask]
  exact ⟨hinbox, trivial⟩

theorem Outcome.Flows.push {o : Outcome} (h : o.Flows) (line : Line) :
    (o.act (.push line)).Flows ∧ (o.act (.push line)).inbox.lines = o.inbox.lines ++ [line] := by
  rcases Inbox.push_of_answers h.isOpen fun listener hlistener =>
    (h.notifies listener hlistener).1 line with ⟨due, inbox, hpush⟩
  rcases Inbox.push_eq_held hpush with ⟨-, hopen, hlines, hentries, hdue⟩
  have hask : Exchange.ask o.inbox o.journal (.push line)
      = stepFor (pendingWeight o.inbox + 1)
        ⟨inbox, due.map .call ++ [.reply none .done], [], o.journal, none⟩ := by
    have hweight : (Exchange.mk o.inbox [.perform none (.push line)] [] o.journal none).weight
        = pendingWeight o.inbox + 1 + 2 := by
      change 3 + 0 + pendingWeight o.inbox = _
      omega
    have hfirst : Exchange.push ⟨o.inbox, [.reply none .done], [], o.journal, none⟩ line
        = ⟨inbox, due.map .call ++ [.reply none .done], [], o.journal, none⟩ := by
      rw [Exchange.push]
      simp only [hpush]
      rfl
    rw [Exchange.ask, Exchange.run, hweight, stepFor, stepFor, ← hfirst]
    rfl
  have hprograms : ∀ callback ∈ due, callback.program = [] := fun callback hcallback => by
    rw [hdue] at hcallback
    rcases List.mem_map.mp hcallback with ⟨entry, hentry, rfl⟩
    exact (h.notifies entry.2 (List.mem_map_of_mem (List.mem_filter.mp hentry).1)).2
  rcases Outcome.act_of_calls h.fault hask rfl hprograms rfl with ⟨hinbox, hfault⟩
  refine ⟨⟨hfault, ?_, fun listener hlistener => ?_⟩, ?_⟩
  · rw [hinbox]
    exact hopen
  · rw [hinbox] at hlistener
    rcases List.mem_map.mp hlistener with ⟨entry, hentry, rfl⟩
    rw [hentries] at hentry
    exact h.notifies entry.2 (List.mem_map_of_mem (List.mem_filter.mp hentry).1)
  · rw [hinbox]
    exact hlines

theorem Outcome.Flows.receive {o : Outcome} (h : o.Flows) (line : Line) :
    (o.receive line).Flows ∧ (o.receive line).inbox.lines = o.inbox.lines ++ [line] := by
  have hnoted : (o.note (.lineReceived line)).Flows := ⟨h.fault, h.isOpen, h.notifies⟩
  rw [Outcome.receive, h.fault]
  exact hnoted.push line

theorem Outcome.Flows.receiveAll {o : Outcome} (h : o.Flows) (lines : List Line) :
    (lines.foldl Outcome.receive o).Flows ∧
      (lines.foldl Outcome.receive o).inbox.lines = o.inbox.lines ++ lines := by
  induction lines generalizing o with
  | nil => exact ⟨h, (List.append_nil _).symm⟩
  | cons line rest ih =>
    rcases h.receive line with ⟨hnext, hlines⟩
    rcases ih hnext with ⟨hlast, hall⟩
    refine ⟨hlast, ?_⟩
    rw [List.foldl_cons, hall, hlines, List.append_assoc, List.singleton_append]

/-- A feed that has not broken off closes the inbox, whoever listens. -/
theorem Outcome.act_close {o : Outcome} (hfault : o.fault = none) :
    (o.act .close).inbox = o.inbox.close.2 ∧ (o.act .close).fault = none := by
  have hask : Exchange.ask o.inbox o.journal .close
      = stepFor (pendingWeight o.inbox + 1)
        ((Exchange.mk o.inbox [] [] o.journal none).close.owe [.reply none .done]) := by
    have hweight : (Exchange.mk o.inbox [.perform none .close] [] o.journal none).weight
        = pendingWeight o.inbox + 1 + 1 := by
      change 2 + 0 + pendingWeight o.inbox = _
      omega
    rw [Exchange.ask, Exchange.run, hweight, stepFor]
    rfl
  have hprograms : ∀ callback ∈ ([] : List Callback), callback.program = [] :=
    fun _ hmem => absurd hmem List.not_mem_nil
  exact Outcome.act_of_calls hfault hask rfl hprograms rfl

/-- It does so however the stream has ended. -/
theorem Outcome.finish_closes {o : Outcome} (hfault : o.fault = none)
    (failure : Option IoFailure) :
    (o.finish failure).inbox = o.inbox.close.2 ∧ (o.finish failure).fault = none := by
  unfold Outcome.finish
  rw [hfault]
  cases failure with
  | none => exact Outcome.act_close (o := o.note .channelClosed) hfault
  | some cause =>
    exact Outcome.act_close (o := (o.note (.readFailed cause.message)).note .channelClosed) hfault

theorem Outcome.Flows.finish {o : Outcome} (h : o.Flows) :
    (o.finish none).inbox.lines = o.inbox.lines ∧ (o.finish none).inbox.closed = true ∧
      (o.finish none).fault = none := by
  rcases Outcome.finish_closes h.fault none with ⟨hinbox, hfault⟩
  rw [hinbox]
  exact ⟨rfl, rfl, hfault⟩

/-- Lines that contain no newline and do not end in a carriage return come back as they were
    written, whatever their texts. A channel that takes at least one byte of each attempt takes
    all of them, with any interruptions; and whatever the pieces in which its bytes are read, with
    interruptions as well, just these lines are pushed in their order, and then the inbox is
    closed. An open inbox whose listeners leave it alone holds them then, after those it held. -/
theorem receives_what_is_written {w : Writer} (hsteady : w.Steady) (hfresh : w.taken = [])
    {lines : List String}
    (hlines : ∀ line ∈ lines, '\n' ∉ line.toList ∧ line.toList.getLast? ≠ some '\r') :
    (w.writeLines lines).1 = .ok () ∧
    ∀ reads : List Read, (∀ cause, .failed cause ∉ reads) →
      reads.flatMap Read.bytes = (w.writeLines lines).2.taken →
      ∀ inbox journal,
        run inbox journal reads
          = ((lines.map Line.mk).foldl Outcome.receive ⟨inbox, [], journal, none⟩).finish none ∧
        (inbox.closed = false → inbox.OnlyNotifies →
          (run inbox journal reads).inbox.lines = inbox.lines ++ lines.map Line.mk ∧
          (run inbox journal reads).inbox.closed = true ∧
          (run inbox journal reads).fault = none) := by
  rcases hsteady.writeLines lines with ⟨hok, htaken, -⟩
  refine ⟨hok, fun reads hreads hbytes inbox journal => ?_⟩
  rw [htaken, hfresh, List.nil_append] at hbytes
  have hrun : run inbox journal reads
      = ((lines.map Line.mk).foldl Outcome.receive ⟨inbox, [], journal, none⟩).finish none := by
    rw [run, framed_whole hreads List.not_mem_nil, List.nil_append, hbytes, framed_stream hlines]
  refine ⟨hrun, fun hopen hnotifies => ?_⟩
  have hflows : Outcome.Flows ⟨inbox, [], journal, none⟩ := ⟨rfl, hopen, hnotifies⟩
  rcases hflows.receiveAll (lines.map Line.mk) with ⟨hlast, hall⟩
  rw [hrun, ← hall]
  exact hlast.finish

/-- A channel that takes up to three bytes at a time, and is interrupted now and then. -/
def hesitant : Writer :=
  .fresh (fun n => n % 3 + 1) (fun n => n % 2) none none none .nothingAccepted

/-- Nothing, a carriage return inside a line, and characters of several bytes. -/
def awkward : List String := ["", "open\rclose", "déjà vu", "€\r€"]

/-- They are read byte by byte, with an interruption before each. -/
theorem receives_what_is_written_bytewise :
    (hesitant.writeLines awkward).1 = .ok () ∧
      (run .empty (.empty none) ((hesitant.writeLines awkward).2.taken.flatMap
        fun b => [.interrupted, .data [b]])).inbox.lines = awkward.map Line.mk := by
  have hbytes : ∀ bytes : List UInt8,
      (bytes.flatMap fun b => [Read.interrupted, .data [b]]).flatMap Read.bytes = bytes := by
    intro bytes
    rw [List.flatMap_assoc]
    exact List.flatMap_singleton' bytes
  have hreads : ∀ (bytes : List UInt8) (cause : IoFailure),
      .failed cause ∉ bytes.flatMap fun b => [Read.interrupted, .data [b]] := by
    intro bytes cause hmem
    rcases List.mem_flatMap.mp hmem with ⟨b, -, hfailed⟩
    simp at hfailed
  have hlines : ∀ line ∈ awkward, '\n' ∉ line.toList ∧ line.toList.getLast? ≠ some '\r' := by
    decide
  have hsteady : hesitant.Steady := ⟨fun n => Nat.succ_pos _, rfl, rfl⟩
  rcases receives_what_is_written hsteady rfl hlines with ⟨hok, hall⟩
  exact ⟨hok, ((hall _ (hreads _) (hbytes _) .empty (.empty none)).2 rfl nofun).1⟩

end Feed

end Testbench
