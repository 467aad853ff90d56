import Mathlib.Logic.Function.Basic
import Mathlib.Logic.Relation
import Testbench.Proofs.Waiting

/-!
# Waking a Bench

A bench that waits for a directive sleeps on a channel, and the callback of its
listener rings. This module looks at the threads that take part in that: the one of
the bench, which searches, registers and sleeps, and any number of producers, which
push lines and close the input.

What is indivisible is an operation on the inbox, and nothing else. A push takes the
listeners that want its line out of the inbox and appends the line, but it calls them
afterwards, one by one; closing gives up the listeners afterwards, too. Between a
search and the registration after it, and between an operation and the duties that it
leaves to its thread, all other threads may do anything. The duties of a thread are a
list, as they are carried out in order.

Every wait makes a new channel, and channels are numbered. Ringing leaves a message
in the channel; a callback that is given up, or has been called, releases its end.
The bench sleeps until there is a message, or until the other end is released.

The invariant has to say where the listener of a sleeping bench is: in the inbox, in
the duties of some thread, or spent. It is in the inbox only as long as the inbox is
open and holds no directive, and it is released without being rung only if no
directive can come any more.

## Main definitions

* `Threads`: The state of all threads.
* `Threads.Step`: One step of one of them.
* `Threads.Spent`: A channel that may be released.
* `Threads.Sound`: The invariant.

## Theorems

* `Threads.Sound.step`: Every step keeps the invariant.
* `Threads.called_of_directive`: No directive is slept through.
* `Threads.sleeper_is_safe`: A sleeping bench will be woken, or there is nothing to wake it
  for; and it takes the input to have ended only if it has.
-/

namespace Testbench

/-- What the thread of the bench is about to do. -/
inductive Vigil
  | searching
  /-- The search was in vain. -/
  | registering
  | sleeping (channel : Nat)
  /-- A search has found this directive. -/
  | found (directive : Line)
  /-- The wait is over, and the input has ended. -/
  | ended

/-- What a thread has still to do after an operation on the inbox. -/
inductive Duty
  | ring (channel : Nat)
  | release (channel : Nat)
  deriving DecidableEq

/-- The callback of a listener is a channel. The duties of the bench's own thread are
    those of `none`, and those of the producers are numbered. -/
structure Threads where
  inbox : Inbox Nat
  vigil : Vigil
  duties : Option Nat → List Duty
  rung : Nat → Bool
  released : Nat → Bool
  /-- The number of channels made. -/
  channels : Nat

namespace Threads

open Function

def initial (lines : List Line) (closed : Bool) : Threads :=
  ⟨⟨lines, Slots.empty, closed⟩, .searching, fun _ => [], fun _ => false, fun _ => false, 0⟩

def carryOut (t : Threads) : Duty → Threads
  | .ring channel => { t with rung := update t.rung channel true }
  | .release channel => { t with released := update t.released channel true }

/-- Calling a listener rings, and then the channel goes with the callback. -/
def calls (due : List Nat) : List Duty :=
  due.flatMap fun channel => [.ring channel, .release channel]

inductive Step : Threads → Threads → Prop
  | find {t : Threads} {directive : Line} {superseded : List Line} {inbox : Inbox Nat}
      (hvigil : t.vigil = .searching)
      (h : t.inbox.extract Bench.wantsDirective = (.ok (directive :: superseded), inbox)) :
      Step t { t with inbox, vigil := .found directive }
  | miss {t : Threads} {inbox : Inbox Nat} (hvigil : t.vigil = .searching)
      (h : t.inbox.extract Bench.wantsDirective = (.ok [], inbox)) :
      Step t { t with inbox, vigil := .registering }
  | satisfied {t : Threads} {inbox : Inbox Nat} (hvigil : t.vigil = .registering)
      (hfree : t.duties none = [])
      (h : t.inbox.register ⟨Bench.wantsDirective, t.channels⟩ = .ok (.satisfied, inbox)) :
      Step t { t with
        inbox, vigil := .sleeping t.channels, channels := t.channels + 1
        duties := update t.duties none (calls [t.channels]) }
  | refused {t : Threads} {inbox : Inbox Nat} (hvigil : t.vigil = .registering)
      (hfree : t.duties none = [])
      (h : t.inbox.register ⟨Bench.wantsDirective, t.channels⟩ = .ok (.refused, inbox)) :
      Step t { t with
        inbox, vigil := .sleeping t.channels, channels := t.channels + 1
        duties := update t.duties none [.release t.channels] }
  | pending {t : Threads} {inbox : Inbox Nat} (hvigil : t.vigil = .registering)
      (hfree : t.duties none = [])
      (h : t.inbox.register ⟨Bench.wantsDirective, t.channels⟩ = .ok (.pending, inbox)) :
      Step t { t with inbox, vigil := .sleeping t.channels, channels := t.channels + 1 }
  | wake {t : Threads} {channel : Nat} (hvigil : t.vigil = .sleeping channel)
      (hfree : t.duties none = []) (h : t.rung channel = true) :
      Step t { t with vigil := .searching }
  | giveUp {t : Threads} {channel : Nat} (hvigil : t.vigil = .sleeping channel)
      (hfree : t.duties none = []) (hunrung : t.rung channel = false)
      (h : t.released channel = true) : Step t { t with vigil := .ended }
  /-- Between two waits the system under test reads lines. -/
  | read {t : Threads} {directive line : Line} {inbox : Inbox Nat}
      (hvigil : t.vigil = .found directive) (h : t.inbox.read? = some (line, inbox)) :
      Step t { t with inbox }
  | again {t : Threads} {directive : Line} (hvigil : t.vigil = .found directive) :
      Step t { t with vigil := .searching }
  | push {t : Threads} {producer : Nat} {line : Line} {due : List Nat} {inbox : Inbox Nat}
      (hfree : t.duties (some producer) = [])
      (h : t.inbox.push line = .ok (.held due, inbox)) :
      Step t { t with inbox, duties := update t.duties (some producer) (calls due) }
  | discard {t : Threads} {producer : Nat} {line : Line} {inbox : Inbox Nat}
      (hfree : t.duties (some producer) = [])
      (h : t.inbox.push line = .ok (.discarded, inbox)) : Step t { t with inbox }
  | close {t : Threads} {producer : Nat} {givenUp : List Nat} {inbox : Inbox Nat}
      (hfree : t.duties (some producer) = []) (h : t.inbox.close = (givenUp, inbox)) :
      Step t { t with inbox, duties := update t.duties (some producer) (givenUp.map .release) }
  | serve {t : Threads} {thread : Option Nat} {duty : Duty} {rest : List Duty}
      (h : t.duties thread = duty :: rest) :
      Step t ({ t with duties := update t.duties thread rest }.carryOut duty)

def Reachable (t : Threads) : Prop :=
  ∃ lines closed, Relation.ReflTransGen Step (initial lines closed) t

/-! ### Operations on the inbox -/

theorem extract_eq {inbox next : Inbox Nat} {directives : List Line}
    (h : inbox.extract Bench.wantsDirective = (.ok directives, next)) :
    next = { inbox with lines := inbox.lines.filter fun line => !line.isDirective } := by
  have hdivide : divide Bench.wantsDirective inbox.lines = _ :=
    divide_ok Line.isDirective inbox.lines
  simp only [Inbox.extract, hdivide] at h
  exact (Prod.mk.inj h).2.symm

theorem plain_of_anyWanted {lines : List Line}
    (h : anyWanted Bench.wantsDirective lines = .ok false) :
    ∀ line ∈ lines, line.isDirective = false := by
  have hany : anyWanted Bench.wantsDirective lines = _ := anyWanted_ok Line.isDirective lines
  rw [hany, Except.ok.injEq, List.any_eq_false] at h
  intro line hline
  exact eq_false_of_ne_true (h line hline)

theorem accepts_eq {listener : Listener Nat} (h : listener.wants = Bench.wantsDirective)
    (line : Line) : listener.accepts line = line.isDirective := by
  unfold Listener.accepts
  rw [h]
  rfl

/-! ### Duties -/

/-- Some thread has still to do with the channel. -/
def Owed (duties : Option Nat → List Duty) (channel : Nat) : Prop :=
  ∃ thread, .ring channel ∈ duties thread ∨ .release channel ∈ duties thread

/-- Every channel is rung before it is released, unless that is excused. -/
def Orderly (excused : Nat → Prop) (duties : List Duty) : Prop :=
  ∀ before channel after, duties = before ++ .release channel :: after →
    .ring channel ∈ before ∨ excused channel

theorem orderly_nil (excused : Nat → Prop) : Orderly excused [] := fun _ _ _ h =>
  absurd h.symm (List.append_ne_nil_of_right_ne_nil _ (List.cons_ne_nil _ _))

theorem orderly_calls (excused : Nat → Prop) (due : List Nat) : Orderly excused (calls due) := by
  intro before channel after h
  left
  induction due generalizing before with
  | nil => exact absurd h.symm (List.append_ne_nil_of_right_ne_nil _ (List.cons_ne_nil _ _))
  | cons first due ih =>
    unfold calls at h
    rw [List.flatMap_cons] at h
    -- The first call is two duties: the release is not the first of them, or it is the
    -- second, or it comes behind both and belongs to a later call.
    rcases before with _ | ⟨duty, _ | ⟨duty', before⟩⟩
    · exact absurd (List.cons.inj h).1 (by simp only [reduceCtorEq, not_false_eq_true])
    · have hring := (List.cons.inj h).1
      have hrelease := (List.cons.inj (List.cons.inj h).2).1
      rw [Duty.release.injEq] at hrelease
      rw [← hring, hrelease]
      exact List.mem_cons_self
    · have hrest := (List.cons.inj (List.cons.inj h).2).2
      exact List.mem_cons_of_mem _ (List.mem_cons_of_mem _ (ih before hrest))

theorem Orderly.mono {excused excused' : Nat → Prop} {duties : List Duty}
    (h : Orderly excused duties) (himp : ∀ channel, excused channel → excused' channel) :
    Orderly excused' duties :=
  fun before channel after heq => (h before channel after heq).imp id (himp channel)

theorem mem_calls {due : List Nat} {channel : Nat} : .ring channel ∈ calls due ↔ channel ∈ due := by
  simp only [calls, List.mem_flatMap, List.mem_cons, Duty.ring.injEq, reduceCtorEq,
    List.not_mem_nil, or_false, exists_eq_right']

theorem update_eq_true {f : Nat → Bool} {channel other : Nat} (h : f other = true) :
    update f channel true other = true := by
  by_cases hother : other = channel
  · rw [hother, update_self]
  · rw [update_of_ne hother, h]

section Update

variable {duties : Option Nat → List Duty} {thread : Option Nat} {new : List Duty}

theorem forall_update {p : List Duty → Prop} (h : ∀ other, p (duties other)) (hnew : p new) :
    ∀ other, p (update duties thread new other) := by
  intro other
  by_cases hother : other = thread
  · rw [hother, update_self]
    exact hnew
  · rw [update_of_ne hother]
    exact h other

theorem owed_update {channel : Nat} (hfree : duties thread = []) (h : Owed duties channel) :
    Owed (update duties thread new) channel := by
  rcases h with ⟨other, hduty⟩
  -- The thread itself owes nothing yet, so the duty is that of another one.
  have hother : other ≠ thread := by
    rintro rfl
    rw [hfree] at hduty
    exact hduty.elim List.not_mem_nil List.not_mem_nil
  refine ⟨other, ?_⟩
  rw [update_of_ne hother]
  exact hduty

theorem owed_of_mem {channel : Nat} (h : .ring channel ∈ new ∨ .release channel ∈ new) :
    Owed (update duties thread new) channel := by
  refine ⟨thread, ?_⟩
  rw [update_self]
  exact h

/-- A thread that carries out a duty owes the rest. -/
theorem owed_rest {channel : Nat} {duty : Duty} (h : duties thread = duty :: new)
    (howed : Owed duties channel) :
    duty = .ring channel ∨ duty = .release channel ∨ Owed (update duties thread new) channel := by
  rcases howed with ⟨other, hduty⟩
  by_cases hother : other = thread
  · rw [hother, h] at hduty
    rcases hduty with hring | hrelease
    · rcases List.mem_cons.mp hring with hfirst | hrest
      · exact .inl hfirst.symm
      · exact .inr (.inr (owed_of_mem (.inl hrest)))
    · rcases List.mem_cons.mp hrelease with hfirst | hrest
      · exact .inr (.inl hfirst.symm)
      · exact .inr (.inr (owed_of_mem (.inr hrest)))
  · refine .inr (.inr ⟨other, ?_⟩)
    rw [update_of_ne hother]
    exact hduty

/-- Carrying out a duty brings no call with it. -/
theorem quiet_rest {channel : Nat} {duty : Duty} (h : duties thread = duty :: new)
    (hquiet : ∀ other, .ring channel ∉ duties other) :
    ∀ other, .ring channel ∉ update duties thread new other := by
  refine forall_update (p := fun duties => .ring channel ∉ duties) hquiet fun hring => ?_
  refine hquiet thread ?_
  rw [h]
  exact List.mem_cons_of_mem duty hring

end Update

theorem Orderly.rest {excused : Nat → Prop} {duty : Duty} {duties : List Duty}
    (h : Orderly excused (duty :: duties)) :
    Orderly (fun channel => duty = .ring channel ∨ excused channel) duties := by
  intro before channel after hduties
  have hwhole : duty :: duties = (duty :: before) ++ .release channel :: after := by
    rw [hduties]
    rfl
  rcases h _ _ _ hwhole with hring | hexcused
  · rcases List.mem_cons.mp hring with hfirst | hbefore
    · exact .inr (.inl hfirst.symm)
    · exact .inl hbefore
  · exact .inr (.inr hexcused)

/-! ### The invariant -/

/-- The inbox is closed and holds no directive, so there will never be one. -/
def IsOver (t : Threads) : Prop :=
  t.inbox.closed = true ∧ ∀ line ∈ t.inbox.lines, line.isDirective = false

/-- The end of a channel can be released without harm. -/
def Spent (t : Threads) (channel : Nat) : Prop := t.rung channel = true ∨ t.IsOver

structure Sound (t : Threads) : Prop where
  /-- A pending listener is that of the sleeping bench, and nobody has called it. -/
  listeners : ∀ e ∈ t.inbox.listeners.entries, e.2.wants = Bench.wantsDirective ∧
    t.vigil = .sleeping e.2.callback ∧ t.rung e.2.callback = false ∧
    ∀ thread, .ring e.2.callback ∉ t.duties thread
  heard : t.inbox.listeners.entries ≠ [] →
    t.inbox.closed = false ∧ ∀ line ∈ t.inbox.lines, line.isDirective = false
  made : ∀ channel, t.vigil = .sleeping channel → channel < t.channels
  fresh : ∀ channel, t.channels ≤ channel →
    t.rung channel = false ∧ ∀ thread, .ring channel ∉ t.duties thread
  released : ∀ channel, t.released channel = true → t.Spent channel
  orderly : ∀ thread, Orderly t.Spent (t.duties thread)
  covered : ∀ channel, t.vigil = .sleeping channel →
    t.rung channel = true ∨ t.released channel = true ∨ Owed t.duties channel ∨
    ∃ e ∈ t.inbox.listeners.entries, e.2.callback = channel
  ended : t.vigil = .ended → t.IsOver

theorem sound_initial (lines : List Line) (closed : Bool) : Sound (initial lines closed) where
  listeners _ he := absurd he List.not_mem_nil
  heard h := absurd rfl h
  made _ h := absurd h nofun
  fresh _ _ := ⟨rfl, fun _ => List.not_mem_nil⟩
  released _ h := absurd h Bool.false_ne_true
  orderly _ := orderly_nil _
  covered _ h := absurd h nofun
  ended h := absurd h nofun

namespace Sound

variable {t : Threads}

/-- A bench that is awake has no listener. -/
theorem unheard (ht : Sound t) {vigil : Vigil} (hvigil : t.vigil = vigil)
    (hawake : ∀ channel, vigil ≠ .sleeping channel) : t.inbox.listeners.entries = [] := by
  rcases hentries : t.inbox.listeners.entries with _ | ⟨e, rest⟩
  · rfl
  · have he : e ∈ t.inbox.listeners.entries := by
      rw [hentries]
      exact List.mem_cons_self
    exact absurd (hvigil.symm.trans (ht.listeners e he).2.1) (hawake e.2.callback)

/-- A bench whose channel is done with has no listener either. -/
theorem unheard_of_spent (ht : Sound t) {channel : Nat} (hvigil : t.vigil = .sleeping channel)
    (hspent : t.Spent channel) : t.inbox.listeners.entries = [] := by
  rcases hentries : t.inbox.listeners.entries with _ | ⟨e, rest⟩
  · rfl
  · have he : e ∈ t.inbox.listeners.entries := by
      rw [hentries]
      exact List.mem_cons_self
    rcases ht.listeners e he with ⟨-, hsleeping, hunrung, -⟩
    have hheard := ht.heard (by rw [hentries]; exact List.cons_ne_nil _ _)
    -- A pending listener has not been rung, and it is pending only while the inbox is open.
    have hchannel : channel = e.2.callback := Vigil.sleeping.inj (hvigil.symm.trans hsleeping)
    rw [← hchannel] at hunrung
    rcases hspent with hrung | hover
    · exact absurd hrung (ne_true_of_eq_false hunrung)
    · exact absurd hover.1 (ne_true_of_eq_false hheard.1)

/-- Lines can be taken out of the inbox. -/
theorem withLines (ht : Sound t) {lines : List Line}
    (hlines : ∀ line ∈ lines, line ∈ t.inbox.lines) :
    Sound { t with inbox := { t.inbox with lines } } := by
  -- Everything the invariant says of the lines is said of each of them.
  have hover : t.IsOver → IsOver { t with inbox := { t.inbox with lines } } :=
    fun h => ⟨h.1, fun line hline => h.2 line (hlines line hline)⟩
  have hspent : ∀ channel, t.Spent channel →
      Spent { t with inbox := { t.inbox with lines } } channel :=
    fun channel h => h.imp id hover
  refine ⟨ht.listeners, ?_, ht.made, ht.fresh,
    fun channel h => hspent channel (ht.released channel h),
    fun thread => (ht.orderly thread).mono hspent, ht.covered, fun h => hover (ht.ended h)⟩
  intro hheard
  exact ⟨(ht.heard hheard).1, fun line hline => (ht.heard hheard).2 line (hlines line hline)⟩

/-- Without a listener the bench can go on, if it does not go to sleep. -/
theorem withVigil (ht : Sound t) (hunheard : t.inbox.listeners.entries = []) {vigil : Vigil}
    (hawake : ∀ channel, vigil ≠ .sleeping channel) (hended : vigil = .ended → t.IsOver) :
    Sound { t with vigil } := by
  refine ⟨?_, ht.heard, fun channel h => absurd h (hawake channel), ht.fresh, ht.released,
    ht.orderly, fun channel h => absurd h (hawake channel), hended⟩
  intro e he
  rw [hunheard] at he
  exact absurd he List.not_mem_nil

/-- A line that is no directive calls nobody. -/
theorem pushPlain (ht : Sound t) {line : Line} {inbox : Inbox Nat} {due : List Nat}
    (h : t.inbox.push line = .ok (.held due, inbox)) (hplain : line.isDirective = false) :
    due = [] ∧ Sound { t with inbox } := by
  rcases Inbox.push_eq_held h with ⟨hopen, hopen', hlines, hlisteners, hdue⟩
  -- All pending listeners ask for directives, so they all refuse the line.
  have hrefuse : ∀ e ∈ t.inbox.listeners.entries, e.2.accepts line = false := by
    intro e he
    rw [accepts_eq (ht.listeners e he).1, hplain]
  have hnone : t.inbox.listeners.entries.filter (fun e => e.2.accepts line) = [] := by
    rw [List.filter_eq_nil_iff]
    exact fun e he => ne_true_of_eq_false (hrefuse e he)
  have hsame : inbox.listeners.entries = t.inbox.listeners.entries := by
    rw [hlisteners, List.filter_eq_self]
    intro e he
    rw [hrefuse e he]
    rfl
  -- An open inbox is not over, so a spent channel has been rung, and that is not undone.
  have hnotover : ¬ t.IsOver := fun hover => absurd hover.1 (ne_true_of_eq_false hopen)
  have hspent : ∀ channel, t.Spent channel → Spent { t with inbox } channel :=
    fun channel hspent => .inl (hspent.resolve_right hnotover)
  refine ⟨by rw [hdue, hnone]; rfl, ?_, ?_, ht.made, ht.fresh,
    fun channel hreleased => hspent channel (ht.released channel hreleased),
    fun thread => (ht.orderly thread).mono hspent, ?_,
    fun hended => absurd (ht.ended hended) hnotover⟩
  · rw [hsame]
    exact ht.listeners
  · intro hheard
    rw [hsame] at hheard
    refine ⟨hopen', ?_⟩
    rw [hlines]
    intro other hother
    rcases List.mem_append.mp hother with hold | hnew
    · exact (ht.heard hheard).2 other hold
    · rw [List.mem_singleton.mp hnew]
      exact hplain
  · rw [hsame]
    exact ht.covered

/-- Listeners that are taken out of the inbox, all at once, become duties. -/
theorem taken (ht : Sound t) {inbox : Inbox Nat} {thread : Option Nat} {new : List Duty}
    (hfree : t.duties thread = []) (hnone : inbox.listeners.entries = [])
    (hmade : ∀ channel, .ring channel ∈ new →
      ∃ e ∈ t.inbox.listeners.entries, e.2.callback = channel)
    (hall : ∀ e ∈ t.inbox.listeners.entries,
      .ring e.2.callback ∈ new ∨ .release e.2.callback ∈ new)
    (hspent : ∀ channel, t.Spent channel → Spent { t with inbox } channel)
    (horderly : Orderly (Spent { t with inbox }) new) (hover : t.IsOver → IsOver { t with inbox }) :
    Sound { t with inbox, duties := update t.duties thread new } := by
  refine ⟨?_, fun hheard => absurd hnone hheard, ht.made, ?_,
    fun channel h => hspent channel (ht.released channel h),
    forall_update (fun other => (ht.orderly other).mono hspent) horderly, ?_,
    fun h => hover (ht.ended h)⟩
  · intro e he
    rw [hnone] at he
    exact absurd he List.not_mem_nil
  · intro channel hchannel
    refine ⟨(ht.fresh channel hchannel).1,
      forall_update (p := fun duties => .ring channel ∉ duties) (ht.fresh channel hchannel).2 ?_⟩
    intro hring
    rcases hmade channel hring with ⟨e, he, rfl⟩
    exact absurd (ht.made _ (ht.listeners e he).2.1) (Nat.not_lt.mpr hchannel)
  -- Of the four places where the listener can be, only the inbox has been emptied.
  · intro channel hsleeping
    rcases ht.covered channel hsleeping with hrung | hreleased | howed | ⟨e, he, rfl⟩
    · exact .inl hrung
    · exact .inr (.inl hreleased)
    · exact .inr (.inr (.inl (owed_update hfree howed)))
    · exact .inr (.inr (.inl (owed_of_mem (hall e he))))

/-- A directive takes the bench's listener into the duties of the producer. -/
theorem pushDirective (ht : Sound t) {line : Line} {inbox : Inbox Nat} {due : List Nat}
    {thread : Option Nat} (hfree : t.duties thread = [])
    (h : t.inbox.push line = .ok (.held due, inbox)) (hdirective : line.isDirective = true) :
    Sound { t with inbox, duties := update t.duties thread (calls due) } := by
  rcases Inbox.push_eq_held h with ⟨hopen, -, -, hlisteners, hdue⟩
  -- All pending listeners ask for directives, so the push takes them all.
  have haccept : ∀ e ∈ t.inbox.listeners.entries, e.2.accepts line = true := by
    intro e he
    rw [accepts_eq (ht.listeners e he).1, hdirective]
  have hall : t.inbox.listeners.entries.filter (fun e => e.2.accepts line)
      = t.inbox.listeners.entries := List.filter_eq_self.mpr haccept
  have hnone : inbox.listeners.entries = [] := by
    rw [hlisteners, List.filter_eq_nil_iff]
    intro e he
    rw [haccept e he]
    exact Bool.false_ne_true
  have hmem : ∀ channel, channel ∈ due ↔
      ∃ e ∈ t.inbox.listeners.entries, e.2.callback = channel := by
    intro channel
    rw [hdue, hall, List.mem_map]
  have hnotover : ¬ t.IsOver := fun hover => absurd hover.1 (ne_true_of_eq_false hopen)
  refine ht.taken hfree hnone (fun channel hring => (hmem channel).mp (mem_calls.mp hring))
    (fun e he => .inl (mem_calls.mpr ((hmem _).mpr ⟨e, he, rfl⟩)))
    (fun channel hspent => .inl (hspent.resolve_right hnotover)) (orderly_calls _ due)
    (fun hover => absurd hover hnotover)

/-- Closing releases the bench's listener unrung, but only if no directive is left. -/
theorem close (ht : Sound t) {inbox : Inbox Nat} {givenUp : List Nat} {thread : Option Nat}
    (hfree : t.duties thread = []) (h : t.inbox.close = (givenUp, inbox)) :
    Sound { t with inbox, duties := update t.duties thread (givenUp.map .release) } := by
  rcases Prod.mk.inj h with ⟨rfl, rfl⟩
  have hover : t.IsOver → IsOver { t with inbox := t.inbox.close.2 } := fun hover => ⟨rfl, hover.2⟩
  refine ht.taken hfree rfl ?_ ?_ (fun channel hspent => hspent.imp id hover) ?_ hover
  · intro channel hring
    rcases List.mem_map.mp hring with ⟨_, _, hduty⟩
    exact absurd hduty (by simp only [reduceCtorEq, not_false_eq_true])
  · intro e he
    exact .inr (List.mem_map_of_mem (List.mem_map_of_mem (List.mem_map_of_mem he)))
  · intro before channel after hduties
    -- A release comes from a pending listener, and where one is pending no directive is.
    have hheard : t.inbox.listeners.entries ≠ [] := by
      intro hnone
      rw [Slots.values, hnone] at hduties
      exact List.append_ne_nil_of_right_ne_nil _ (List.cons_ne_nil _ _) hduties.symm
    exact .inr (.inr ⟨rfl, (ht.heard hheard).2⟩)

/-- The bench goes to sleep on a new channel. Its listener is already with its own
    thread, or it is pending. -/
theorem sleep (ht : Sound t) (hunheard : t.inbox.listeners.entries = []) {new : List Duty}
    (hring : ∀ channel, .ring channel ∈ new → channel = t.channels)
    (howed : .ring t.channels ∈ new ∨ .release t.channels ∈ new)
    (horderly : Orderly t.Spent new) :
    Sound { t with
      vigil := .sleeping t.channels, channels := t.channels + 1
      duties := update t.duties none new } := by
  refine ⟨?_, ht.heard, ?_, ?_, ht.released, forall_update ht.orderly horderly, ?_,
    fun h => absurd h nofun⟩
  · intro e he
    rw [hunheard] at he
    exact absurd he List.not_mem_nil
  · intro channel h
    rw [← Vigil.sleeping.inj h]
    exact Nat.lt_succ_self _
  · intro channel hchannel
    -- The new channel is no longer fresh, and nothing is known to be done with later ones.
    have hlater : t.channels + 1 ≤ channel := hchannel
    rcases ht.fresh channel (Nat.le_of_succ_le hlater) with ⟨hrung, hidle⟩
    refine ⟨hrung, forall_update (p := fun duties => .ring channel ∉ duties) hidle ?_⟩
    intro hnew
    have hsame := hring channel hnew
    omega
  · intro channel h
    rw [← Vigil.sleeping.inj h]
    exact .inr (.inr (.inl (owed_of_mem howed)))

theorem pending (ht : Sound t) (hunheard : t.inbox.listeners.entries = [])
    (hopen : t.inbox.closed = false) (hplain : ∀ line ∈ t.inbox.lines, line.isDirective = false) :
    Sound { t with
      inbox := { t.inbox with
        listeners := t.inbox.listeners.insert ⟨Bench.wantsDirective, t.channels⟩ }
      vigil := .sleeping t.channels, channels := t.channels + 1 } := by
  rcases Slots.entries_insert t.inbox.listeners ⟨Bench.wantsDirective, t.channels⟩ with ⟨key, hperm⟩
  -- It is the only listener there is, under whatever key.
  rw [hunheard] at hperm
  have hentries := List.perm_singleton.mp hperm
  rcases ht.fresh t.channels (Nat.le_refl _) with ⟨hrung, hidle⟩
  refine ⟨?_, fun _ => ⟨hopen, hplain⟩, ?_, ?_, ht.released, ht.orderly, ?_,
    fun h => absurd h nofun⟩
  · intro e he
    rw [hentries, List.mem_singleton] at he
    rw [he]
    exact ⟨rfl, rfl, hrung, hidle⟩
  · intro channel h
    rw [← Vigil.sleeping.inj h]
    exact Nat.lt_succ_self _
  · exact fun channel hchannel => ht.fresh channel (Nat.le_of_succ_le hchannel)
  · intro channel h
    rw [← Vigil.sleeping.inj h]
    refine .inr (.inr (.inr ⟨(key, ⟨Bench.wantsDirective, t.channels⟩), ?_, rfl⟩))
    rw [hentries]
    exact List.mem_singleton_self _

/-- Ringing leaves a message. -/
theorem ring (ht : Sound t) {thread : Option Nat} {channel : Nat} {rest : List Duty}
    (h : t.duties thread = .ring channel :: rest) :
    Sound { t with
      duties := update t.duties thread rest, rung := update t.rung channel true } := by
  have hring : .ring channel ∈ t.duties thread := by
    rw [h]
    exact List.mem_cons_self
  -- A channel that nobody is to ring is another one, and stays unrung.
  have hsame : ∀ other, (∀ thread, .ring other ∉ t.duties thread) →
      update t.rung channel true other = t.rung other ∧
        ∀ thread', .ring other ∉ update t.duties thread rest thread' := by
    intro other hidle
    have hother : other ≠ channel := by
      rintro rfl
      exact hidle thread hring
    exact ⟨update_of_ne hother _ _, quiet_rest h hidle⟩
  have hspent : ∀ other, .ring channel = Duty.ring other ∨ t.Spent other → Spent { t with
      duties := update t.duties thread rest, rung := update t.rung channel true } other := by
    rintro other (heq | hother | hover)
    · rw [← Duty.ring.inj heq]
      exact .inl (update_self _ _ _)
    · exact .inl (update_eq_true hother)
    · exact .inr hover
  have horderly := ht.orderly thread
  rw [h] at horderly
  refine ⟨?_, ht.heard, ht.made, ?_,
    fun other hother => hspent other (.inr (ht.released other hother)),
    forall_update (fun other => (ht.orderly other).mono fun c hc => hspent c (.inr hc))
      (horderly.rest.mono hspent), ?_, ht.ended⟩
  · intro e he
    rcases ht.listeners e he with ⟨hwants, hvigil, hunrung, hidle⟩
    rcases hsame e.2.callback hidle with ⟨hkept, hidle'⟩
    exact ⟨hwants, hvigil, hkept.trans hunrung, hidle'⟩
  · intro other hother
    rcases ht.fresh other hother with ⟨hunrung, hidle⟩
    rcases hsame other hidle with ⟨hkept, hidle'⟩
    exact ⟨hkept.trans hunrung, hidle'⟩
  · intro other hsleeping
    rcases ht.covered other hsleeping with hother | hreleased | howed | hpending
    · exact .inl (update_eq_true hother)
    · exact .inr (.inl hreleased)
    · rcases owed_rest h howed with heq | heq | hleft
      · exact .inl (by rw [← Duty.ring.inj heq]; exact update_self _ _ _)
      · exact absurd heq (by simp only [reduceCtorEq, not_false_eq_true])
      · exact .inr (.inr (.inl hleft))
    · exact .inr (.inr (.inr hpending))

/-- The end of a channel that comes first is spent. -/
theorem release (ht : Sound t) {thread : Option Nat} {channel : Nat} {rest : List Duty}
    (h : t.duties thread = .release channel :: rest) :
    Sound { t with
      duties := update t.duties thread rest, released := update t.released channel true } := by
  have horderly := ht.orderly thread
  rw [h] at horderly
  -- No duty comes before this one, so there is no ringing that could excuse it.
  have hspent : t.Spent channel :=
    (horderly [] channel rest rfl).resolve_left List.not_mem_nil
  refine ⟨?_, ht.heard, ht.made, ?_, ?_, ?_, ?_, ht.ended⟩
  · intro e he
    rcases ht.listeners e he with ⟨hwants, hvigil, hunrung, hquiet⟩
    exact ⟨hwants, hvigil, hunrung, quiet_rest h hquiet⟩
  · intro other hother
    rcases ht.fresh other hother with ⟨hunrung, hquiet⟩
    exact ⟨hunrung, quiet_rest h hquiet⟩
  · intro other hother
    by_cases heq : other = channel
    · rw [heq]
      exact hspent
    · exact ht.released other ((update_of_ne heq _ _).symm.trans hother)
  · refine forall_update ht.orderly (horderly.rest.mono ?_)
    rintro other (heq | hother)
    · exact absurd heq (by simp only [reduceCtorEq, not_false_eq_true])
    · exact hother
  · intro other hsleeping
    rcases ht.covered other hsleeping with hrung | hreleased | howed | hpending
    · exact .inl hrung
    · exact .inr (.inl (update_eq_true hreleased))
    · rcases owed_rest h howed with heq | heq | hleft
      · exact absurd heq (by simp only [reduceCtorEq, not_false_eq_true])
      · exact .inr (.inl (by rw [← Duty.release.inj heq]; exact update_self _ _ _))
      · exact .inr (.inr (.inl hleft))
    · exact .inr (.inr (.inr hpending))

/-- Every step keeps the invariant. -/
theorem step (ht : Sound t) {next : Threads} (h : Step t next) : Sound next := by
  cases h with
  | find hvigil h | miss hvigil h =>
    rw [extract_eq h]
    exact (ht.withLines fun line hline => (List.mem_filter.mp hline).1).withVigil
      (ht.unheard hvigil nofun) nofun nofun
  | satisfied hvigil hfree h =>
    rcases Inbox.register_cases h with ⟨-, -, rfl⟩ | ⟨heq, -⟩ | ⟨heq, -⟩
    · refine ht.sleep (ht.unheard hvigil nofun) ?_ (.inl ?_) (orderly_calls _ _)
      · exact fun channel hring => List.mem_singleton.mp (mem_calls.mp hring)
      · exact mem_calls.mpr List.mem_cons_self
    · exact absurd heq nofun
    · exact absurd heq nofun
  | refused hvigil hfree h =>
    rcases Inbox.register_cases h with ⟨heq, -⟩ | ⟨-, hnone, hclosed, rfl⟩ | ⟨heq, -⟩
    · exact absurd heq nofun
    · refine ht.sleep (ht.unheard hvigil nofun) ?_ (.inr List.mem_cons_self) ?_
      · intro channel hring
        exact absurd (List.mem_singleton.mp hring) nofun
      · exact fun _ _ _ _ => .inr (.inr ⟨hclosed, plain_of_anyWanted hnone⟩)
    · exact absurd heq nofun
  | pending hvigil hfree h =>
    rcases Inbox.register_cases h with ⟨heq, -⟩ | ⟨heq, -⟩ | ⟨-, hnone, hopen, rfl⟩
    · exact absurd heq nofun
    · exact absurd heq nofun
    · exact ht.pending (ht.unheard hvigil nofun) hopen (plain_of_anyWanted hnone)
  | wake hvigil hfree h =>
    exact ht.withVigil (ht.unheard_of_spent hvigil (.inl h)) nofun nofun
  | giveUp hvigil hfree hunrung h =>
    -- A channel that was released unrung is spent for want of any directive to come.
    have hspent := ht.released _ h
    have hover : t.IsOver := hspent.resolve_left (ne_true_of_eq_false hunrung)
    exact ht.withVigil (ht.unheard_of_spent hvigil hspent) nofun fun _ => hover
  | @read directive line inbox hvigil h =>
    cases hlines : t.inbox.lines with
    | nil =>
      unfold Inbox.read? at h
      rw [hlines] at h
      exact absurd h nofun
    | cons first rest =>
      unfold Inbox.read? at h
      rw [hlines] at h
      rw [← (Prod.mk.inj (Option.some.inj h)).2]
      refine ht.withLines fun line hline => ?_
      rw [hlines]
      exact List.mem_cons_of_mem first hline
  | again hvigil => exact ht.withVigil (ht.unheard hvigil nofun) nofun nofun
  -- A push of another line leaves no duties, so the producer stays as it was.
  | @push producer line due inbox hfree h =>
    by_cases hdirective : line.isDirective = true
    · exact ht.pushDirective hfree h hdirective
    · rcases ht.pushPlain h (eq_false_of_ne_true hdirective) with ⟨rfl, hsound⟩
      have hkept : update t.duties (some producer) (calls []) = t.duties := by
        unfold calls
        rw [List.flatMap_nil, ← hfree]
        exact update_eq_self _ _
      rw [hkept]
      exact hsound
  | discard hfree h =>
    rw [(Inbox.push_eq_discarded h).2]
    exact ht
  | close hfree h => exact ht.close hfree h
  | @serve thread duty rest h =>
    cases duty with
    | ring channel => exact ht.ring h
    | release channel => exact ht.release h

end Sound

/-- Every reachable state satisfies the invariant. -/
theorem Reachable.sound {t : Threads} (h : Reachable t) : Sound t := by
  rcases h with ⟨lines, closed, hsteps⟩
  induction hsteps with
  | refl => exact sound_initial lines closed
  | tail _ hstep ih => exact ih.step hstep

/-- However the threads take turns, a bench that sleeps has a message in its channel, or
    a producer is about to call or to give up its listener, or the channel is released, or
    the listener is pending in an open inbox without a directive. And the input has ended
    for the bench only if the inbox is closed and holds no directive. -/
theorem sleeper_is_safe {t : Threads} (h : Reachable t) :
    (∀ channel, t.vigil = .sleeping channel → t.duties none = [] →
      t.rung channel = true ∨
      (∃ producer, .ring channel ∈ t.duties (some producer) ∨
        .release channel ∈ t.duties (some producer)) ∨
      t.released channel = true ∨
      ((∃ e ∈ t.inbox.listeners.entries, e.2 = ⟨Bench.wantsDirective, channel⟩) ∧
        t.inbox.closed = false ∧ ∀ line ∈ t.inbox.lines, line.isDirective = false)) ∧
    (t.vigil = .ended →
      t.inbox.closed = true ∧ ∀ line ∈ t.inbox.lines, line.isDirective = false) := by
  have ht := h.sound
  refine ⟨fun channel hsleeping hfree => ?_, ht.ended⟩
  rcases ht.covered channel hsleeping with hrung | hreleased | ⟨thread, howed⟩ | ⟨e, he, hchannel⟩
  · exact .inl hrung
  · exact .inr (.inr (.inl hreleased))
  -- The bench's own thread sleeps, so it has no duties, and the thread is a producer's.
  · cases thread with
    | none =>
      rw [hfree] at howed
      exact absurd howed (not_or.mpr ⟨List.not_mem_nil, List.not_mem_nil⟩)
    | some producer => exact .inr (.inl ⟨producer, howed⟩)
  · rcases ht.listeners e he with ⟨hwants, -⟩
    have hlistener : e.2 = ⟨Bench.wantsDirective, channel⟩ := by rw [← hwants, ← hchannel]
    exact .inr (.inr (.inr ⟨⟨e, he, hlistener⟩, ht.heard (List.ne_nil_of_mem he)⟩))

/-- While a directive is in the inbox, nobody gives up the listener of a sleeping bench:
    it has been called, or is about to be. -/
theorem called_of_directive {t : Threads} (h : Reachable t) {channel : Nat} {line : Line}
    (hsleeping : t.vigil = .sleeping channel) (hline : line ∈ t.inbox.lines)
    (hdirective : line.isDirective = true) :
    t.rung channel = true ∨ ∃ thread, .ring channel ∈ t.duties thread := by
  have ht := h.sound
  have hnotplain : ¬ ∀ line ∈ t.inbox.lines, line.isDirective = false := fun hplain =>
    absurd hdirective (ne_true_of_eq_false (hplain line hline))
  have hrung : t.Spent channel → t.rung channel = true :=
    fun hspent => hspent.resolve_right fun hover => hnotplain hover.2
  rcases ht.covered channel hsleeping with
    hdone | hreleased | ⟨thread, hring | hrelease⟩ | ⟨e, he, -⟩
  · exact .inl hdone
  · exact .inl (hrung (ht.released channel hreleased))
  · exact .inr ⟨thread, hring⟩
  -- What is to be released has been rung or will be rung before that, since the excuse
  -- for not ringing is that there is no directive.
  · rcases List.append_of_mem hrelease with ⟨before, after, hduties⟩
    rcases ht.orderly thread before channel after hduties with hring | hspent
    · refine .inr ⟨thread, ?_⟩
      rw [hduties]
      exact List.mem_append_left _ hring
    · exact .inl (hrung hspent)
  · exact absurd (ht.heard (List.ne_nil_of_mem he)).2 hnotplain

/-- Registered in vain, and then a producer pushes a directive. -/
def pushed : Threads where
  inbox := ⟨[⟨"Delay: 1"⟩], ⟨[none], [0], by simp, by simp⟩, false⟩
  vigil := .sleeping 0
  duties := update (fun _ => []) (some 7) [.ring 0, .release 0]
  rung _ := false
  released _ := false
  channels := 1

theorem reachable_pushed : Reachable pushed := by
  refine ⟨[], false, .tail (.tail (.tail .refl (.miss rfl rfl)) (.pending rfl rfl rfl)) ?_⟩
  exact @Step.push _ 7 ⟨"Delay: 1"⟩ [0] pushed.inbox rfl rfl

theorem sleeper_is_safe_pushed :
    pushed.vigil = .sleeping 0 ∧ pushed.duties none = [] ∧ pushed.rung 0 = false ∧
      ∃ producer, .ring 0 ∈ pushed.duties (some producer) ∨
        .release 0 ∈ pushed.duties (some producer) := by
  refine ⟨rfl, rfl, rfl, ?_⟩
  rcases (sleeper_is_safe reachable_pushed).1 0 rfl rfl with
    hrung | howed | hreleased | ⟨⟨e, he, -⟩, -⟩
  · exact absurd hrung Bool.false_ne_true
  · exact howed
  · exact absurd hreleased Bool.false_ne_true
  · exact absurd he List.not_mem_nil

end Threads

end Testbench
