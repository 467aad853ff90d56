import Testbench.Proofs.Performances

/-!
# No Action Is Performed Twice

An operation may set off callbacks, which perform operations of their own and register
further callbacks, to any depth. This ends, and none of it happens twice: an operation is
performed at most once for each place at which it stands in a program. So the operations
that are performed are no more than the programs hold, however they set each other off.

The inbox need not be new. The callbacks that are pending in it are numbered in the order
of their listeners, and have programs that were given, like the actions that are asked. So
the log of an exchange can be begun with any inbox.

## Main definitions

* `Slots.number`, `Roll.of`: The pending callbacks of any inbox, numbered.
* `Log.of`: Its log, before anything is asked.
* `OnRecord.carryOut`: Actions asked one after another.
* `Log.Once`: What has been performed of the programs given, and that it was done once.

## Theorems

* `Roll.mirrors_of`, `Roll.isInOrder_of`: Any inbox has a roll.
* `OnRecord.tracks_carryOut`: The log follows any number of actions.
* `Log.Sound.performed_once`: What a log shows.
* `operations_are_performed_at_most_once`: What has been performed, after any actions.
-/

namespace Testbench

/-! ### A roll for any inbox -/

namespace Slots

variable {α : Type}

/-- The values are numbered in key order, and the cells stay where they are. -/
def numberFrom (first : Nat) : List (Option α) → List (Option (α × Nat))
  | [] => []
  | none :: rest => none :: numberFrom first rest
  | some a :: rest => some (a, first) :: numberFrom (first + 1) rest

theorem numberFrom_empty {first key : Nat} {cells : List (Option α)}
    (h : cells[key]? = some none) : (numberFrom first cells)[key]? = some none := by
  induction cells generalizing first key with
  | nil => cases h
  | cons cell rest ih =>
    cases key with
    | zero =>
      rw [List.getElem?_cons_zero, Option.some.injEq] at h
      subst h
      rfl
    | succ key =>
      rw [List.getElem?_cons_succ] at h
      cases cell with
      | none => exact ih h
      | some a => exact ih h

def number (s : Slots α) : Slots (α × Nat) where
  cells := numberFrom 0 s.cells
  free := s.free
  free_empty := fun key hkey => numberFrom_empty (s.free_empty key hkey)
  free_nodup := s.free_nodup

theorem map_numberFrom (first : Nat) (cells : List (Option α)) :
    (numberFrom first cells).map (Option.map Prod.fst) = cells := by
  induction cells generalizing first with
  | nil => rfl
  | cons cell rest ih =>
    cases cell with
    | none => exact congrArg (List.cons none) (ih first)
    | some a => exact congrArg (List.cons (some a)) (ih (first + 1))

theorem values_numberFrom (key first : Nat) (cells : List (Option α)) :
    (entriesFrom key (numberFrom first cells)).map Prod.snd
      = ((entriesFrom key cells).map Prod.snd).zipIdx first := by
  induction cells generalizing key first with
  | nil => rfl
  | cons cell rest ih =>
    cases cell with
    | none => exact ih (key + 1) first
    | some a => exact congrArg (List.cons (a, first)) (ih (key + 1) (first + 1))

theorem values_number (s : Slots α) : s.number.values = s.values.zipIdx :=
  values_numberFrom 0 0 s.cells

end Slots

namespace Roll

/-- The callbacks are numbered in the order of their listeners. -/
def of (inbox : Inbox Callback) : Roll where
  inbox := ⟨inbox.lines, inbox.listeners.number.map fun e => e.1.map (Ticket.mk e.2), inbox.closed⟩
  due := []
  called := []
  dropped := []
  issued := inbox.listeners.values.length

theorem placed_of (inbox : Inbox Callback) :
    (of inbox).placed = inbox.listeners.values.zipIdx.map fun e => ⟨e.2, e.1.callback⟩ := by
  simp only [placed, pending, of, List.append_nil, Slots.values_map, Slots.values_number,
    List.map_map]
  rfl

theorem mirrors_of (inbox : Inbox Callback) (journal : Journal) :
    (of inbox).Mirrors ⟨inbox, [], [], journal, none⟩ := by
  refine ⟨?_, rfl, List.nil_prefix, List.nil_prefix⟩
  have hlisteners : inbox.listeners = ((of inbox).inbox.map Ticket.callback).listeners := by
    refine Slots.ext_cells ?_ rfl
    simp only [of, Inbox.map, Slots.map, List.map_map]
    refine (Slots.map_numberFrom 0 inbox.listeners.cells).symm.trans (List.map_congr_left ?_)
    rintro (_ | entry) -
    · rfl
    · rfl
  exact congrArg (fun listeners => (⟨inbox.lines, listeners, inbox.closed⟩ : Inbox Callback))
    hlisteners

theorem isInOrder_of (inbox : Inbox Callback) : (of inbox).IsInOrder := by
  refine .of_eq ?_
  rw [placed_of, List.map_map, of, List.range_eq_range']
  exact List.zipIdx_map_snd 0 inbox.listeners.values

end Roll

/-! ### Actions asked one after another -/

namespace Log

/-- Nothing has been asked yet, and the callbacks pending are those of the inbox. -/
def of (inbox : Inbox Callback) : Log where
  held := inbox.listeners.values.map fun listener => listener.callback.program
  asked := []
  roll := .of inbox
  blocks := (List.range inbox.listeners.values.length).map .root
  todo := []
  done := []
  performed := []

theorem sound_of (inbox : Inbox Callback) : (of inbox).Sound where
  numbered := by
    simp only [of, List.length_map, List.length_range]
    rfl
  apart := List.nodup_range.map fun i j heq => Place.root.inj heq
  programs := by
    intro ticket hticket
    have hplaced : ticket ∈ (Roll.of inbox).placed := hticket
    rw [Roll.placed_of] at hplaced
    rcases List.mem_map.mp hplaced with ⟨⟨listener, number⟩, hlistener, rfl⟩
    rw [List.mk_mem_zipIdx_iff_getElem?] at hlistener
    have hnumber := (List.getElem?_eq_some_iff.mp hlistener).1
    refine ⟨.root number, ?_, ?_⟩
    · simp only [of, List.getElem?_map, List.getElem?_range hnumber, Option.map_some]
    · simp only [of, roots, Place.program, List.map_nil, List.append_nil, List.getElem?_map,
        hlistener, Option.map_some, Option.getD_some]
  registered := by
    intro block hblock
    rcases List.mem_map.mp hblock with ⟨index, hindex, rfl⟩
    refine .inr ⟨index, ?_, rfl⟩
    rw [of, List.length_map]
    exact List.mem_range.mp hindex
  once := List.nodup_nil
  begun := fun _ _ hplace => absurd hplace List.not_mem_nil
  present := fun _ hplace => absurd hplace List.not_mem_nil
  matched := rfl

theorem started_of (inbox : Inbox Callback) : (of inbox).Started := by
  intro index hheld hindex
  have hnone : (of inbox).roots = (of inbox).held := List.append_nil _
  rw [hnone] at hindex
  exact absurd hindex (Nat.not_lt.mpr hheld)

theorem tracks_of (inbox : Inbox Callback) (journal : Journal) :
    (of inbox).Tracks ⟨inbox, [], [], journal, none⟩ :=
  ⟨sound_of inbox, Roll.isInOrder_of inbox, Roll.mirrors_of inbox journal, List.nil_prefix⟩

end Log

namespace OnRecord

variable {ρ : Type}

/-- Actions asked one after another, each carried out with all that it sets off. -/
def carryOut (enter : Exchange → ρ → ρ) : List Action → OnRecord ρ → OnRecord ρ
  | [], k => k
  | action :: rest, k =>
    carryOut enter rest
      (nextFor enter (k.exchange.asked action).weight ⟨k.exchange.asked action, k.record⟩)

/-- The record has no say in it. -/
theorem exchange_carryOut (enter : Exchange → ρ → ρ) (actions : List Action) (k : OnRecord ρ) :
    (carryOut enter actions k).exchange
      = actions.foldl (fun x action => Exchange.ask x.inbox x.journal action) k.exchange := by
  induction actions generalizing k with
  | nil => rfl
  | cons action rest ih =>
    rw [carryOut, ih, exchange_nextFor, List.foldl_cons]
    rfl

/-- What an action that is carried out leaves. -/
structure Carried (action : Action) (k next : OnRecord Log) : Prop where
  tracks : next.record.Tracks next.exchange
  started : next.record.Started
  idle : next.exchange.tasks = []
  held : next.record.held = k.record.held
  asked : next.record.asked = k.record.asked ++ [action]

theorem Tracks.nextFor (n : Nat) {k : OnRecord Log} (h : k.record.Tracks k.exchange) :
    (nextFor Log.enter n k).record.Tracks (nextFor Log.enter n k).exchange := by
  induction n generalizing k with
  | zero => exact h
  | succ n ih => exact ih h.step

theorem Started.nextFor (n : Nat) {k : OnRecord Log} (h : k.record.Started) :
    (nextFor Log.enter n k).record.Started := by
  induction n generalizing k with
  | zero => exact h
  | succ n ih => exact ih (h.enter k.exchange)

theorem held_nextFor (n : Nat) (k : OnRecord Log) :
    (nextFor Log.enter n k).record.held = k.record.held := by
  induction n generalizing k with
  | zero => rfl
  | succ n ih => exact (ih (k.next Log.enter)).trans (Log.held_enter _ _)

theorem asked_nextFor (n : Nat) {k : OnRecord Log} (h : k.exchange.IsInner) :
    (nextFor Log.enter n k).record.asked = k.record.asked := by
  induction n generalizing k with
  | zero => rfl
  | succ n ih => exact (ih h.step).trans (Log.asked_enter _ h)

theorem carried (action : Action) {k : OnRecord Log} (h : k.record.Tracks k.exchange)
    (hstarted : k.record.Started) (hidle : k.exchange.tasks = []) :
    Carried action k
      (nextFor Log.enter (k.exchange.asked action).weight ⟨k.exchange.asked action, k.record⟩) where
  tracks := Tracks.nextFor _ (h.asked hidle action)
  started := Started.nextFor _ hstarted
  idle := by
    rw [exchange_nextFor]
    exact Exchange.tasks_stepFor _ _ (Nat.le_refl _)
  held := held_nextFor _ _
  asked := by
    -- The first step enters the action, and the others are those of callbacks.
    have hweight : (k.exchange.asked action).weight ≠ 0 :=
      Nat.ne_zero_of_lt (Exchange.weight_step (List.cons_ne_nil _ _))
    rcases Nat.exists_eq_succ_of_ne_zero hweight with ⟨n, hn⟩
    rw [hn]
    exact asked_nextFor n (k.exchange.isInner_asked action)

/-- The log follows any number of actions. -/
theorem tracks_carryOut (actions : List Action) {k : OnRecord Log}
    (h : k.record.Tracks k.exchange) (hstarted : k.record.Started)
    (hidle : k.exchange.tasks = []) :
    (carryOut Log.enter actions k).record.Tracks (carryOut Log.enter actions k).exchange ∧
      (carryOut Log.enter actions k).exchange.tasks = [] ∧
      (carryOut Log.enter actions k).record.Started ∧
      (carryOut Log.enter actions k).record.held = k.record.held ∧
      (carryOut Log.enter actions k).record.roots
        = k.record.roots ++ actions.map fun action => [action] := by
  induction actions generalizing k with
  | nil => exact ⟨h, hidle, hstarted, rfl, (List.append_nil _).symm⟩
  | cons action rest ih =>
    have hcarried := carried action h hstarted hidle
    rcases ih hcarried.tracks hcarried.started hcarried.idle with
      ⟨htracks, hlast, hstarted', hheld, hroots⟩
    refine ⟨htracks, hlast, hstarted', hheld.trans hcarried.held, hroots.trans ?_⟩
    simp only [Log.roots, hcarried.held, hcarried.asked, List.map_append, List.map_cons,
      List.map_nil, List.append_assoc, List.cons_append, List.nil_append]

end OnRecord

/-! ### Nothing is performed twice -/

/-- What has been performed of the programs given. -/
structure Log.Once (g : Log) (programs : List (List Action)) : Prop where
  /-- The places are places in these programs. -/
  given : g.roots = programs
  /-- They are the places of the actions that have been performed. -/
  matched : g.done.map (Place.action? programs) = g.performed.map some
  /-- What stands in a callback is performed only if the callback has been registered. -/
  nested : ∀ block index, block.inside index ∈ g.done →
    block ∈ g.done ∨ ∃ number, block = .root number
  /-- No place is used twice. -/
  once : g.done.Nodup
  /-- So there are no more of them than the programs hold. -/
  bounded : g.performed.length ≤ total occurrencesIn programs

theorem Log.Sound.performed_once {g : Log} (h : g.Sound) : g.Once g.roots where
  given := rfl
  matched := h.matched
  nested := by
    intro block index hplace
    rcases h.begun block index (List.mem_append_left _ hplace) with ⟨number, -, rfl⟩ |
      ⟨ticket, -, hblock⟩
    · exact .inr ⟨number, rfl⟩
    · rcases h.registered block (List.mem_of_getElem? hblock) with hdone | ⟨number, -, rfl⟩
      · exact .inl hdone
      · exact .inr ⟨number, rfl⟩
  once := (List.nodup_append.mp h.once).1
  bounded := by
    have hlength := congrArg List.length h.matched
    rw [List.length_map, List.length_map] at hlength
    rw [← hlength]
    exact Place.length_le (List.nodup_append.mp h.once).1 fun place hplace =>
      h.present place (List.mem_append_left _ hplace)

/-- Some actions are asked of an inbox, one after another. -/
def carriedOut (inbox : Inbox Callback) (journal : Journal) (actions : List Action) :
    OnRecord Log :=
  .carryOut Log.enter actions ⟨⟨inbox, [], [], journal, none⟩, .of inbox⟩

/-- Whatever an inbox holds, whatever the callbacks of its listeners do, and whatever is asked
    of it: each action that is asked ends, with all that it sets off. The actions that have
    been performed stand in the programs of those callbacks and of the actions asked, inner
    programs included, and none of them was performed twice. So there are no more of them than
    these programs hold. What was asked itself has been performed. -/
theorem operations_are_performed_at_most_once (inbox : Inbox Callback) (journal : Journal)
    (actions : List Action) :
    (carriedOut inbox journal actions).exchange
        = actions.foldl (fun x action => Exchange.ask x.inbox x.journal action)
          ⟨inbox, [], [], journal, none⟩ ∧
      (carriedOut inbox journal actions).exchange.tasks = [] ∧
      (carriedOut inbox journal actions).record.Once
        ((inbox.listeners.values.map fun listener => listener.callback.program) ++
          actions.map fun action => [action]) ∧
      ∀ index < actions.length,
        (Place.root (inbox.listeners.values.length + index)).inside 0
          ∈ (carriedOut inbox journal actions).record.done := by
  have hbegin : (Log.of inbox).Tracks ⟨inbox, [], [], journal, none⟩ :=
    Log.tracks_of inbox journal
  have hroots : (Log.of inbox).roots
      = inbox.listeners.values.map fun listener => listener.callback.program :=
    List.append_nil _
  rcases OnRecord.tracks_carryOut (k := ⟨⟨inbox, [], [], journal, none⟩, .of inbox⟩) actions
    hbegin (Log.started_of inbox) rfl with ⟨htracks, hidle, hstarted, hheld, hgiven⟩
  have honce := htracks.sound.performed_once
  rw [hgiven, hroots] at honce
  refine ⟨OnRecord.exchange_carryOut Log.enter actions _, hidle, honce, fun index hindex => ?_⟩
  have hlisteners : (Log.of inbox).held.length = inbox.listeners.values.length :=
    List.length_map _
  refine hstarted _ ?_ ?_
  · rw [hheld, hlisteners]
    exact Nat.le_add_right _ _
  · rw [hgiven, hroots, List.length_append, List.length_map, List.length_map]
    exact Nat.add_lt_add_left hindex _

/-- The first callback registers the second, which finds a line and is called at once. -/
example : (carriedOut .empty (.empty none)
    [.register "first" (fun _ => .ok true)
      [.push ⟨"b"⟩, .register "second" (fun _ => .ok true) [.read]], .push ⟨"a"⟩]).record.done
      = [((Place.root 0).inside 0 |>.inside 1).inside 0, ((Place.root 0).inside 0).inside 1,
        ((Place.root 0).inside 0).inside 0, (Place.root 1).inside 0, (Place.root 0).inside 0] := by
  rfl

end Testbench
