import Testbench.Proofs.Places
import Testbench.Proofs.Roll

/-!
# Where Actions Are Performed

An action that is performed stands somewhere: it was asked, or it is in the program of a
callback, and the callback was registered by an action that stands somewhere itself. An
exchange does not keep this. A log does. For each callback it has the place where the
callback was registered, by the number on the roll of callbacks, and for each action that
is on the stack or has been performed it has the place of the action.

The log does not decide anything, and what it has as performed is what the exchange
performs. That its places are the right ones is shown: they denote just these actions, and
those still on the stack. That no place is used twice comes down to the roll. A program is
gone through when its callback is called, the callback ceases to be due by that, and no
two callbacks were registered at one place, since an action that registers one is itself
at a place that was not used before.

An exchange that fails gives up what is on the stack. The log keeps the places of what was
given up, below those of what comes later, and they are not used any more.

## Main definitions

* `Exchange.performs`: The actions on the stack, with their owners.
* `Log`: Where the actions stand that were performed and that are to be performed.
* `Log.enter`: What a step of an exchange does to it.
* `Log.Sound`: No place is used twice.
* `Log.Tracks`: The log is that of an exchange.

## Theorems

* `Log.Sound.ask`, `Log.Sound.perform`, `Log.Sound.call`: What can happen keeps it sound.
* `Log.Tracks.step`: The log follows the exchange.
* `Log.asked_enter`: Only what is asked is a further program.
* `Log.Started.enter`: What is asked is performed.
-/

namespace Testbench

/-! ### Actions on the stack -/

def Task.performed? : Task → Option (Option String × Action)
  | .perform owner action => some (owner, action)
  | _ => none

namespace Exchange

/-- The actions on the stack, next first, each with the callback in whose program it is. -/
def performs (x : Exchange) : List (Option String × Action) := x.tasks.filterMap Task.performed?

/-- Those that are in programs of callbacks. -/
def inner (x : Exchange) : List Action := x.performs.filterMap fun e => e.1.map fun _ => e.2

variable {x : Exchange}

theorem performs_owe {tasks : List Task} (hplain : tasks.filterMap Task.performed? = []) :
    (x.owe tasks).performs <+: x.performs := by
  refine ⟨[], ?_⟩
  simp only [performs, owe, List.filterMap_append, hplain, List.nil_append, List.append_nil]

theorem performs_push (x : Exchange) (line : Line) : (x.push line).performs <+: x.performs := by
  rcases hpush : x.inbox.push line with fault | ⟨_ | due, inbox⟩
  · simp only [push, hpush]
    exact List.nil_prefix
  · simp only [push, hpush]
    exact List.prefix_refl _
  · simp only [push, hpush]
    refine performs_owe ?_
    rw [List.filterMap_map]
    exact List.filterMap_eq_nil_iff.mpr fun _ _ => rfl

/-- An action puts no other action on the stack, and takes some away only if it fails. -/
theorem performs_perform (x : Exchange) (owner : Option String) (action : Action) :
    (x.perform owner action).performs <+: x.performs := by
  cases action with
  | push line | ready | inspect | unknown | close => exact List.prefix_refl _
  | pushAll lines =>
    refine performs_owe ?_
    rw [List.filterMap_append, List.filterMap_map]
    exact congrArg (· ++ []) (List.filterMap_eq_nil_iff.mpr fun _ _ => rfl)
  | read =>
    rcases hread : x.inbox.read? with _ | ⟨line, inbox⟩
    · simp only [perform, hread]
      exact List.prefix_refl _
    · simp only [perform, hread]
      exact List.prefix_refl _
  | extract wants =>
    rcases hextract : x.inbox.extract wants with ⟨fault | lines, inbox⟩
    · simp only [perform, extract, hextract]
      exact List.nil_prefix
    · simp only [perform, extract, hextract]
      exact List.prefix_refl _
  | fail => exact List.nil_prefix
  | register name wants program =>
    rcases hregister : x.inbox.register ⟨wants, ⟨name, program⟩⟩ with fault | ⟨_ | _ | _, inbox⟩
    · simp only [perform, register, hregister]
      exact List.nil_prefix
    · simp only [perform, register, hregister]
      exact List.prefix_refl _
    · simp only [perform, register, hregister]
      exact List.prefix_refl _
    · simp only [perform, register, hregister]
      exact List.prefix_refl _

theorem inner_prefix {y : Exchange} (h : x.performs <+: y.performs) : x.inner <+: y.inner :=
  h.filterMap _

/-- A task that is no action does not count. -/
theorem inner_of_plain {task : Task} {rest : List Task} (htasks : x.tasks = task :: rest)
    (hplain : task.performed? = none) : x.inner = ({ x with tasks := rest } : Exchange).inner := by
  simp only [inner, performs, htasks, List.filterMap_cons_none hplain]

/-- A call puts the program of the callback on the stack. -/
theorem performs_call (x : Exchange) (callback : Callback) :
    ((x.notice (.fired callback.name)).owe
        (callback.program.map (.perform (some callback.name)))).performs
      = callback.program.map (fun action => (some callback.name, action)) ++ x.performs := by
  have hprogram : (callback.program.map (Task.perform (some callback.name))).filterMap
      Task.performed? = callback.program.map fun action => (some callback.name, action) := by
    rw [List.filterMap_map]
    exact congrFun List.filterMap_eq_map callback.program
  simp only [performs, owe, notice, List.filterMap_append, hprogram]

theorem inner_call (x : Exchange) (callback : Callback) :
    ((x.notice (.fired callback.name)).owe
        (callback.program.map (.perform (some callback.name)))).inner
      = callback.program ++ x.inner := by
  have hprogram : (callback.program.map fun action => (some callback.name, action)).filterMap
      (fun e : Option String × Action => e.1.map fun _ => e.2) = callback.program := by
    rw [List.filterMap_map]
    exact List.filterMap_some
  rw [inner, performs_call, List.filterMap_append, hprogram]
  rfl

/-- What a step puts on the stack are actions of callbacks. -/
theorem performs_step (x : Exchange) : ∀ entry ∈ x.step.performs,
    entry ∈ ({ x with tasks := x.tasks.tail } : Exchange).performs ∨ entry.1.isSome = true := by
  intro entry hentry
  rcases htasks : x.tasks with _ | ⟨task, rest⟩
  · simp only [step, performs, htasks] at hentry
    exact absurd hentry List.not_mem_nil
  · cases task with
    | perform owner action =>
      simp only [step, htasks] at hentry
      exact .inl ((performs_perform _ owner action).mem hentry)
    | push line =>
      simp only [step, htasks] at hentry
      exact .inl ((performs_push _ line).mem hentry)
    | call callback =>
      simp only [step, htasks] at hentry
      rw [performs_call] at hentry
      rcases List.mem_append.mp hentry with hnew | hold
      · rcases List.mem_map.mp hnew with ⟨action, -, rfl⟩
        exact .inr rfl
      · exact .inl hold
    | reply owner reply =>
      simp only [step, htasks] at hentry
      cases owner with
      | none => exact .inl hentry
      | some name => exact .inl hentry

/-- All actions on the stack are those of callbacks. -/
def IsInner (x : Exchange) : Prop := ∀ entry ∈ x.performs, entry.1.isSome = true

theorem IsInner.step (h : x.IsInner) : x.step.IsInner := by
  intro entry hentry
  rcases x.performs_step entry hentry with hold | hinner
  · exact h entry (((List.tail_sublist x.tasks).filterMap _).mem hold)
  · exact hinner

/-- The action that is asked is performed first, and then it is no longer on the stack. -/
theorem isInner_asked (x : Exchange) (action : Action) : (x.asked action).step.IsInner := by
  intro entry hentry
  rcases (x.asked action).performs_step entry hentry with hold | hinner
  · exact absurd hold List.not_mem_nil
  · exact hinner

end Exchange

/-! ### The log -/

structure Log where
  /-- What the callbacks do that were pending at the beginning, by their numbers. -/
  held : List (List Action)
  /-- What has been asked since, earliest first. -/
  asked : List Action
  roll : Roll
  /-- Where the program of each callback is, by its number. -/
  blocks : List Place
  /-- Where the actions on the stack are, next first, and below them those given up. -/
  todo : List Place
  /-- Where the actions are that have been performed, latest first. -/
  done : List Place
  /-- The actions that have been performed, latest first. -/
  performed : List Action

namespace Log

/-- The programs that were given. An action that is asked is a program of its own. -/
def roots (g : Log) : List (List Action) := g.held ++ g.asked.map fun action => [action]

def ask (g : Log) (action : Action) : Log :=
  { g with asked := g.asked ++ [action], todo := .inside (.root g.roots.length) 0 :: g.todo }

/-- The program of a callback is where the callback is registered. -/
def perform (g : Log) (action : Action) : Log :=
  { g with
    blocks := match action with
      | .register _ _ _ => g.blocks ++ g.todo.head?.toList
      | _ => g.blocks
    todo := g.todo.tail
    done := g.todo.head?.toList ++ g.done
    performed := action :: g.performed }

def call (g : Log) : Log :=
  match g.roll.due with
  | [] => g
  | ticket :: _ =>
    match g.blocks[ticket.number]? with
    | none => g
    | some block =>
      { g with todo := block.children ticket.callback.program.length ++ g.todo }

/-- Enters the next step of the exchange. -/
def enter (x : Exchange) (g : Log) : Log :=
  match x.tasks with
  | .perform none action :: _ => { (g.ask action).perform action with roll := g.roll.enter x }
  | .perform (some _) action :: _ => { g.perform action with roll := g.roll.enter x }
  | .call _ :: _ => { g.call with roll := g.roll.enter x }
  | _ => { g with roll := g.roll.enter x }

/-- The program at a place has been begun, because it was asked or its callback was called. -/
def Begun (g : Log) (block : Place) : Prop :=
  (∃ index, g.held.length ≤ index ∧ block = .root index) ∨
    ∃ ticket ∈ g.roll.called, g.blocks[ticket.number]? = some block

structure Sound (g : Log) : Prop where
  numbered : g.blocks.length = g.roll.issued
  /-- No two callbacks were registered at the same place. -/
  apart : g.blocks.Nodup
  programs : ∀ ticket ∈ g.roll.placed, ∃ block, g.blocks[ticket.number]? = some block ∧
    block.program g.roots = ticket.callback.program
  registered : ∀ block ∈ g.blocks, block ∈ g.done ∨ ∃ index < g.held.length, block = .root index
  once : (g.done ++ g.todo).Nodup
  begun : ∀ block index, block.inside index ∈ g.done ++ g.todo → g.Begun block
  present : ∀ place ∈ g.done ++ g.todo, (place.action? g.roots).isSome
  matched : g.done.map (Place.action? g.roots) = g.performed.map some

theorem roots_ask (g : Log) (action : Action) : (g.ask action).roots = g.roots ++ [[action]] := by
  simp only [roots, ask, List.map_append, List.map_cons, List.map_nil, List.append_assoc]

/-- The action that is asked is at the next place. -/
theorem action?_ask (g : Log) (action : Action) :
    (Place.inside (.root g.roots.length) 0).action? (g.ask action).roots = some action := by
  rw [roots_ask, Place.action?, Place.program, List.getElem?_concat_length]
  rfl

theorem held_le_roots (g : Log) : g.held.length ≤ g.roots.length := by
  rw [roots, List.length_append]
  exact Nat.le_add_right _ _

/-! #### What is asked -/

theorem call_eq (g : Log) : ∃ todo, g.call = { g with todo } := by
  unfold call
  split
  · exact ⟨g.todo, rfl⟩
  · split
    · exact ⟨g.todo, rfl⟩
    · exact ⟨_, rfl⟩

theorem held_enter (g : Log) (x : Exchange) : (g.enter x).held = g.held := by
  rcases g.call_eq with ⟨todo, hcall⟩
  unfold enter
  rw [hcall]
  split <;> rfl

/-- Only an action that is asked is a further program. -/
theorem asked_enter (g : Log) {x : Exchange} (h : x.IsInner) : (g.enter x).asked = g.asked := by
  rcases g.call_eq with ⟨todo, hcall⟩
  unfold enter
  rw [hcall]
  split
  · next action rest htasks =>
    have htop : (none, action) ∈ x.performs := by
      rw [Exchange.performs, htasks]
      exact List.mem_cons_self
    exact absurd (h _ htop) nofun
  · rfl
  · rfl
  · rfl

/-- All that has been asked has been performed. -/
def Started (g : Log) : Prop := ∀ index, g.held.length ≤ index → index < g.roots.length →
  (Place.root index).inside 0 ∈ g.done

/-- What is asked is performed in the step that enters it. -/
theorem Started.enter {g : Log} (h : g.Started) (x : Exchange) : (g.enter x).Started := by
  rcases g.call_eq with ⟨todo, hcall⟩
  unfold Log.enter
  rw [hcall]
  split
  · next action rest htasks =>
    intro index hheld hindex
    have hroots : index < (g.ask action).roots.length := hindex
    rw [roots_ask, List.length_append, List.length_singleton] at hroots
    rcases Nat.lt_succ_iff_lt_or_eq.mp hroots with hold | rfl
    · exact List.mem_cons_of_mem _ (h index hheld hold)
    · exact List.mem_cons_self
  · exact fun index hheld hindex => List.mem_append_right _ (h index hheld hindex)
  · exact h
  · exact h

namespace Sound

variable {g : Log}

theorem origin_lt (h : g.Sound) {place : Place} (hplace : place ∈ g.done ++ g.todo) :
    place.origin < g.roots.length :=
  Place.origin_lt (h.present place hplace)

theorem action?_of_asked (h : g.Sound) (action : Action) {place : Place}
    (hplace : place ∈ g.done ++ g.todo) :
    place.action? (g.ask action).roots = place.action? g.roots := by
  rw [roots_ask, Place.action?_append _ (h.origin_lt hplace)]

theorem origin_lt_of_block (h : g.Sound) {block : Place} (hblock : block ∈ g.blocks) :
    block.origin < g.roots.length := by
  rcases h.registered block hblock with hdone | ⟨index, hindex, rfl⟩
  · exact h.origin_lt (List.mem_append_left _ hdone)
  · exact Nat.lt_of_lt_of_le hindex g.held_le_roots

/-- A callback is registered by an action, or was pending, and neither is asked. -/
theorem ne_of_block (h : g.Sound) {block : Place} (hblock : block ∈ g.blocks) {index : Nat}
    (hindex : g.held.length ≤ index) : block ≠ .root index := by
  rintro rfl
  rcases h.registered _ hblock with hdone | ⟨other, hother, heq⟩
  · exact absurd (h.present _ (List.mem_append_left _ hdone)) nofun
  · rw [Place.root.injEq] at heq
    omega

/-! #### What can happen -/

/-- Tickets move, and what was called stays called. -/
theorem move (h : g.Sound) {roll : Roll} (hroll : g.roll.Moved roll) :
    Sound { g with roll } where
  numbered := h.numbered.trans hroll.issued.symm
  apart := h.apart
  programs := fun ticket hticket => h.programs ticket (hroll.placed.mem_iff.mp hticket)
  registered := h.registered
  once := h.once
  begun := by
    intro block index hplace
    rcases h.begun block index hplace with hasked | ⟨ticket, hcalled, hblock⟩
    · exact .inl hasked
    · exact .inr ⟨ticket, hroll.called.mem hcalled, hblock⟩
  present := h.present
  matched := h.matched

/-- A further action is a further program, and its place is new. -/
theorem ask (h : g.Sound) (action : Action) : (g.ask action).Sound where
  numbered := h.numbered
  apart := h.apart
  programs := by
    intro ticket hticket
    rcases h.programs ticket hticket with ⟨block, hblock, hprogram⟩
    refine ⟨block, hblock, ?_⟩
    rw [roots_ask, Place.program_append _ (h.origin_lt_of_block (List.mem_of_getElem? hblock))]
    exact hprogram
  registered := h.registered
  once := by
    refine List.nodup_middle.mpr (List.nodup_cons.mpr ⟨fun hplace => ?_, h.once⟩)
    exact Nat.lt_irrefl _ (h.origin_lt hplace)
  begun := by
    intro block index hplace
    rcases List.mem_cons.mp (List.perm_middle.mem_iff.mp hplace) with heq | hold
    · rw [Place.inside.injEq] at heq
      exact .inl ⟨_, g.held_le_roots, heq.1⟩
    · exact h.begun block index hold
  present := by
    intro place hplace
    rcases List.mem_cons.mp (List.perm_middle.mem_iff.mp hplace) with rfl | hold
    · rw [action?_ask]
      rfl
    · rw [h.action?_of_asked action hold]
      exact h.present place hold
  matched := by
    refine Eq.trans (List.map_congr_left fun place hplace => ?_) h.matched
    exact h.action?_of_asked action (List.mem_append_left _ hplace)

/-- The next place is none at which a callback was registered, as it has not been used. -/
theorem next_not_mem_blocks (h : g.Sound) {place : Place} {rest : List Place}
    (htodo : g.todo = place :: rest) : place ∉ g.blocks := by
  intro hblock
  have honce := h.once
  have hpresent := h.present place
  rw [htodo] at honce hpresent
  rcases h.registered place hblock with hdone | ⟨index, -, rfl⟩
  · exact (List.nodup_cons.mp (List.nodup_middle.mp honce)).1 (List.mem_append_left _ hdone)
  · exact absurd (hpresent (List.mem_append_right _ List.mem_cons_self)) nofun

theorem take (h : g.Sound) {place : Place} {rest : List Place} {action : Action}
    (htodo : g.todo = place :: rest) (haction : place.action? g.roots = some action) :
    Sound { g with
      todo := rest
      done := place :: g.done
      performed := action :: g.performed } := by
  have hperm : (place :: g.done ++ rest).Perm (g.done ++ g.todo) := by
    rw [htodo]
    exact List.perm_middle.symm
  exact {
    numbered := h.numbered
    apart := h.apart
    programs := h.programs
    registered := fun block hblock => (h.registered block hblock).imp_left (List.mem_cons_of_mem _)
    once := hperm.nodup_iff.mpr h.once
    begun := fun block index hplace => h.begun block index (hperm.mem_iff.mp hplace)
    present := fun other hother => h.present other (hperm.mem_iff.mp hother)
    matched := List.cons_eq_cons.mpr ⟨haction, h.matched⟩ }

/-- A callback is registered at the place of the action that was performed last. -/
theorem issue (h : g.Sound) {place : Place} {callback : Callback} {roll : Roll}
    (hdone : place ∈ g.done) (hnew : place ∉ g.blocks)
    (hprogram : place.program g.roots = callback.program) (hroll : g.roll.Issued callback roll) :
    Sound { g with roll, blocks := g.blocks ++ [place] } := by
  have hkept : ∀ {number : Nat} {block : Place}, g.blocks[number]? = some block →
      (g.blocks ++ [place])[number]? = some block := by
    intro number block hblock
    rw [List.getElem?_append_left (List.getElem?_eq_some_iff.mp hblock).1]
    exact hblock
  refine ⟨?_, ?_, ?_, ?_, h.once, ?_, h.present, h.matched⟩
  · rw [List.length_append, h.numbered, hroll.issued, List.length_singleton]
  · exact List.nodup_append_comm.mpr (List.nodup_cons.mpr ⟨hnew, h.apart⟩)
  · intro ticket hticket
    rcases List.mem_cons.mp (hroll.placed.mem_iff.mp hticket) with rfl | hold
    · refine ⟨place, ?_, hprogram⟩
      rw [← h.numbered]
      exact List.getElem?_concat_length
    · rcases h.programs ticket hold with ⟨block, hblock, hsame⟩
      exact ⟨block, hkept hblock, hsame⟩
  · intro block hblock
    rcases List.mem_append.mp hblock with hold | hlast
    · exact h.registered block hold
    · rw [List.mem_singleton.mp hlast]
      exact .inl hdone
  · intro block index hplace
    rcases h.begun block index hplace with hasked | ⟨ticket, hcalled, hblock⟩
    · exact .inl hasked
    · exact .inr ⟨ticket, hroll.called.mem hcalled, hkept hblock⟩

/-- The next action is performed at the next place. -/
theorem perform (h : g.Sound) {place : Place} {rest : List Place} {action : Action}
    (htodo : g.todo = place :: rest) (haction : place.action? g.roots = some action) :
    Sound { g.perform action with roll := g.roll.perform action } := by
  have htaken := h.take htodo haction
  cases action with
  | register name wants program =>
    have hprogram : place.program g.roots = (Callback.mk name program).program :=
      Place.program_of_action? haction
    have hissued := htaken.issue List.mem_cons_self (h.next_not_mem_blocks htodo) hprogram
      (g.roll.issued_register wants ⟨name, program⟩)
    simp only [Log.perform, htodo]
    exact hissued
  | _ =>
    simp only [Log.perform, htodo]
    exact htaken.move (Roll.Moved.perform g.roll nofun)

/-- The program of a callback that is due has not been begun. -/
theorem not_begun (h : g.Sound) (horder : g.roll.IsInOrder) {ticket : Ticket} {block : Place}
    (hdue : ticket ∈ g.roll.due) (hblock : g.blocks[ticket.number]? = some block) :
    ¬ g.Begun block := by
  rintro (⟨index, hindex, heq⟩ | ⟨other, hcalled, hother⟩)
  · exact h.ne_of_block (List.mem_of_getElem? hblock) hindex heq
  · have hnumber : ticket.number = other.number :=
      (List.getElem?_inj (List.getElem?_eq_some_iff.mp hblock).1 h.apart).mp
        (hblock.trans hother.symm)
    -- Each number has one place, so a callback is not both due and called.
    have hnodup : (g.roll.placed.map Ticket.number).Nodup := horder.nodup_iff.mpr List.nodup_range
    rw [Roll.placed, List.map_append, List.map_append] at hnodup
    have hapart := (List.nodup_append.mp (List.nodup_append.mp hnodup).1).2.2
    exact hapart _ (List.mem_map_of_mem (List.mem_append_right _ hdue)) _
      (List.mem_map_of_mem hcalled) hnumber

/-- A call begins the program of its callback, and all places in it are new. -/
theorem call (h : g.Sound) (horder : g.roll.IsInOrder) {ticket : Ticket} {later : List Ticket}
    (hdue : g.roll.due = ticket :: later) : ∃ block : Place,
      block.program g.roots = ticket.callback.program ∧
      g.call = { g with todo := block.children ticket.callback.program.length ++ g.todo } ∧
      Sound { g.call with roll := g.roll.call } := by
  have hticket : ticket ∈ g.roll.due := by
    rw [hdue]
    exact List.mem_cons_self
  have hplaced : ticket ∈ g.roll.placed :=
    List.mem_append_left _ (List.mem_append_left _ (List.mem_append_right _ hticket))
  rcases h.programs ticket hplaced with ⟨block, hblock, hprogram⟩
  have hcall : g.call
      = { g with todo := block.children ticket.callback.program.length ++ g.todo } := by
    simp only [Log.call, hdue, hblock]
  refine ⟨block, hprogram, hcall, ?_⟩
  rw [hcall]
  have hmoved := h.move (Roll.Moved.call g.roll)
  -- The new places come before those that were there, on the stack as in the log.
  have hperm := List.perm_append_comm_assoc g.done
    (block.children ticket.callback.program.length) g.todo
  refine ⟨hmoved.numbered, h.apart, hmoved.programs, h.registered, ?_, ?_, ?_, h.matched⟩
  · refine hperm.nodup_iff.mpr (List.nodup_append.mpr ⟨block.nodup_children _, h.once, ?_⟩)
    rintro place hplace other hother rfl
    rcases Place.mem_children.mp hplace with ⟨index, -, rfl⟩
    exact h.not_begun horder hticket hblock (h.begun block index hother)
  · intro other index hplace
    rcases List.mem_append.mp (hperm.mem_iff.mp hplace) with hcalled | hold
    · rcases Place.mem_children.mp hcalled with ⟨index', -, heq⟩
      have hsame : block = other := (Place.inside.inj heq).1
      subst hsame
      refine .inr ⟨ticket, ?_, hblock⟩
      simp only [Roll.call, hdue]
      exact List.mem_cons_self
    · exact hmoved.begun other index hold
  · intro place hplace
    rcases List.mem_append.mp (hperm.mem_iff.mp hplace) with hcalled | hold
    · rcases Place.mem_children.mp hcalled with ⟨index, hindex, rfl⟩
      have hthere : (block.inside index).action? g.roots
          = some ticket.callback.program[index] := by
        rw [Place.action?, hprogram, List.getElem?_eq_getElem hindex]
      exact congrArg Option.isSome hthere
    · exact h.present place hold

end Sound

/-! ### The log follows the exchange -/

/-- The log is that of an exchange. -/
structure Tracks (g : Log) (x : Exchange) : Prop where
  sound : g.Sound
  order : g.roll.IsInOrder
  mirrors : g.roll.Mirrors x
  /-- What is on the stack is what the log has at its next places. -/
  stack : x.inner.map some <+: g.todo.map (Place.action? g.roots)

namespace Tracks

variable {g : Log} {x : Exchange}

/-- The next place is that of the action on top of the stack. -/
theorem next (h : g.Tracks x) {name : String} {action : Action} {rest : List Task}
    (htasks : x.tasks = .perform (some name) action :: rest) :
    ∃ place later, g.todo = place :: later ∧ place.action? g.roots = some action ∧
      ({ x with tasks := rest } : Exchange).inner.map some
        <+: later.map (Place.action? g.roots) := by
  have hinner : x.inner = action :: ({ x with tasks := rest } : Exchange).inner := by
    simp only [Exchange.inner, Exchange.performs, htasks]
    rfl
  have hstack := h.stack
  rw [hinner] at hstack
  rcases htodo : g.todo with _ | ⟨place, later⟩
  · rw [htodo, List.map_nil, List.prefix_nil] at hstack
    exact absurd hstack (List.cons_ne_nil _ _)
  · rw [htodo, List.map_cons, List.map_cons, List.cons_prefix_cons] at hstack
    exact ⟨place, later, rfl, hstack.1.symm, hstack.2⟩

theorem perform (h : g.Tracks x) {owner : Option String} {action : Action} {rest : List Task}
    (htasks : x.tasks = .perform owner action :: rest) : (g.enter x).Tracks x.step := by
  have hroll : g.roll.enter x = g.roll.perform action := by simp only [Roll.enter, htasks]
  have hleft : x.step.inner <+: ({ x with tasks := rest } : Exchange).inner := by
    simp only [Exchange.step, htasks]
    exact Exchange.inner_prefix (Exchange.performs_perform _ owner action)
  cases owner with
  | none =>
    have hinner : ({ x with tasks := rest } : Exchange).inner = x.inner := by
      simp only [Exchange.inner, Exchange.performs, htasks]
      rfl
    rw [hinner] at hleft
    have hsame : g.todo.map (Place.action? (g.ask action).roots)
        = g.todo.map (Place.action? g.roots) :=
      List.map_congr_left fun place hplace =>
        h.sound.action?_of_asked action (List.mem_append_right _ hplace)
    have hperformed := (h.sound.ask action).perform rfl (g.action?_ask action)
    have hask : g.roll.enter x = (g.ask action).roll.perform action := hroll
    have hstack := (hleft.map some).trans h.stack
    rw [← hask] at hperformed
    rw [← hsame] at hstack
    simp only [enter, htasks]
    exact ⟨hperformed, h.order.enter x, h.mirrors.enter, hstack⟩
  | some name =>
    rcases h.next htasks with ⟨place, later, htodo, haction, hstack⟩
    have hperformed := h.sound.perform htodo haction
    have htail : later = (g.perform action).todo := (congrArg List.tail htodo).symm
    rw [← hroll] at hperformed
    rw [htail] at hstack
    simp only [enter, htasks]
    exact ⟨hperformed, h.order.enter x, h.mirrors.enter, (hleft.map some).trans hstack⟩

theorem call (h : g.Tracks x) {callback : Callback} {rest : List Task}
    (htasks : x.tasks = .call callback :: rest) : (g.enter x).Tracks x.step := by
  rcases h.mirrors.next_due htasks with ⟨ticket, later, hdue, rfl, -⟩
  rcases h.sound.call h.order hdue with ⟨block, hprogram, hcall, hsound⟩
  have hroll : g.roll.enter x = g.roll.call := by simp only [Roll.enter, htasks]
  have hinner : x.step.inner = ticket.callback.program ++ x.inner := by
    simp only [Exchange.step, htasks]
    rw [Exchange.inner_call, ← Exchange.inner_of_plain htasks rfl]
  have hactions : (block.children ticket.callback.program.length).map (Place.action? g.roots)
      = ticket.callback.program.map some := by
    rw [← hprogram]
    exact block.map_action?_children
  rw [← hroll] at hsound
  simp only [enter, htasks]
  refine ⟨hsound, h.order.enter x, h.mirrors.enter, ?_⟩
  have hroots : ({ g.call with roll := g.roll.enter x } : Log).roots = g.roots := by
    rw [hcall]
    rfl
  rw [hinner, hroots, hcall, List.map_append, List.map_append, hactions]
  exact (List.prefix_append_right_inj _).mpr h.stack

/-- Any other task performs nothing, and its tickets only move. -/
theorem plain (h : g.Tracks x) (henter : g.enter x = { g with roll := g.roll.enter x })
    (hroll : g.roll.Moved (g.roll.enter x)) (hinner : x.step.inner <+: x.inner) :
    (g.enter x).Tracks x.step := by
  rw [henter]
  exact ⟨h.sound.move hroll, h.order.enter x, h.mirrors.enter, (hinner.map some).trans h.stack⟩

/-- The log follows the exchange, step by step. -/
theorem step (h : g.Tracks x) : (g.enter x).Tracks x.step := by
  rcases htasks : x.tasks with _ | ⟨task, rest⟩
  · have hroll : g.roll.enter x = g.roll := by simp only [Roll.enter, htasks]
    have hstep : x.step = x := by simp only [Exchange.step, htasks]
    simp only [enter, htasks, hroll, hstep]
    exact h
  · cases task with
    | perform owner action => exact h.perform htasks
    | push line =>
      have hroll : g.roll.Moved (g.roll.enter x) := by
        simp only [Roll.enter, htasks]
        exact Roll.Moved.push g.roll line
      have hinner : x.step.inner <+: x.inner := by
        rw [Exchange.inner_of_plain htasks rfl]
        simp only [Exchange.step, htasks]
        exact Exchange.inner_prefix (Exchange.performs_push _ line)
      exact h.plain (by simp only [enter, htasks]) hroll hinner
    | call callback => exact h.call htasks
    | reply owner reply =>
      have hroll : g.roll.Moved (g.roll.enter x) := by
        simp only [Roll.enter, htasks]
        exact Roll.Moved.refl g.roll
      have hinner : x.step.inner <+: x.inner := by
        rw [Exchange.inner_of_plain htasks rfl]
        simp only [Exchange.step, htasks]
        cases owner with
        | none => exact List.prefix_refl _
        | some name => exact List.prefix_refl _
      exact h.plain (by simp only [enter, htasks]) hroll hinner

theorem asked (h : g.Tracks x) (hidle : x.tasks = []) (action : Action) :
    g.Tracks (x.asked action) :=
  ⟨h.sound, h.order, h.mirrors.asked hidle action, List.nil_prefix⟩

end Tracks

end Log

end Testbench
