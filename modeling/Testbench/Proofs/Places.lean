import Mathlib.Data.List.Nodup
import Mathlib.Data.List.Perm.Subperm
import Testbench.Inbox.Exchange.Ending
import Testbench.Proofs.OnRecord

/-!
# Places in Programs

Two callbacks may have the same program, and a program may hold the same action twice.
Which of them was performed cannot be seen from the action. So actions are told apart by
their places: a program that was given has a number, an action has an index in its
program, and the program of a callback has the place of the action that registers it.

A place is read in the programs that were given. More programs may be given later, and
what a place denotes does not change by that. The places of actions can be listed,
program by program and each action before those inside it, and there are as many as
there are occurrences of actions. So if no place is used twice, the uses are no more than
the occurrences.

## Main definitions

* `Place`: A given program, or an action inside a program.
* `Place.action?`, `Place.program`: What is at a place.
* `Place.children`: The places of the actions of a program.
* `Action.occurrences`, `occurrencesIn`: How many actions there are, inner ones included.
* `Action.places`, `placesIn`, `placesOf`: Where they are.

## Theorems

* `Place.program_append`, `Place.action?_append`: Programs given later do not matter.
* `length_placesOf`: There are as many places as occurrences.
* `Place.mem_placesOf`: Every action that is at a place is listed.
* `Place.length_le`: Places that are used once are no more than the occurrences.
-/

namespace Testbench

/-- The place of an action is also that of the program of the action. -/
inductive Place
  | root (index : Nat)
  | inside (block : Place) (index : Nat)
  deriving DecidableEq

namespace Place

def program (roots : List (List Action)) : Place → List Action
  | .root index => roots[index]?.getD []
  | .inside block index => ((block.program roots)[index]?.map Action.program).getD []

def action? (roots : List (List Action)) : Place → Option Action
  | .root _ => none
  | .inside block index => (block.program roots)[index]?

/-- The places of the actions of a program, by the number of actions. -/
def children (block : Place) (count : Nat) : List Place := (List.range count).map block.inside

/-- The number of the given program that the place is in. -/
def origin : Place → Nat
  | .root index => index
  | .inside block _ => block.origin

variable {roots : List (List Action)}

theorem program_of_action? {place : Place} {action : Action}
    (h : place.action? roots = some action) : place.program roots = action.program := by
  cases place with
  | root index => cases h
  | inside block index =>
    rw [action?] at h
    rw [program, h]
    rfl

theorem mem_children {block place : Place} {count : Nat} :
    place ∈ block.children count ↔ ∃ index < count, block.inside index = place := by
  rw [children, List.mem_map]
  simp only [List.mem_range]

theorem nodup_children (block : Place) (count : Nat) : (block.children count).Nodup :=
  List.nodup_range.map fun _ _ heq => (Place.inside.inj heq).2

/-- There is one place for each action of a program. -/
theorem map_action?_children (block : Place) :
    (block.children (block.program roots).length).map (action? roots)
      = (block.program roots).map some := by
  rw [children, List.map_map]
  refine List.ext_getElem (by simp only [List.length_map, List.length_range]) ?_
  intro index hindex hlength
  rw [List.length_map] at hlength
  rw [List.getElem_map, List.getElem_map, List.getElem_range, Function.comp_apply, action?,
    List.getElem?_eq_getElem hlength]

/-! ### Programs that are given later -/

/-- Nothing is in a program that was not given. -/
theorem program_of_le {place : Place} (h : roots.length ≤ place.origin) :
    place.program roots = [] := by
  induction place with
  | root index =>
    have hindex : roots.length ≤ index := h
    rw [program, List.getElem?_eq_none hindex]
    rfl
  | inside block index ih =>
    rw [program, ih h]
    rfl

theorem origin_lt {place : Place} (h : (place.action? roots).isSome) :
    place.origin < roots.length := by
  cases place with
  | root index => exact absurd h nofun
  | inside block index =>
    refine Nat.lt_of_not_le fun hle => ?_
    have hblock : roots.length ≤ block.origin := hle
    rw [action?, program_of_le hblock] at h
    exact absurd h nofun

theorem program_append (more : List (List Action)) {place : Place}
    (h : place.origin < roots.length) :
    place.program (roots ++ more) = place.program roots := by
  induction place with
  | root index =>
    have hindex : index < roots.length := h
    rw [program, program, List.getElem?_append_left hindex]
  | inside block index ih => rw [program, program, ih h]

theorem action?_append (more : List (List Action)) {place : Place}
    (h : place.origin < roots.length) :
    place.action? (roots ++ more) = place.action? roots := by
  cases place with
  | root index => rfl
  | inside block index =>
    have hblock : block.origin < roots.length := h
    rw [action?, action?, program_append more hblock]

end Place

/-! ### Occurrences and their places -/

mutual

/-- An action occurs once, and the actions inside it as often as they stand there. -/
def Action.occurrences : Action → Nat
  | .register _ _ program => occurrencesIn program + 1
  | .push _ | .pushAll _ | .close | .read | .ready | .extract _ | .inspect | .unknown | .fail => 1

def occurrencesIn : List Action → Nat
  | [] => 0
  | action :: rest => action.occurrences + occurrencesIn rest

end

mutual

/-- The place of an action, which is given, and those of all actions inside it. -/
def Action.places (place : Place) : Action → List Place
  | .register _ _ program => place :: placesIn place 0 program
  | .push _ | .pushAll _ | .close | .read | .ready | .extract _ | .inspect | .unknown | .fail =>
    [place]

/-- The places in a part of a program, from the given index on. -/
def placesIn (block : Place) (first : Nat) : List Action → List Place
  | [] => []
  | action :: rest => action.places (block.inside first) ++ placesIn block (first + 1) rest

end

/-- The places in programs with numbers from the given one on. -/
def placesOf (first : Nat) : List (List Action) → List Place
  | [] => []
  | program :: rest => placesIn (.root first) 0 program ++ placesOf (first + 1) rest

theorem places_eq (place : Place) (action : Action) :
    action.places place = place :: placesIn place 0 action.program := by
  cases action <;> rfl

mutual

theorem length_places (place : Place) : ∀ action : Action,
    (action.places place).length = action.occurrences
  | .register _ _ program => by
    rw [Action.places, Action.occurrences, List.length_cons, length_placesIn]
  | .push _ | .pushAll _ | .close | .read | .ready | .extract _ | .inspect | .unknown | .fail => rfl

theorem length_placesIn (block : Place) (first : Nat) : ∀ program : List Action,
    (placesIn block first program).length = occurrencesIn program
  | [] => rfl
  | action :: rest => by
    rw [placesIn, occurrencesIn, List.length_append, length_places, length_placesIn]

end

/-- There are as many places as occurrences. -/
theorem length_placesOf (first : Nat) (roots : List (List Action)) :
    (placesOf first roots).length = total occurrencesIn roots := by
  induction roots generalizing first with
  | nil => rfl
  | cons program rest ih => rw [placesOf, total, List.length_append, length_placesIn, ih]

/-! ### Every action is listed -/

theorem places_subset_placesIn (block : Place) (first : Nat) {program : List Action} {index : Nat}
    {action : Action} (h : program[index]? = some action) :
    action.places (block.inside (first + index)) ⊆ placesIn block first program := by
  induction program generalizing first index with
  | nil => cases h
  | cons head rest ih =>
    cases index with
    | zero =>
      rw [List.getElem?_cons_zero, Option.some.injEq] at h
      subst h
      exact List.subset_append_left _ _
    | succ index =>
      rw [List.getElem?_cons_succ] at h
      have hlater := ih (first + 1) h
      rw [Nat.add_assoc, Nat.add_comm 1 index] at hlater
      exact List.subset_append_of_subset_right _ hlater

theorem placesIn_subset_placesOf (first : Nat) {roots : List (List Action)} {index : Nat}
    {program : List Action} (h : roots[index]? = some program) :
    placesIn (.root (first + index)) 0 program ⊆ placesOf first roots := by
  induction roots generalizing first index with
  | nil => cases h
  | cons head rest ih =>
    cases index with
    | zero =>
      rw [List.getElem?_cons_zero, Option.some.injEq] at h
      subst h
      exact List.subset_append_left _ _
    | succ index =>
      rw [List.getElem?_cons_succ] at h
      have hlater := ih (first + 1) h
      rw [Nat.add_assoc, Nat.add_comm 1 index] at hlater
      exact List.subset_append_of_subset_right _ hlater

namespace Place

variable {roots : List (List Action)}

/-- From the outermost program inwards: what is inside a listed action is listed with it. -/
theorem placesIn_subset (block : Place) :
    placesIn block 0 (block.program roots) ⊆ placesOf 0 roots := by
  induction block with
  | root index =>
    rcases hroot : roots[index]? with _ | program
    · rw [program, hroot]
      exact List.nil_subset _
    · have hlisted := placesIn_subset_placesOf 0 hroot
      rw [Nat.zero_add] at hlisted
      rw [Place.program, hroot]
      exact hlisted
  | inside block index ih =>
    rcases haction : (block.program roots)[index]? with _ | action
    · rw [program, haction]
      exact List.nil_subset _
    · have hlisted := places_subset_placesIn block 0 haction
      rw [Nat.zero_add, places_eq] at hlisted
      rw [program, haction]
      exact fun place hplace => ih (hlisted (List.mem_cons_of_mem _ hplace))

/-- Every action that is at a place is listed. -/
theorem mem_placesOf {place : Place} (h : (place.action? roots).isSome) :
    place ∈ placesOf 0 roots := by
  cases place with
  | root index => exact absurd h nofun
  | inside block index =>
    rcases Option.isSome_iff_exists.mp h with ⟨action, haction⟩
    have hlisted := places_subset_placesIn block 0 haction
    rw [Nat.zero_add, places_eq] at hlisted
    exact block.placesIn_subset (hlisted List.mem_cons_self)

/-- Places that are used once are no more than the occurrences. -/
theorem length_le {places : List Place} (hnodup : places.Nodup)
    (hpresent : ∀ place ∈ places, (place.action? roots).isSome) :
    places.length ≤ total occurrencesIn roots := by
  have hlisted : places ⊆ placesOf 0 roots :=
    fun place hplace => mem_placesOf (hpresent place hplace)
  rw [← length_placesOf 0 roots]
  exact (List.subperm_of_subset hnodup hlisted).length_le

end Place

end Testbench
