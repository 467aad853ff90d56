import Testbench.Inbox

/-!
# Callbacks Are Not Looked At

An inbox keeps callbacks and hands them back, but never looks at one. Which listeners a
push releases, in which order, and which key a new listener gets depends on predicates,
lines and keys alone. So an inbox can be given other callbacks one for one, before an
operation or after it, and the result is the same.

That is what allows listeners to be followed through an inbox: their callbacks may as
well be numbers, or callbacks with numbers attached.

## Main definitions

* `Slots.map`: Other values under the same keys.
* `Inbox.map`: An inbox with other callbacks.

## Theorems

* `Slots.map_insert`, `Slots.map_erase`: Keys do not depend on values.
* `Inbox.push_map`, `Inbox.register_map`, `Inbox.close_map`, `Inbox.read?_map`,
  `Inbox.extract_map`: Operations do not depend on callbacks.
-/

namespace Testbench

namespace Slots

variable {α β : Type} (f : α → β)

theorem ext_cells {s t : Slots α} (hcells : s.cells = t.cells) (hfree : s.free = t.free) :
    s = t := by
  cases s
  cases t
  simp only [mk.injEq]
  exact ⟨hcells, hfree⟩

def map (s : Slots α) : Slots β where
  cells := s.cells.map (Option.map f)
  free := s.free
  free_empty := by
    intro key hkey
    rw [List.getElem?_map, s.free_empty key hkey]
    rfl
  free_nodup := s.free_nodup

theorem map_insert (s : Slots α) (a : α) : (s.insert a).map f = (s.map f).insert (f a) := by
  rcases s with ⟨cells, _ | ⟨key, rest⟩, hempty, hnodup⟩
  · refine ext_cells ?_ rfl
    simp only [insert, map, List.map_append, List.map_cons, List.map_nil, Option.map_some]
  · refine ext_cells ?_ rfl
    simp only [insert, map, List.map_set, Option.map_some]

theorem map_erase (s : Slots α) (key : Nat) : (s.erase key).map f = (s.map f).erase key := by
  -- The key is taken in both stores or in neither.
  have hcell : (s.map f).cells[key]? = s.cells[key]?.map (Option.map f) := List.getElem?_map
  unfold erase
  split
  · next a htaken =>
    rw [htaken] at hcell
    split
    · refine ext_cells ?_ rfl
      simp only [map, List.map_set, Option.map_none]
    · next hvacant => exact absurd hcell (hvacant (f a))
  · next hvacant =>
    split
    · next b htaken =>
      rw [hcell] at htaken
      rcases Option.map_eq_some_iff.mp htaken with ⟨cell, hold, hsome⟩
      rcases Option.map_eq_some_iff.mp hsome with ⟨a, rfl, -⟩
      exact absurd hold (hvacant a)
    · rfl

theorem map_eraseAll (keys : List Nat) (s : Slots α) :
    (keys.foldl erase s).map f = keys.foldl erase (s.map f) := by
  induction keys generalizing s with
  | nil => rfl
  | cons key rest ih => rw [List.foldl_cons, List.foldl_cons, ih, map_erase]

theorem entriesFrom_map (first : Nat) (cells : List (Option α)) :
    entriesFrom first (cells.map (Option.map f))
      = (entriesFrom first cells).map fun e => (e.1, f e.2) := by
  induction cells generalizing first with
  | nil => rfl
  | cons cell rest ih =>
    cases cell with
    | none => exact ih (first + 1)
    | some a => exact congrArg (List.cons (first, f a)) (ih (first + 1))

theorem entries_map (s : Slots α) : (s.map f).entries = s.entries.map fun e => (e.1, f e.2) :=
  entriesFrom_map f 0 s.cells

theorem values_map (s : Slots α) : (s.map f).values = s.values.map f := by
  unfold values
  rw [entries_map, List.map_map, List.map_map]
  rfl

end Slots

variable {κ μ : Type} (f : κ → μ)

def Listener.map (listener : Listener κ) : Listener μ := ⟨listener.wants, f listener.callback⟩

def Arrival.map : Arrival κ → Arrival μ
  | .discarded => .discarded
  | .held due => .held (due.map f)

theorem wanting_map (line : Line) (entries : List (Nat × Listener κ)) :
    wanting line (entries.map fun e => (e.1, e.2.map f))
      = (wanting line entries).map (List.map fun e => (e.1, e.2.map f)) := by
  induction entries with
  | nil => rfl
  | cons entry rest ih =>
    have hwants : (entry.2.map f).wants line = entry.2.wants line := rfl
    rw [List.map_cons, wanting, wanting, ih, hwants]
    -- An answer is missing for both or for neither, and then the rest does not matter.
    rcases entry.2.wants line with fault | wanted
    · rfl
    · rcases wanting line rest with fault | others
      · rfl
      · cases wanted with
        | true => rfl
        | false => rfl

namespace Inbox

def map (inbox : Inbox κ) : Inbox μ :=
  ⟨inbox.lines, inbox.listeners.map (Listener.map f), inbox.closed⟩

theorem push_map (inbox : Inbox κ) (line : Line) :
    (inbox.map f).push line = (inbox.push line).map (Prod.map (Arrival.map f) (map f)) := by
  have hentries : (inbox.map f).listeners.entries
      = inbox.listeners.entries.map fun e => (e.1, e.2.map f) := Slots.entries_map _ _
  unfold push
  rw [hentries, wanting_map]
  by_cases hclosed : inbox.closed
  · rw [if_pos hclosed, if_pos (by exact hclosed)]
    rfl
  · rw [if_neg hclosed, if_neg (by exact hclosed)]
    cases wanting line inbox.listeners.entries with
    | error fault => rfl
    | ok chosen =>
      -- The same keys are released, and the callbacks are replaced where they stand.
      have hkeys : (chosen.map fun e => (e.1, e.2.map f)).map Prod.fst = chosen.map Prod.fst := by
        rw [List.map_map]
        rfl
      have hdue : (chosen.map fun e => (e.1, e.2.map f)).map (fun e => e.2.callback)
          = (chosen.map fun e => e.2.callback).map f := by
        rw [List.map_map, List.map_map]
        rfl
      simp only [Except.map, bind, Except.bind, pure, Except.pure, hkeys, hdue, Prod.map,
        Arrival.map, map, Slots.map_eraseAll]

theorem register_map (inbox : Inbox κ) (listener : Listener κ) :
    (inbox.map f).register (listener.map f)
      = (inbox.register listener).map (Prod.map id (map f)) := by
  have hlines : (inbox.map f).lines = inbox.lines := rfl
  have hwants : (listener.map f).wants = listener.wants := rfl
  unfold register
  rw [hlines, hwants]
  rcases anyWanted listener.wants inbox.lines with fault | _ | _
  · rfl
  · rcases inbox with ⟨lines, listeners, _ | _⟩
    · simp only [bind, Except.bind, Bool.false_eq_true, if_false, map, ← Slots.map_insert]
      rfl
    · rfl
  · rfl

theorem close_map (inbox : Inbox κ) :
    (inbox.map f).close = Prod.map (List.map f) (map f) inbox.close := by
  have hvalues : (inbox.map f).listeners.values = inbox.listeners.values.map (Listener.map f) :=
    Slots.values_map _ _
  unfold close
  rw [hvalues, List.map_map, Prod.map]
  refine Prod.ext ?_ rfl
  rw [List.map_map]
  rfl

theorem read?_map (inbox : Inbox κ) :
    (inbox.map f).read? = inbox.read?.map (Prod.map id (map f)) := by
  have hlines : (inbox.map f).lines = inbox.lines := rfl
  unfold read?
  rw [hlines]
  cases inbox.lines with
  | nil => rfl
  | cons line rest => rfl

theorem extract_map (inbox : Inbox κ) (wants : Predicate) :
    (inbox.map f).extract wants = Prod.map id (map f) (inbox.extract wants) := by
  have hlines : (inbox.map f).lines = inbox.lines := rfl
  unfold extract
  rw [hlines]
  cases divide wants inbox.lines with
  | error fault => rfl
  | ok parts => rfl

end Inbox

end Testbench
