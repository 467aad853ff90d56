/-!
# Slots

A store that numbers what it holds. The key of a new value is the key that was
freed last, or the next number never used if no key is free, and values are
listed in the order of their keys. Keys are therefore reused in the reverse order
of their release, which is what decides the order in which listeners are called.

A free key always belongs to an empty cell and is listed once, so taking a key
never overwrites a value. Releasing a key that is not taken changes nothing.

The view of a store is `entries`, and each operation is described by what it does
to it. Where a new value ends up among the others depends on keys that the view
does not show, so an insertion is described up to order.

## Main definitions

* `Slots`: Cells by key, and the free keys, last freed first.
* `Slots.insert`, `Slots.erase`: Taking and releasing a key.
* `Slots.entries`: The values held, with their keys, in key order.

## Theorems

* `Slots.pairwise_entries`: Keys increase, so no key is listed twice.
* `Slots.entries_insert`: An insertion adds one entry, under a new key.
* `Slots.entries_erase`: A release removes the entry of the key.
* `Slots.entries_eraseAll_filter`: The release of all entries with some property.
-/

namespace Testbench

structure Slots (α : Type) where
  cells : List (Option α)
  free : List Nat
  free_empty : ∀ key ∈ free, cells[key]? = some none
  free_nodup : free.Nodup

namespace Slots

variable {α : Type}

def empty : Slots α := ⟨[], [], fun _ h => absurd h List.not_mem_nil, List.nodup_nil⟩

instance : Inhabited (Slots α) := ⟨empty⟩

theorem empty_after_take {cells : List (Option α)} {key : Nat} {rest : List Nat} (a : α)
    (hempty : ∀ k ∈ key :: rest, cells[k]? = some none) (hnodup : (key :: rest).Nodup) :
    ∀ k ∈ rest, (cells.set key (some a))[k]? = some none := by
  intro k hk
  have hne : key ≠ k := by
    intro heq
    subst heq
    exact (List.nodup_cons.mp hnodup).1 hk
  rw [List.getElem?_set_ne hne]
  exact hempty k (List.mem_cons_of_mem key hk)

theorem empty_after_release {cells : List (Option α)} {key : Nat} {free : List Nat} {a : α}
    (hfree : ∀ k ∈ free, cells[k]? = some none) (htaken : cells[key]? = some (some a)) :
    ∀ k ∈ key :: free, (cells.set key none)[k]? = some none := by
  intro k hk
  by_cases heq : key = k
  · subst heq
    rw [List.getElem?_set_self']
    simp only [htaken]
    rfl
  · rw [List.getElem?_set_ne heq]
    rcases List.mem_cons.mp hk with hkey | hrest
    · exact absurd hkey.symm heq
    · exact hfree k hrest

theorem not_free_of_taken {cells : List (Option α)} {key : Nat} {free : List Nat} {a : α}
    (hfree : ∀ k ∈ free, cells[k]? = some none) (htaken : cells[key]? = some (some a)) :
    key ∉ free := by
  intro hkey
  have hnone := hfree key hkey
  rw [htaken] at hnone
  exact absurd hnone (by simp only [Option.some.injEq, reduceCtorEq, not_false_eq_true])

def insert (s : Slots α) (a : α) : Slots α :=
  match s with
  | ⟨cells, [], _, _⟩ =>
    ⟨cells ++ [some a], [], fun _ h => absurd h List.not_mem_nil, List.nodup_nil⟩
  | ⟨cells, key :: rest, hempty, hnodup⟩ =>
    ⟨cells.set key (some a), rest, empty_after_take a hempty hnodup,
      (List.nodup_cons.mp hnodup).2⟩

def erase (s : Slots α) (key : Nat) : Slots α :=
  match htaken : s.cells[key]? with
  | some (some _) =>
    ⟨s.cells.set key none, key :: s.free, empty_after_release s.free_empty htaken,
      List.nodup_cons.mpr ⟨not_free_of_taken s.free_empty htaken, s.free_nodup⟩⟩
  | _ => s

/-- The occupied cells of a list whose first cell has the given key. -/
def entriesFrom (key : Nat) : List (Option α) → List (Nat × α)
  | [] => []
  | none :: rest => entriesFrom (key + 1) rest
  | some a :: rest => (key, a) :: entriesFrom (key + 1) rest

def entries (s : Slots α) : List (Nat × α) := entriesFrom 0 s.cells

def values (s : Slots α) : List α := s.entries.map Prod.snd

def size (s : Slots α) : Nat := s.entries.length

/-! ### The view -/

@[simp] theorem entries_empty : (empty : Slots α).entries = [] := rfl

theorem le_of_mem_entriesFrom {first : Nat} {cells : List (Option α)} {entry : Nat × α}
    (h : entry ∈ entriesFrom first cells) : first ≤ entry.1 := by
  induction cells generalizing first with
  | nil => exact absurd h List.not_mem_nil
  | cons cell rest ih =>
    cases cell with
    | none => exact Nat.le_of_succ_le (ih h)
    | some a =>
      rcases List.mem_cons.mp h with hhead | htail
      · subst hhead
        exact Nat.le_refl first
      · exact Nat.le_of_succ_le (ih htail)

theorem cell_of_mem_entriesFrom {first : Nat} {cells : List (Option α)} {entry : Nat × α}
    (h : entry ∈ entriesFrom first cells) :
    ∃ key, entry.1 = first + key ∧ cells[key]? = some (some entry.2) := by
  induction cells generalizing first with
  | nil => exact absurd h List.not_mem_nil
  | cons cell rest ih =>
    have hlater : entry ∈ entriesFrom (first + 1) rest →
        ∃ key, entry.1 = first + key ∧ (cell :: rest)[key]? = some (some entry.2) := by
      intro hmem
      rcases ih hmem with ⟨key, hkey, hcell⟩
      exact ⟨key + 1, by omega, hcell⟩
    cases cell with
    | none => exact hlater h
    | some a =>
      rcases List.mem_cons.mp h with hhead | htail
      · subst hhead
        exact ⟨0, rfl, rfl⟩
      · exact hlater htail

theorem pairwise_entriesFrom (first : Nat) (cells : List (Option α)) :
    (entriesFrom first cells).Pairwise fun e f => e.1 < f.1 := by
  induction cells generalizing first with
  | nil => exact List.Pairwise.nil
  | cons cell rest ih =>
    cases cell with
    | none => exact ih (first + 1)
    | some a =>
      exact List.pairwise_cons.mpr
        ⟨fun entry hentry => le_of_mem_entriesFrom hentry, ih (first + 1)⟩

theorem entriesFrom_append (first : Nat) (cells more : List (Option α)) :
    entriesFrom first (cells ++ more) =
      entriesFrom first cells ++ entriesFrom (first + cells.length) more := by
  induction cells generalizing first with
  | nil => rfl
  | cons cell rest ih =>
    have hshift : first + 1 + rest.length = first + (rest.length + 1) := by omega
    cases cell with
    | none => simp only [List.cons_append, entriesFrom, ih, List.length_cons, hshift]
    | some a => simp only [List.cons_append, entriesFrom, ih, List.length_cons, hshift]

theorem filter_later_entries (first : Nat) (cells : List (Option α)) :
    (entriesFrom (first + 1) cells).filter (fun e => e.1 != first)
      = entriesFrom (first + 1) cells := by
  rw [List.filter_eq_self]
  intro entry hentry
  have hle := le_of_mem_entriesFrom hentry
  simp only [bne_iff_ne, ne_eq]
  omega

theorem entriesFrom_set_none (first key : Nat) (cells : List (Option α)) :
    entriesFrom first (cells.set key none)
      = (entriesFrom first cells).filter fun e => e.1 != first + key := by
  induction cells generalizing first key with
  | nil => rfl
  | cons cell rest ih =>
    cases key with
    | zero =>
      cases cell with
      | none => simp only [List.set_cons_zero, entriesFrom, Nat.add_zero, filter_later_entries]
      | some a =>
        simp only [List.set_cons_zero, entriesFrom, Nat.add_zero, List.filter_cons,
          bne_self_eq_false, Bool.false_eq_true, if_false, filter_later_entries]
    | succ key =>
      have hshift : first + 1 + key = first + (key + 1) := by omega
      cases cell with
      | none => simp only [List.set_cons_succ, entriesFrom, ih, hshift]
      | some a =>
        have hne : (first != first + (key + 1)) = true := by
          simp only [bne_iff_ne, ne_eq]
          omega
        simp only [List.set_cons_succ, entriesFrom, ih, hshift, List.filter_cons, hne, if_true]

theorem entriesFrom_set_some (first : Nat) {key : Nat} {cells : List (Option α)} (a : α)
    (h : cells[key]? = some none) :
    (entriesFrom first (cells.set key (some a))).Perm
      ((first + key, a) :: entriesFrom first cells) := by
  induction cells generalizing first key with
  | nil => exact absurd h (by simp only [List.getElem?_nil, reduceCtorEq, not_false_eq_true])
  | cons cell rest ih =>
    cases key with
    | zero =>
      have hcell : cell = none := by simpa only [List.getElem?_cons_zero, Option.some.injEq] using h
      subst hcell
      exact List.Perm.refl _
    | succ key =>
      have hrest : rest[key]? = some none := by simpa only [List.getElem?_cons_succ] using h
      have hperm := ih (first + 1) hrest
      have hshift : first + 1 + key = first + (key + 1) := by omega
      rw [hshift] at hperm
      cases cell with
      | none => exact hperm
      | some b => exact (hperm.cons (first, b)).trans (List.Perm.swap _ _ _)

theorem pairwise_entries (s : Slots α) : s.entries.Pairwise fun e f => e.1 < f.1 :=
  pairwise_entriesFrom 0 s.cells

theorem entries_insert (s : Slots α) (a : α) :
    ∃ key, (s.insert a).entries.Perm ((key, a) :: s.entries) := by
  rcases s with ⟨cells, _ | ⟨key, rest⟩, hempty, hnodup⟩
  · refine ⟨cells.length, ?_⟩
    simp only [insert, entries, entriesFrom_append, entriesFrom, Nat.zero_add]
    exact List.perm_append_singleton _ _
  · refine ⟨key, ?_⟩
    have hperm := entriesFrom_set_some 0 a (hempty key List.mem_cons_self)
    rw [Nat.zero_add] at hperm
    exact hperm

theorem values_insert (s : Slots α) (a : α) : (s.insert a).values.Perm (a :: s.values) := by
  rcases s.entries_insert a with ⟨key, hperm⟩
  exact hperm.map Prod.snd

theorem entries_erase (s : Slots α) (key : Nat) :
    (s.erase key).entries = s.entries.filter fun e => e.1 != key := by
  unfold erase
  split
  · simp only [entries, entriesFrom_set_none, Nat.zero_add]
  · next hvacant =>
    rw [eq_comm, List.filter_eq_self]
    intro entry hentry
    rw [bne_iff_ne]
    intro hkey
    rcases cell_of_mem_entriesFrom hentry with ⟨k, hk, hcell⟩
    rw [Nat.zero_add] at hk
    subst hk
    subst hkey
    exact hvacant entry.2 hcell

theorem entries_eraseAll (keys : List Nat) (s : Slots α) :
    (keys.foldl erase s).entries = s.entries.filter fun e => !keys.contains e.1 := by
  induction keys generalizing s with
  | nil => exact (List.filter_eq_self.mpr fun _ _ => rfl).symm
  | cons key rest ih =>
    rw [List.foldl_cons, ih, entries_erase, List.filter_filter]
    apply List.filter_congr
    intro entry _
    rw [List.contains_cons, Bool.not_or, Bool.and_comm]
    rfl

theorem eq_of_key_eq {s : Slots α} {e f : Nat × α} (he : e ∈ s.entries) (hf : f ∈ s.entries)
    (hkey : e.1 = f.1) : e = f := by
  rcases cell_of_mem_entriesFrom he with ⟨i, hi, hcelle⟩
  rcases cell_of_mem_entriesFrom hf with ⟨j, hj, hcellf⟩
  have hij : i = j := by omega
  subst hij
  rw [hcelle] at hcellf
  exact Prod.ext hkey (Option.some.inj (Option.some.inj hcellf))

/-- Releasing the keys of the entries with some property leaves the other entries. -/
theorem entries_eraseAll_filter (s : Slots α) (p : Nat × α → Bool) :
    (((s.entries.filter p).map Prod.fst).foldl erase s).entries
      = s.entries.filter fun e => !p e := by
  rw [entries_eraseAll]
  apply List.filter_congr
  intro entry hentry
  congr 1
  rw [Bool.eq_iff_iff, List.contains_iff_mem, List.mem_map]
  constructor
  · rintro ⟨other, hother, hkey⟩
    rw [List.mem_filter] at hother
    rw [← eq_of_key_eq hother.1 hentry hkey]
    exact hother.2
  · intro hp
    exact ⟨entry, List.mem_filter.mpr ⟨hentry, hp⟩, rfl⟩

end Slots

end Testbench
