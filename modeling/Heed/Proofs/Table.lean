import Heed.Scope.Basic
import Mathlib.Data.List.Induction

/-!
# Tables

What a table gives for a number is one of its entries. Where all entries for a number agree, the table
gives just that.
-/

set_option autoImplicit false

namespace Heed

theorem tabulate_size (size : Nat) (entries : List (Nat × Nat)) :
    (tabulate size entries).size = size := by
  have step : ∀ table : Array (Option Nat),
      (entries.foldl (fun table entry => table.setIfInBounds entry.1 (some entry.2)) table).size =
        table.size := by
    induction entries with
    | nil => intro table; rfl
    | cons entry rest ih =>
        intro table
        rw [List.foldl_cons, ih, Array.size_setIfInBounds]
  exact (step _).trans Array.size_replicate

/-- The last entry decides. -/
theorem tabulate_append_singleton (size : Nat) (entries : List (Nat × Nat)) (entry : Nat × Nat)
    (index : Nat) :
    (tabulate size (entries ++ [entry]))[index]?.join =
      if entry.1 = index ∧ index < size then some entry.2
      else (tabulate size entries)[index]?.join := by
  have last : tabulate size (entries ++ [entry]) =
      (tabulate size entries).setIfInBounds entry.1 (some entry.2) := by
    rw [tabulate, List.foldl_append]
    rfl
  rw [last, Array.getElem?_setIfInBounds, tabulate_size]
  by_cases same : entry.1 = index
  · by_cases inside : index < size
    · simp [same, inside]
    · have absent : (tabulate size entries)[index]? = none :=
        Array.getElem?_eq_none (by rw [tabulate_size]; omega)
      simp [same, inside, absent]
  · simp [same]

theorem mem_of_tabulate {size index value : Nat} {entries : List (Nat × Nat)}
    (found : (tabulate size entries)[index]?.join = some value) : (index, value) ∈ entries := by
  induction entries using List.reverseRecOn with
  | nil =>
      rw [tabulate, List.foldl_nil, Array.getElem?_replicate] at found
      split at found <;> simp at found
  | append_singleton entries entry ih =>
      rw [tabulate_append_singleton] at found
      split at found
      case isTrue here =>
          obtain ⟨rfl, -⟩ := here
          obtain rfl := Option.some.inj found
          exact List.mem_append_right _ (List.mem_singleton.mpr rfl)
      case isFalse => exact List.mem_append_left _ (ih found)

/-- Entries that agree decide. -/
theorem tabulate_eq_some {size index value : Nat} {entries : List (Nat × Nat)} (inside : index < size)
    (member : (index, value) ∈ entries)
    (agree : ∀ other, (index, other) ∈ entries → other = value) :
    (tabulate size entries)[index]?.join = some value := by
  induction entries using List.reverseRecOn with
  | nil => simp at member
  | append_singleton entries entry ih =>
      rw [tabulate_append_singleton]
      split
      case isTrue here =>
          obtain ⟨rfl, -⟩ := here
          exact congrArg some (agree entry.2 (List.mem_append_right _ (List.mem_singleton.mpr rfl)))
      case isFalse elsewhere =>
          rcases List.mem_append.mp member with member | member
          · exact ih member fun other listed => agree other (List.mem_append_left _ listed)
          · rw [← List.mem_singleton.mp member] at elsewhere
            exact absurd ⟨rfl, inside⟩ elsewhere

/-- A table whose entries agree gives each of them back. -/
theorem tabulate_eq_some_iff {size index value : Nat} {entries : List (Nat × Nat)}
    (bounded : ∀ entry ∈ entries, entry.1 < size)
    (agree : ∀ left right, (index, left) ∈ entries → (index, right) ∈ entries → left = right) :
    (tabulate size entries)[index]?.join = some value ↔ (index, value) ∈ entries := by
  refine ⟨mem_of_tabulate, fun member => ?_⟩
  exact tabulate_eq_some (bounded _ member) member fun other listed => agree other value listed member

end Heed
