import Mathlib.Data.Finset.Card

/-!
# Budgets of searches

A search that never comes back to a node on its own path is bounded by the number of nodes: a budget of
one more than that is never used up. The nodes on the path are those that are in progress.
-/

set_option autoImplicit false

namespace Heed

/-- A path of distinct nodes below `size` leaves room for the rest of a search. -/
structure Room (size budget : Nat) (path : List Nat) : Prop where
  distinct : path.Nodup
  inside : ∀ use ∈ path, use < size
  enough : size < budget + path.length

namespace Room

variable {size budget : Nat} {path : List Nat}

theorem start (size : Nat) : Room size (size + 1) [] :=
  ⟨List.nodup_nil, by simp, by simp⟩

theorem length_le (room : Room size budget path) : path.length ≤ size := by
  have below : path ⊆ List.range size := fun use member => List.mem_range.mpr (room.inside use member)
  have := (room.distinct.subperm below).length_le
  rwa [List.length_range] at this

theorem positive (room : Room size budget path) : ∃ rest, budget = rest + 1 := by
  have := room.length_le
  have := room.enough
  exact ⟨budget - 1, by omega⟩

theorem extend {use : Nat} (room : Room size (budget + 1) path) (fresh : use ∉ path)
    (bounded : use < size) : Room size budget (use :: path) := by
  refine ⟨List.nodup_cons.mpr ⟨fresh, room.distinct⟩, ?_, ?_⟩
  · intro other member
    rcases List.mem_cons.mp member with rfl | member
    · exact bounded
    · exact room.inside other member
  · have := room.enough
    simp only [List.length_cons]
    omega

end Room

/-- The path of a search holds just the references in progress. -/
def Tracks (path : List Nat) (busy : Finset Nat) : Prop := ∀ use, use ∈ path ↔ use ∈ busy

theorem Tracks.extend {path : List Nat} {busy : Finset Nat} (tracks : Tracks path busy) (use : Nat) :
    Tracks (use :: path) (insert use busy) := by
  intro other
  rw [List.mem_cons, Finset.mem_insert, tracks other]

end Heed
