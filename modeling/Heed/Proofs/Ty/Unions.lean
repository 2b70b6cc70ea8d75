import Heed.Proofs.Distinct
import Heed.Ty.Basic

/-!
# Unions in normal form

Gathering the types of a union keeps each leaf where it first occurs. So a union that is made by `unionOf` has
at least two parts, none of them a union or `never` and no two of them equal. It depends on the leaves of the types only, and not on how these are nested. So a function on
types that rebuilds unions part by part and keeps `never` can be applied before or after a union is made.
-/

set_option autoImplicit false

namespace Heed

namespace Ty

def isUnion : Ty → Bool
  | .union _ => true
  | _ => false

/-- Types that are the only leaf of themselves. -/
def isLeaf : Ty → Bool
  | .union _ | .never => false
  | _ => true

structure NormalParts (parts : List Ty) : Prop where
  two_le : 2 ≤ parts.length
  isLeaf : ∀ part ∈ parts, part.isLeaf = true
  nodup : parts.Nodup

/-! ## Leaves -/

mutual

/-- The parts of a type that are neither unions nor `never`, from left to right. -/
def leaves : Ty → List Ty
  | .union parts => leavesAll parts
  | .never => []
  | type => [type]

def leavesAll : List Ty → List Ty
  | [] => []
  | type :: rest => leaves type ++ leavesAll rest

end

theorem leaves_of_isLeaf {type : Ty} (leaf : type.isLeaf = true) : leaves type = [type] := by
  cases type with
  | union parts => cases leaf
  | never => cases leaf
  | _ => rfl

theorem leavesAll_of_isLeaf {types : List Ty} (leaf : ∀ type ∈ types, type.isLeaf = true) :
    leavesAll types = types := by
  induction types with
  | nil => rfl
  | cons type rest ih =>
      rw [List.forall_mem_cons] at leaf
      rw [leavesAll, leaves_of_isLeaf leaf.1, ih leaf.2]
      rfl

mutual

theorem isLeaf_of_mem_leaves : ∀ (type : Ty) {leaf : Ty}, leaf ∈ leaves type → leaf.isLeaf = true
  | .union parts, leaf, member => isLeaf_of_mem_leavesAll parts member
  | .never, _, member => by simp [leaves] at member
  | .any, _, member | .unknown, _, member | .void, _, member | .null, _, member | .undefined, _, member
  | .primitive _, _, member | .literal _, _, member | .named _ _, _, member | .object _, _, member
  | .objectLiteral _, _, member | .function _, _, member | .classValue _, _, member
  | .promise _, _, member | .array _, _, member | .tuple _, _, member | .intersection _, _, member => by
      rw [leaves, List.mem_singleton] at member
      · rw [member]
        rfl
      all_goals simp

theorem isLeaf_of_mem_leavesAll : ∀ (types : List Ty) {leaf : Ty}, leaf ∈ leavesAll types →
    leaf.isLeaf = true
  | [], _, member => by simp [leavesAll] at member
  | type :: rest, leaf, member => by
      rcases List.mem_append.mp member with first | later
      · exact isLeaf_of_mem_leaves type first
      · exact isLeaf_of_mem_leavesAll rest later

end

/-! ## Gathering leaves -/

theorem gather_of_isLeaf {type : Ty} (leaf : type.isLeaf = true) (found : List Ty) :
    gather found type = if type ∈ found then found else found ++ [type] := by
  cases type with
  | union parts => cases leaf
  | never => cases leaf
  | _ => rfl

theorem gather_leaf {type : Ty} (leaf : type.isLeaf = true) (row : List Ty) :
    gather row.eraseDups type = (row ++ leaves type).eraseDups := by
  rw [gather_of_isLeaf leaf, leaves_of_isLeaf leaf, eraseDups_concat]
  simp only [List.mem_eraseDups, List.elem_iff]

mutual

/-- Where the leaves of a row have been found, gathering goes on with the leaves of the types behind it. -/
theorem gather_eraseDups : ∀ (type : Ty) (row : List Ty),
    gather row.eraseDups type = (row ++ leaves type).eraseDups
  | .union parts, row => gatherAll_eraseDups parts row
  | .never, row => by rw [gather, leaves, List.append_nil]
  | .any, row | .unknown, row | .void, row | .null, row | .undefined, row | .primitive _, row
  | .literal _, row | .named _ _, row | .object _, row | .objectLiteral _, row | .function _, row
  | .classValue _, row | .promise _, row | .array _, row | .tuple _, row
  | .intersection _, row => gather_leaf rfl row

theorem gatherAll_eraseDups : ∀ (types row : List Ty),
    gatherAll row.eraseDups types = (row ++ leavesAll types).eraseDups
  | [], row => by rw [gatherAll, leavesAll, List.append_nil]
  | type :: rest, row => by
      rw [gatherAll, gather_eraseDups type row, gatherAll_eraseDups rest, leavesAll, List.append_assoc]

end

theorem gatherAll_nil (types : List Ty) : gatherAll [] types = (leavesAll types).eraseDups :=
  gatherAll_eraseDups types []

/-- Gathering finds the leaves, each where it first occurs. -/
theorem firstOccurrences_gatherAll (types : List Ty) :
    FirstOccurrences (leavesAll types) (gatherAll [] types) := by
  rw [gatherAll_nil]
  exact firstOccurrences_eraseDups (leavesAll types)

theorem unionOf_eq (types : List Ty) : unionOf types = ofDistinct (leavesAll types).eraseDups := by
  rw [unionOf, gatherAll_nil]

/-! ## Unions -/

theorem ofDistinct_of_two_le {parts : List Ty} (many : 2 ≤ parts.length) :
    ofDistinct parts = .union parts := by
  rcases parts with _ | ⟨first, _ | ⟨second, rest⟩⟩
  · simp at many
  · simp at many
  · rfl

theorem leaves_ofDistinct {parts : List Ty} (leaf : ∀ part ∈ parts, part.isLeaf = true) :
    leaves (ofDistinct parts) = parts := by
  rcases parts with _ | ⟨first, _ | ⟨second, rest⟩⟩
  · rfl
  · exact leaves_of_isLeaf (leaf first (by simp))
  · rw [ofDistinct_of_two_le (by simp), leaves]
    exact leavesAll_of_isLeaf leaf

theorem isLeaf_of_mem_eraseDups {types : List Ty} {leaf : Ty}
    (member : leaf ∈ (leavesAll types).eraseDups) : leaf.isLeaf = true :=
  isLeaf_of_mem_leavesAll types (List.mem_eraseDups.mp member)

theorem leaves_unionOf (types : List Ty) : leaves (unionOf types) = (leavesAll types).eraseDups := by
  rw [unionOf_eq]
  exact leaves_ofDistinct fun _ member => isLeaf_of_mem_eraseDups member

/-- What a union of types comes to: nothing, one leaf, or several leaves in normal form. -/
theorem unionOf_cases (types : List Ty) :
    unionOf types = .never ∨ (∃ leaf ∈ leavesAll types, unionOf types = leaf) ∨
      ∃ parts, unionOf types = .union parts ∧ NormalParts parts ∧ ∀ part ∈ parts, part ∈ leavesAll types := by
  have member : ∀ part ∈ (leavesAll types).eraseDups, part ∈ leavesAll types :=
    fun _ => List.mem_eraseDups.mp
  have nodup := nodup_eraseDups (leavesAll types)
  rw [unionOf_eq]
  generalize (leavesAll types).eraseDups = distinct at member nodup
  rcases distinct with _ | ⟨first, _ | ⟨second, rest⟩⟩
  · exact .inl rfl
  · exact .inr (.inl ⟨first, member first (by simp), rfl⟩)
  · refine .inr (.inr ⟨_, ofDistinct_of_two_le (by simp), ⟨by simp, ?_, nodup⟩, member⟩)
    exact fun part listed => isLeaf_of_mem_leavesAll types (member part listed)

/-- A union made of one that is in normal form already. -/
theorem unionOf_unionOf (types : List Ty) : unionOf [unionOf types] = unionOf types := by
  rw [unionOf_eq, leavesAll, leavesAll, List.append_nil, leaves_unionOf,
    eraseDups_of_nodup (nodup_eraseDups _), unionOf_eq]

/-! ## Functions that rebuild unions -/

/-- A function that takes a union apart and makes one of what it gives for the parts. -/
structure Rebuilds (f : Ty → Ty) : Prop where
  never : f .never = .never
  union : ∀ parts, f (.union parts) = unionOf (parts.map f)
  settled : ∀ type, unionOf [f type] = f type

namespace Rebuilds

variable {f : Ty → Ty}

mutual

theorem eraseDups_leaves (rebuilds : Rebuilds f) : ∀ type : Ty,
    (leaves (f type)).eraseDups = ((leaves type).flatMap fun leaf => leaves (f leaf)).eraseDups
  | .union parts => by
      rw [rebuilds.union, leaves_unionOf, eraseDups_of_nodup (nodup_eraseDups _),
        eraseDups_leavesAll rebuilds parts]
      rfl
  | .never => by
      rw [rebuilds.never]
      rfl
  | .any | .unknown | .void | .null | .undefined | .primitive _ | .literal _ | .named _ _ | .object _
  | .objectLiteral _ | .function _ | .classValue _ | .promise _ | .array _ | .tuple _
  | .intersection _ => by simp [leaves]

theorem eraseDups_leavesAll (rebuilds : Rebuilds f) : ∀ types : List Ty,
    (leavesAll (types.map f)).eraseDups =
      ((leavesAll types).flatMap fun leaf => leaves (f leaf)).eraseDups
  | [] => rfl
  | type :: rest => by
      rw [List.map_cons, leavesAll, leavesAll, List.flatMap_append]
      exact eraseDups_append_congr (eraseDups_leaves rebuilds type) (eraseDups_leavesAll rebuilds rest)

end

theorem ofDistinct (rebuilds : Rebuilds f) (parts : List Ty) :
    f (ofDistinct parts) = unionOf (parts.map f) := by
  rcases parts with _ | ⟨first, _ | ⟨second, rest⟩⟩
  · exact rebuilds.never
  · exact (rebuilds.settled first).symm
  · rw [ofDistinct_of_two_le (by simp)]
    exact rebuilds.union _

/-- It does not matter whether the function is applied to a union or to what the union is made of. -/
theorem unionOf (rebuilds : Rebuilds f) (types : List Ty) :
    f (unionOf types) = Ty.unionOf (types.map f) := by
  have leafwise : ∀ leaves_ : List Ty, (∀ leaf ∈ leaves_, leaf.isLeaf = true) →
      Ty.unionOf (leaves_.map f) =
        Ty.ofDistinct (leaves_.flatMap fun leaf => leaves (f leaf)).eraseDups := by
    intro leaves_ leaf
    rw [unionOf_eq, rebuilds.eraseDups_leavesAll, leavesAll_of_isLeaf leaf]
  calc f (Ty.unionOf types)
      = Ty.unionOf ((leavesAll types).eraseDups.map f) := by
        rw [unionOf_eq]
        exact rebuilds.ofDistinct _
    _ = Ty.ofDistinct ((leavesAll types).eraseDups.flatMap fun leaf => leaves (f leaf)).eraseDups :=
        leafwise _ fun _ member => isLeaf_of_mem_eraseDups member
    _ = Ty.ofDistinct ((leavesAll types).flatMap fun leaf => leaves (f leaf)).eraseDups := by
        rw [eraseDups_flatMap_eraseDups]
    _ = Ty.unionOf (types.map f) := by rw [unionOf_eq, rebuilds.eraseDups_leavesAll]

end Rebuilds

end Ty

end Heed
