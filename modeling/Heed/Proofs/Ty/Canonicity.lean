import Heed.Proofs.Ty.Unions

/-!
# Unions as sets in order

A row of types is opened from left to right: the parts of a union take its place, `never` is dropped, and all
else is a leaf. However unions are nested, a row opens to one row of leaves, and nothing but that row matters
for the union of the types: it is made of the leaves, each once, in the order in which they first occur. So
making a union is idempotent, unions of unions are unions of the joined rows, and the order of the types shows
in the order of the parts only.
-/

set_option autoImplicit false

namespace Heed

namespace Ty

/-- A row of types with its unions opened in place is this row of leaves. -/
inductive Opened : List Ty → List Ty → Prop where
  | nil : Opened [] []
  | never {rest leaves : List Ty} (behind : Opened rest leaves) : Opened (.never :: rest) leaves
  | union {parts rest leaves : List Ty} (opened : Opened (parts ++ rest) leaves) :
      Opened (.union parts :: rest) leaves
  | leaf {type : Ty} {rest leaves : List Ty} (leaf : type.isLeaf = true) (behind : Opened rest leaves) :
      Opened (type :: rest) (type :: leaves)

theorem leavesAll_eq_flatMap (types : List Ty) : leavesAll types = types.flatMap leaves := by
  induction types with
  | nil => rfl
  | cons type rest ih => rw [leavesAll, List.flatMap_cons, ih]

theorem leavesAll_append (types others : List Ty) :
    leavesAll (types ++ others) = leavesAll types ++ leavesAll others := by
  rw [leavesAll_eq_flatMap, leavesAll_eq_flatMap, leavesAll_eq_flatMap, List.flatMap_append]

theorem Opened.eq_leavesAll {types row : List Ty} (opened : Opened types row) : row = leavesAll types := by
  induction opened with
  | nil => rfl
  | never behind ih => rw [ih, leavesAll, leaves, List.nil_append]
  | union opened ih => rw [ih, leavesAll_append, leavesAll, leaves]
  | leaf leaf behind ih => rw [ih, leavesAll, leaves_of_isLeaf leaf, List.singleton_append]

mutual

/-- A type in front of a row that is opened already. -/
theorem opened_cons : ∀ (type : Ty) {rest row : List Ty}, Opened rest row →
    Opened (type :: rest) (leaves type ++ row)
  | .union parts, _, _, behind => .union (opened_append parts behind)
  | .never, _, _, behind => .never behind
  | .any, _, _, behind | .unknown, _, _, behind | .void, _, _, behind | .null, _, _, behind
  | .undefined, _, _, behind | .primitive _, _, _, behind | .literal _, _, _, behind
  | .named _ _, _, _, behind | .object _, _, _, behind | .objectLiteral _, _, _, behind
  | .function _, _, _, behind | .classValue _, _, _, behind | .promise _, _, _, behind
  | .array _, _, _, behind | .tuple _, _, _, behind | .intersection _, _, _, behind => .leaf rfl behind

theorem opened_append : ∀ (types : List Ty) {rest row : List Ty}, Opened rest row →
    Opened (types ++ rest) (leavesAll types ++ row)
  | [], _, _, behind => behind
  | type :: types, rest, row, behind => by
      rw [leavesAll, List.append_assoc]
      exact opened_cons type (opened_append types behind)

end

/-- A row opens to its leaves and to nothing else. -/
theorem opened_iff {types row : List Ty} : Opened types row ↔ row = leavesAll types := by
  constructor
  · exact Opened.eq_leavesAll
  · rintro rfl
    simpa using opened_append types Opened.nil

/-! ## The three forms of a union -/

theorem unionOf_of_leavesAll_eq_nil {types : List Ty} (none_ : leavesAll types = []) :
    unionOf types = .never := by
  rw [unionOf_eq, none_, List.eraseDups_nil, ofDistinct]

theorem unionOf_of_forall_eq {types : List Ty} {leaf : Ty} (listed : leaf ∈ leavesAll types)
    (same : ∀ other ∈ leavesAll types, other = leaf) : unionOf types = leaf := by
  have alone : (leavesAll types).eraseDups = [leaf] := by
    rw [List.eq_replicate_of_mem same]
    cases count : (leavesAll types).length with
    | zero => simp [List.length_eq_zero_iff.mp count] at listed
    | succ count => simp [List.replicate_succ, List.eraseDups_cons]
  rw [unionOf_eq, alone, ofDistinct]

theorem unionOf_of_ne {types : List Ty} {leaf other : Ty} (listed : leaf ∈ leavesAll types)
    (otherListed : other ∈ leavesAll types) (differ : leaf ≠ other) :
    ∃ parts, unionOf types = .union parts ∧ FirstOccurrences (leavesAll types) parts := by
  have firsts := firstOccurrences_gatherAll types
  refine ⟨gatherAll [] types, ofDistinct_of_two_le ?_, firsts⟩
  rw [← firsts.mem_iff] at listed otherListed
  by_contra few
  obtain ⟨only, alone⟩ : ∃ only, gatherAll [] types = [only] := by
    apply List.length_eq_one_iff.mp
    have some_ := List.length_pos_of_mem listed
    omega
  rw [alone, List.mem_singleton] at listed otherListed
  exact differ (listed.trans otherListed.symm)

/-! ## Joining and permuting -/

theorem unionOf_pair (types others : List Ty) :
    unionOf [unionOf types, unionOf others] = unionOf (types ++ others) := by
  have left : leavesAll [unionOf types, unionOf others] =
      (leavesAll types).eraseDups ++ (leavesAll others).eraseDups := by
    simp only [leavesAll, leaves_unionOf, List.append_nil]
  rw [unionOf_eq, left, unionOf_eq, leavesAll_append]
  congr 1
  apply eraseDups_append_congr
  · exact eraseDups_of_nodup (nodup_eraseDups _)
  · exact eraseDups_of_nodup (nodup_eraseDups _)

/-- The same type, or two unions of the same parts in some order. -/
def SameParts (one other : Ty) : Prop :=
  one = other ∨ ∃ parts parts', one = .union parts ∧ other = .union parts' ∧ parts.Perm parts'

theorem ofDistinct_perm {parts parts' : List Ty} (perm : parts.Perm parts') :
    SameParts (ofDistinct parts) (ofDistinct parts') := by
  have lengths := perm.length_eq
  rcases parts with _ | ⟨first, _ | ⟨second, rest⟩⟩
  · rw [List.nil_perm.mp perm]
    exact .inl rfl
  · rw [List.singleton_perm.mp perm]
    exact .inl rfl
  · refine .inr ⟨_, parts', ofDistinct_of_two_le (by simp), ofDistinct_of_two_le ?_, perm⟩
    simp only [List.length_cons] at lengths
    omega

theorem unionOf_perm {types others : List Ty} (perm : types.Perm others) :
    SameParts (unionOf types) (unionOf others) := by
  rw [unionOf_eq, unionOf_eq]
  apply ofDistinct_perm
  apply eraseDups_perm
  rw [leavesAll_eq_flatMap, leavesAll_eq_flatMap]
  exact perm.flatMap_right leaves

/-- A row of types opens to one row of leaves, and its union is determined by that row: `never` if there is no
leaf, the leaf itself if all are equal, and otherwise the leaves, each once, in the order in which they first
occur. -/
theorem unionOf_canonical (types : List Ty) :
    (∃ row, (∀ other, Opened types other ↔ other = row) ∧
      (row = [] → unionOf types = .never) ∧
      (∀ leaf ∈ row, (∀ other ∈ row, other = leaf) → unionOf types = leaf) ∧
      (∀ leaf ∈ row, ∀ other ∈ row, leaf ≠ other →
        ∃ parts, unionOf types = .union parts ∧ FirstOccurrences row parts) ∧
      ∀ others, Opened others row → unionOf others = unionOf types) ∧
    unionOf [unionOf types] = unionOf types ∧
    (∀ others, unionOf [unionOf types, unionOf others] = unionOf (types ++ others)) ∧
    ∀ others, types.Perm others → SameParts (unionOf types) (unionOf others) := by
  refine ⟨⟨leavesAll types, fun other => opened_iff, ?_, ?_, ?_, ?_⟩, unionOf_unionOf types,
    unionOf_pair types, fun others => unionOf_perm⟩
  · exact unionOf_of_leavesAll_eq_nil
  · exact fun leaf => unionOf_of_forall_eq
  · exact fun leaf listed other otherListed => unionOf_of_ne listed otherListed
  · intro others opened
    rw [unionOf_eq, unionOf_eq, ← opened_iff.mp opened]

end Ty

end Heed
