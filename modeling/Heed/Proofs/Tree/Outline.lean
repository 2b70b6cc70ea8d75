import Heed.Proofs.Tree.Shape
import Heed.Tree.Outline

/-!
# Walks over well-formed trees

The outline of a node reaches just the nodes inside it, and each of them once.
-/

set_option autoImplicit false

namespace Heed

namespace Outline

theorem preorderAll_map {outlineOf : Nat → Outline} (nodes : List Nat) :
    preorderAll (nodes.map outlineOf) = nodes.flatMap fun node => (outlineOf node).preorder := by
  induction nodes with
  | nil => rfl
  | cons node rest ih => rw [List.map_cons, preorderAll, ih, List.flatMap_cons]

end Outline

namespace Tree.WellFormed

variable {tree : Tree} (formed : tree.WellFormed)

include formed

theorem children_eq_nil_of_le {node child : Nat} (listed : child ∈ tree.children node)
    (above : node ≤ child) : tree.children child = [] := by
  rcases formed.rising node child listed with below | ⟨-, ascription⟩
  · omega
  · rw [children]
    cases kindEq : tree.kind child with
    | typeAscription type => rfl
    | _ => simp [kindEq, NodeKind.isAscription] at ascription

/-- What holds of a node when it holds of its children holds of all nodes. -/
theorem descend {motive : Nat → Prop}
    (step : ∀ node, (∀ child ∈ tree.children node, motive child) → motive node) (node : Nat) :
    motive node := by
  induction node using Nat.strongRecOn with
  | ind node ih =>
      refine step node fun child listed => ?_
      rcases Nat.lt_or_ge child node with below | above
      · exact ih child below
      · refine step child fun grandchild absent => ?_
        rw [formed.children_eq_nil_of_le listed above] at absent
        cases absent

theorem outline_eq (node : Nat) : tree.outline node = .node node ((tree.children node).map tree.outline) := by
  rw [outline]
  refine congrArg (Outline.node node) (List.map_congr_left fun child listed => ?_)
  split
  case isTrue => rfl
  case isFalse above =>
      rw [outline, formed.children_eq_nil_of_le listed (Nat.le_of_not_lt above)]
      rfl

theorem id_outline (node : Nat) : (tree.outline node).id = node := by
  rw [formed.outline_eq]
  rfl

theorem preorder_outline (node : Nat) : (tree.outline node).preorder =
    node :: (tree.children node).flatMap fun child => (tree.outline child).preorder := by
  rw [formed.outline_eq node, Outline.preorder, Outline.preorderAll_map]

theorem isWithin_parent {node parent outer : Nat} (found : tree.parent? node = some parent)
    (other : node ≠ outer) : tree.isWithin node outer = true ↔ tree.isWithin parent outer = true := by
  rw [isWithin_iff, isWithin_iff, formed.ancestors_eq_cons found, List.mem_cons]
  constructor
  · rintro (same | same | member)
    · exact absurd same other
    · exact .inl same.symm
    · exact .inr member
  · rintro (same | member)
    · exact .inr (.inl same.symm)
    · exact .inr (.inr member)

/-- The way up from a node inside another one passes through a child of it. -/
theorem exists_child_of_isWithin {node outer : Nat} (inner : tree.isWithin node outer = true)
    (other : node ≠ outer) : ∃ child ∈ tree.children outer, tree.isWithin node child = true := by
  induction node using formed.climb with
  | top node orphan =>
      rw [isWithin_iff, ancestors_eq_nil orphan] at inner
      rcases inner with same | member
      · exact absurd same other
      · cases member
  | step node parent found ih =>
      by_cases same : parent = outer
      · subst same
        exact ⟨node, (formed.parent_iff node parent).mp found, isWithin_iff.mpr (.inl rfl)⟩
      · obtain ⟨child, listed, inside⟩ := ih ((formed.isWithin_parent found other).mp inner) same
        refine ⟨child, listed, formed.isWithin_trans ?_ inside⟩
        rw [isWithin_iff, formed.ancestors_eq_cons found]
        exact .inr List.mem_cons_self

theorem isWithin_of_child {node child : Nat} (listed : child ∈ tree.children node) :
    tree.isWithin child node = true := by
  rw [isWithin_iff, formed.ancestors_eq_cons ((formed.parent_iff child node).mpr listed)]
  exact .inr List.mem_cons_self

theorem mem_preorder_outline_iff {node outer : Nat} :
    node ∈ (tree.outline outer).preorder ↔ tree.isWithin node outer = true := by
  induction outer using formed.descend with
  | step outer ih =>
      rw [formed.preorder_outline, List.mem_cons, List.mem_flatMap]
      constructor
      · rintro (rfl | ⟨child, listed, member⟩)
        · exact isWithin_iff.mpr (.inl rfl)
        · exact formed.isWithin_trans ((ih child listed).mp member) (formed.isWithin_of_child listed)
      · intro inner
        by_cases same : node = outer
        · exact .inl same
        · obtain ⟨child, listed, inside⟩ := formed.exists_child_of_isWithin inner same
          exact .inr ⟨child, listed, (ih child listed).mpr inside⟩

theorem suffix_of_isWithin {node outer : Nat} (inner : tree.isWithin node outer = true) :
    (outer :: tree.ancestors outer) <:+ (node :: tree.ancestors node) := by
  rcases isWithin_iff.mp inner with rfl | member
  · exact List.suffix_refl _
  · exact (formed.suffix_of_mem_ancestors member).trans (List.suffix_cons _ _)

/-- Siblings share no node. -/
theorem eq_of_isWithin_siblings {node left right parent : Nat} (leftListed : left ∈ tree.children parent)
    (rightListed : right ∈ tree.children parent) (inLeft : tree.isWithin node left = true)
    (inRight : tree.isWithin node right = true) : left = right := by
  have leftAbove := formed.ancestors_eq_cons ((formed.parent_iff left parent).mpr leftListed)
  have rightAbove := formed.ancestors_eq_cons ((formed.parent_iff right parent).mpr rightListed)
  have sameLength : (left :: tree.ancestors left).length = (right :: tree.ancestors right).length := by
    simp only [leftAbove, rightAbove, List.length_cons]
  have nested := List.suffix_of_suffix_length_le (formed.suffix_of_isWithin inLeft)
    (formed.suffix_of_isWithin inRight) (Nat.le_of_eq sameLength)
  exact (List.cons.inj (nested.eq_of_length sameLength)).1

theorem nodup_preorder_outline (node : Nat) : (tree.outline node).preorder.Nodup := by
  induction node using formed.descend with
  | step node ih =>
      rw [formed.preorder_outline, List.nodup_cons, List.nodup_flatMap]
      refine ⟨?_, ih, ?_⟩
      · intro member
        obtain ⟨child, listed, member⟩ := List.mem_flatMap.mp member
        have inner := formed.mem_preorder_outline_iff.mp member
        have same := formed.isWithin_antisymm inner (formed.isWithin_of_child listed)
        have found := (formed.parent_iff child node).mpr listed
        have shorter := formed.length_lt_of_mem_ancestors
          (formed.ancestors_eq_cons found ▸ List.mem_cons_self : node ∈ tree.ancestors child)
        rw [same] at shorter
        exact Nat.lt_irrefl _ shorter
      · refine (formed.children_nodup node).imp_of_mem fun {left right} leftListed rightListed other => ?_
        intro inner inLeft inRight
        exact other (formed.eq_of_isWithin_siblings leftListed rightListed
          (formed.mem_preorder_outline_iff.mp inLeft) (formed.mem_preorder_outline_iff.mp inRight))

/-- Every node lies inside the root, but for ascriptions that hang nowhere. -/
theorem isWithin_root {node : Nat} (inside : node < tree.size)
    (unascribed : (tree.kind node).isAscription = false) : tree.isWithin node tree.root = true := by
  induction node using formed.climb with
  | top node orphan =>
      by_cases isRoot : node = tree.root
      · exact isWithin_iff.mpr (.inl isRoot)
      · rw [formed.orphan node inside isRoot orphan] at unascribed
        cases unascribed
  | step node parent found ih =>
      have listed := (formed.parent_iff node parent).mp found
      exact formed.isWithin_trans (formed.isWithin_of_child listed)
        (ih (formed.parent_lt_size found) (formed.not_isAscription_of_parent found))

theorem lt_size_of_mem_preorder {node : Nat} (member : node ∈ tree.preorder) : node < tree.size := by
  have inner := formed.mem_preorder_outline_iff.mp member
  cases found : tree.parent? node with
  | some parent => exact formed.child_lt_size parent node ((formed.parent_iff node parent).mp found)
  | none =>
      rw [isWithin_iff, ancestors_eq_nil found] at inner
      rcases inner with rfl | member
      · have last := formed.root_last
        omega
      · cases member

end Tree.WellFormed

end Heed
