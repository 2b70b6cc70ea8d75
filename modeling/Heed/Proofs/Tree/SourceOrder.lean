import Heed.Proofs.Tree.Spans

/-!
# Walks in source order

A walk over a parsed tree that leaves nothing out meets every node once, each after its parent, but for the
ascriptions of patterns, which no node lists. It goes through the source from left to right: what hangs below
a child starts before the next child does, even an ascription that stands behind all that it belongs to.
-/

set_option autoImplicit false

namespace Heed

namespace Outline

mutual

theorem map_fst_visit (depth : Nat) : ∀ outline : Outline,
    (outline.visit (fun _ => false) depth).map Prod.fst = outline.preorder
  | .node id children => by
      rw [visit, if_neg Bool.false_ne_true, List.map_cons, map_fst_visitAll (depth + 1) children, preorder]

theorem map_fst_visitAll (depth : Nat) : ∀ outlines : List Outline,
    (visitAll (fun _ => false) depth outlines).map Prod.fst = preorderAll outlines
  | [] => rfl
  | outline :: rest => by
      rw [visitAll, List.map_append, map_fst_visit depth outline, map_fst_visitAll depth rest, preorderAll]

end

theorem visitAll_map {pruned : Nat → Bool} {depth : Nat} {outlineOf : Nat → Outline} (nodes : List Nat) :
    visitAll pruned depth (nodes.map outlineOf) = nodes.flatMap fun node => (outlineOf node).visit pruned depth := by
  induction nodes with
  | nil => rfl
  | cons node rest ih => rw [List.map_cons, visitAll, ih, List.flatMap_cons]

end Outline

namespace Tree

/-- The walk from the root that leaves nothing out: the nodes with their depths. -/
def walk (tree : Tree) : List (Nat × Nat) := (tree.outline tree.root).visit (fun _ => false) 0

theorem map_fst_walk (tree : Tree) : tree.walk.map Prod.fst = tree.preorder :=
  Outline.map_fst_visit 0 _

namespace WellFormed

variable {tree : Tree} (formed : tree.WellFormed)

include formed

theorem visit_outline (pruned : Nat → Bool) (depth node : Nat) : (tree.outline node).visit pruned depth =
    (node, depth) :: if pruned node then [] else (tree.children node).flatMap fun child =>
      (tree.outline child).visit pruned (depth + 1) := by
  rw [formed.outline_eq, Outline.visit, Outline.visitAll_map]

/-- Below a node the depth grows with the way up. -/
theorem depth_of_mem_visit {node inner depth deep : Nat}
    (member : (inner, deep) ∈ (tree.outline node).visit (fun _ => false) depth) :
    deep + (tree.ancestors node).length = depth + (tree.ancestors inner).length := by
  induction node using formed.descend generalizing depth with
  | step node ih =>
      rw [formed.visit_outline, if_neg Bool.false_ne_true, List.mem_cons, List.mem_flatMap] at member
      rcases member with same | ⟨child, listed, member⟩
      · obtain ⟨rfl, rfl⟩ := Prod.mk.inj same
        rfl
      · have deeper := ih child listed member
        rw [formed.ancestors_eq_cons ((formed.parent_iff child node).mpr listed), List.length_cons] at deeper
        omega

theorem depth_of_mem_walk {node depth : Nat} (member : (node, depth) ∈ tree.walk) :
    depth = (tree.ancestors node).length := by
  have deep := formed.depth_of_mem_visit member
  rw [ancestors_eq_nil formed.root_orphan, List.length_nil] at deep
  omega

/-- A node with a parent is reached from the root. -/
theorem mem_preorder_of_parent {node parent : Nat} (found : tree.parent? node = some parent) :
    node ∈ tree.preorder ∧ parent ∈ tree.preorder := by
  have listed := (formed.parent_iff node parent).mp found
  have above : tree.isWithin parent tree.root = true :=
    formed.isWithin_root (formed.parent_lt_size found) (formed.not_isAscription_of_parent found)
  have below := formed.isWithin_trans (formed.isWithin_of_child listed) above
  exact ⟨formed.mem_preorder_outline_iff.mpr below, formed.mem_preorder_outline_iff.mpr above⟩

theorem parent_before {top node parent : Nat} (found : tree.parent? node = some parent)
    (above : parent ∈ (tree.outline top).preorder) : [parent, node].Sublist (tree.outline top).preorder := by
  induction top using formed.descend with
  | step top ih =>
      rw [formed.preorder_outline] at above ⊢
      rcases List.mem_cons.mp above with rfl | above
      · apply List.Sublist.cons_cons
        rw [List.singleton_sublist, List.mem_flatMap]
        refine ⟨node, (formed.parent_iff node parent).mp found, ?_⟩
        rw [formed.preorder_outline]
        exact List.mem_cons_self
      · obtain ⟨child, listed, above⟩ := List.mem_flatMap.mp above
        have inner := ih child listed above
        apply List.Sublist.cons
        rw [List.flatMap_def]
        exact inner.trans (List.sublist_flatten_of_mem (List.mem_map_of_mem listed))

theorem below_of_mem_preorder {outer inner : Nat} (member : inner ∈ (tree.outline outer).preorder) :
    Below tree.nodes outer inner := by
  induction outer using formed.descend with
  | step outer ih =>
      rw [formed.preorder_outline, List.mem_cons, List.mem_flatMap] at member
      rcases member with rfl | ⟨child, listed, member⟩
      · exact .refl
      · exact .head listed (ih child listed member)

end WellFormed

/-- The ascription of a pattern has no parent. It is numbered right behind the pattern. -/
def IsPatternAscription (tree : Tree) (node : Nat) : Prop :=
  tree.parent? node = none ∧ AscribesPattern tree.nodes node

section Order

variable {source : String} {tree : Tree} (parsed : Tree.parse source = .ok tree)

include parsed

theorem isPatternAscription_of_orphan {node : Nat} (inside : node < tree.size) (other : node ≠ tree.root)
    (orphan : tree.parent? node = none) : tree.IsPatternAscription node := by
  refine ⟨orphan, ?_⟩
  obtain ⟨nodes, root, rfl, forest, -, -⟩ := exists_forest_of_parse parsed
  refine forest.covered node inside fun member => ?_
  rcases List.mem_append.mp member with isOwned | isRoot
  · obtain ⟨parent, listed⟩ := mem_owned_iff.mp isOwned
    rw [(parent?_eq_some_iff forest root node parent).mpr listed] at orphan
    cases orphan
  · exact other (List.mem_singleton.mp isRoot)

theorem mem_preorder_iff {node : Nat} :
    node ∈ tree.preorder ↔ node < tree.size ∧ ¬ tree.IsPatternAscription node := by
  have formed := wellFormed_of_parse parsed
  constructor
  · intro member
    refine ⟨formed.lt_size_of_mem_preorder member, ?_⟩
    rintro ⟨orphan, isAscription, -⟩
    have within := formed.mem_preorder_outline_iff.mp member
    rw [WellFormed.isWithin_iff, WellFormed.ancestors_eq_nil orphan] at within
    rcases within with rfl | absent
    · obtain ⟨body, program⟩ := formed.root_program
      rw [← kind_eq_kindAt, program] at isAscription
      cases isAscription
    · cases absent
  · rintro ⟨inside, listed⟩
    cases found : tree.parent? node with
    | some parent => exact (formed.mem_preorder_of_parent found).1
    | none =>
        by_cases isRoot : node = tree.root
        · subst isRoot
          exact formed.mem_preorder_outline_iff.mpr (WellFormed.isWithin_iff.mpr (.inl rfl))
        · exact absurd (isPatternAscription_of_orphan parsed inside isRoot found) listed

theorem start_le_child {node child : Nat} (inside : node < tree.size) (listed : child ∈ tree.children node) :
    (tree.span node).start ≤ (tree.span child).start := by
  have sits := sits_of_parse parsed inside
  cases named : (tree.kind node).isIdentifier with
  | false => exact (sits.inside named child listed).1
  | true => exact Nat.le_trans sits.start_le (sits.behind named child listed)

theorem start_le_inner {node inner : Nat} (inside : node < tree.size)
    (member : inner ∈ (tree.outline node).preorder) : (tree.span node).start ≤ (tree.span inner).start := by
  have formed := wellFormed_of_parse parsed
  induction node using formed.descend with
  | step node ih =>
      rw [formed.preorder_outline, List.mem_cons, List.mem_flatMap] at member
      rcases member with rfl | ⟨child, listed, member⟩
      · exact Nat.le_refl _
      · apply Nat.le_trans (start_le_child parsed inside listed)
        exact ih child listed (formed.child_lt_size node child listed) member

/-- A walk goes through the source from left to right. -/
theorem starts_in_order {node : Nat} (inside : node < tree.size) :
    (tree.outline node).preorder.Pairwise fun left right => (tree.span left).start ≤ (tree.span right).start := by
  have formed := wellFormed_of_parse parsed
  induction node using formed.descend with
  | step node ih =>
      have child_lt := formed.child_lt_size node
      have below : ∀ inner ∈ (tree.outline node).preorder, (tree.span node).start ≤ (tree.span inner).start :=
        fun inner => start_le_inner parsed inside
      rw [formed.preorder_outline] at below ⊢
      rw [List.pairwise_cons, List.pairwise_flatMap]
      refine ⟨(List.forall_mem_cons.mp below).2, fun child listed => ih child listed (child_lt child listed), ?_⟩
      refine (sits_of_parse parsed inside).follows.imp_of_mem ?_
      intro left right leftListed rightListed follows first inLeft second inRight
      calc (tree.span first).start
        _ ≤ (tree.span right).start := follows first (formed.below_of_mem_preorder inLeft)
        _ ≤ (tree.span second).start := start_le_inner parsed (child_lt right rightListed) inRight

/-- The walk over a parsed tree that leaves nothing out meets no node twice, and just the nodes of the tree that
are not ascriptions of patterns. Each node comes after its parent, at the depth of its way up, and none starts
before the one that was met last. -/
theorem walk_in_source_order :
    (tree.walk.map Prod.fst).Nodup ∧
      (∀ node, node ∈ tree.walk.map Prod.fst ↔ node < tree.size ∧ ¬ tree.IsPatternAscription node) ∧
      (∀ node parent, tree.parent? node = some parent → [parent, node].Sublist (tree.walk.map Prod.fst)) ∧
      (∀ node depth, (node, depth) ∈ tree.walk → depth = (tree.ancestors node).length) ∧
      (tree.walk.map fun met => (tree.span met.1).start).Pairwise (· ≤ ·) := by
  have formed := wellFormed_of_parse parsed
  have root_lt : tree.root < tree.size := by
    have last := formed.root_last
    omega
  have starts_eq : (tree.walk.map fun met => (tree.span met.1).start) =
      tree.preorder.map fun node => (tree.span node).start := by
    rw [← map_fst_walk, List.map_map]
    rfl
  rw [map_fst_walk, starts_eq, List.pairwise_map]
  refine ⟨formed.nodup_preorder_outline _, fun node => mem_preorder_iff parsed, ?_, ?_, ?_⟩
  · intro node parent found
    exact formed.parent_before found (formed.mem_preorder_of_parent found).2
  · intro node depth member
    exact formed.depth_of_mem_walk member
  · exact starts_in_order parsed root_lt

end Order

/-- The ascription of the array pattern is left out. The one of `x` stands behind its declarator, and the method
starts with its key. -/
theorem walk_in_source_order_of_ascriptions :
    ∃ tree, Tree.parse "let [a]: S = b, x: T, y; ({ m(p: U) { } })" = .ok tree ∧
      tree.walk.map Prod.fst = [19, 10, 4, 1, 0, 3, 7, 5, 6, 9, 8, 18, 17, 16, 11, 15, 12, 13, 14] ∧
      tree.span 7 = ⟨16, 17⟩ ∧ tree.span 6 = ⟨19, 20⟩ ∧ tree.span 11 = ⟨28, 29⟩ ∧ tree.span 15 = ⟨28, 39⟩ ∧
      (tree.walk.map fun met => (tree.span met.1).start).Pairwise (· ≤ ·) := by
  have checks : (Tree.parse "let [a]: S = b, x: T, y; ({ m(p: U) { } })").toOption.any (fun tree =>
      decide (tree.walk.map Prod.fst = [19, 10, 4, 1, 0, 3, 7, 5, 6, 9, 8, 18, 17, 16, 11, 15, 12, 13, 14] ∧
        tree.span 7 = ⟨16, 17⟩ ∧ tree.span 6 = ⟨19, 20⟩ ∧ tree.span 11 = ⟨28, 29⟩ ∧ tree.span 15 = ⟨28, 39⟩)) =
      true := by
    decide +kernel
  obtain ⟨tree, parsed, checks⟩ := exists_of_checks checks
  obtain ⟨walked, declarator, ascription, key, method⟩ := of_decide_eq_true checks
  obtain ⟨-, -, -, -, ordered⟩ := walk_in_source_order parsed
  exact ⟨tree, parsed, walked, declarator, ascription, key, method, ordered⟩

end Tree

end Heed
