import Heed.Proofs.Grammar.Statement
import Heed.Proofs.Table

/-!
# The shape of syntax trees

In the tree of a source every node but the root hangs below one parent, or is an ascription that hangs
nowhere. So the way up from a node is finite and does not come back, and the nodes are partly ordered by
lying inside one another.
-/

set_option autoImplicit false

namespace Heed

namespace Tree

/-- The children, each with its parent. -/
def links (nodes : Array Node) : List (Nat × Nat) :=
  nodes.toList.zipIdx.flatMap fun entry => entry.1.kind.children.map fun child => (child, entry.2)

theorem parentsOf_eq (nodes : Array Node) : parentsOf nodes = tabulate nodes.size (links nodes) := by
  have adopt_eq : ∀ (parents : Array (Option Nat)) (entry : Node × Nat),
      adopt parents entry.2 entry.1 =
        (entry.1.kind.children.map fun child => (child, entry.2)).foldl
          (fun table link => table.setIfInBounds link.1 (some link.2)) parents := by
    intro parents entry
    rw [adopt, List.foldl_map]
  rw [parentsOf, tabulate, links, List.foldl_flatMap, ← Array.foldl_toList, Array.toList_zipIdx]
  exact congrArg (fun step => List.foldl step (Array.replicate nodes.size none) nodes.toList.zipIdx)
    (funext fun parents => funext fun entry => adopt_eq parents entry)

theorem mem_links_iff {nodes : Array Node} {child parent : Nat} :
    (child, parent) ∈ links nodes ↔ child ∈ (kindAt nodes parent).children := by
  rw [links, List.mem_flatMap]
  constructor
  · rintro ⟨⟨node, id⟩, member, paired⟩
    obtain ⟨other, listed, same⟩ := List.mem_map.mp paired
    obtain ⟨rfl, rfl⟩ := Prod.mk.inj same
    have found := List.mem_zipIdx_iff_getElem?.mp member
    rw [Array.getElem?_toList] at found
    simp only [kindAt, found]
    exact listed
  · intro listed
    rw [kindAt] at listed
    cases found : nodes[parent]? with
    | none => simp [found, NodeKind.children] at listed
    | some node =>
        rw [found] at listed
        refine ⟨(node, parent), ?_, List.mem_map_of_mem listed⟩
        rw [List.mem_zipIdx_iff_getElem?, Array.getElem?_toList]
        exact found

theorem map_fst_links (nodes : Array Node) : (links nodes).map Prod.fst = owned nodes := by
  have listed : ∀ entry : Node × Nat,
      (entry.1.kind.children.map fun child => (child, entry.2)).map Prod.fst =
        entry.1.kind.children := fun entry => by
    rw [List.map_map]
    exact List.map_id _
  rw [links, owned, List.map_flatMap]
  simp only [listed]
  rw [← List.flatMap_map Prod.fst (fun node : Node => node.kind.children), List.zipIdx_map_fst]

/-- A finished table of nodes, with the parent of each node, all of which hang together below the root. Only
ascriptions may hang nowhere, and only the ascription of an identifier is numbered after its parent. -/
structure WellFormed (tree : Tree) : Prop where
  child_lt_size : ∀ node, ∀ child ∈ tree.children node, child < tree.size
  children_nodup : ∀ node, (tree.children node).Nodup
  parent_unique : ∀ left right child, child ∈ tree.children left → child ∈ tree.children right →
    left = right
  parent_iff : ∀ child parent, tree.parent? child = some parent ↔ child ∈ tree.children parent
  root_last : tree.root + 1 = tree.size
  root_program : ∃ body, tree.kind tree.root = .program body
  root_orphan : tree.parent? tree.root = none
  orphan : ∀ node < tree.size, node ≠ tree.root → tree.parent? node = none →
    (tree.kind node).isAscription = true
  rising : ∀ node, ∀ child ∈ tree.children node, child < node ∨
    (∃ name, tree.kind node = .identifier name (some child)) ∧ (tree.kind child).isAscription = true

theorem parent?_eq_some_iff {nodes : Array Node} {roots : List Slot} (forest : Forest nodes roots)
    (root child parent : Nat) :
    (Tree.ofNodes nodes root).parent? child = some parent ↔ child ∈ (kindAt nodes parent).children := by
  rw [parent?, ofNodes, parentsOf_eq, ← mem_links_iff]
  have once : ((links nodes).map Prod.fst).Nodup := by
    rw [map_fst_links]
    exact (List.nodup_append.mp forest.once).1
  refine tabulate_eq_some_iff ?_ ?_
  · rintro ⟨other, above⟩ member
    exact forest.child_lt_size (mem_links_iff.mp member)
  · intro left right memberLeft memberRight
    exact (Prod.mk.inj (List.inj_on_of_nodup_map once memberLeft memberRight rfl)).2

theorem wellFormed_of_forest {nodes : Array Node} {root : Nat} (forest : Forest nodes [⟨root, .plain⟩])
    (last : root + 1 = nodes.size) (program : ∃ body, kindAt nodes root = .program body) :
    (Tree.ofNodes nodes root).WellFormed := by
  have once := List.nodup_append.mp forest.once
  have parent_iff := parent?_eq_some_iff forest root
  have orphan_unowned : ∀ node, (Tree.ofNodes nodes root).parent? node = none → node ∉ owned nodes := by
    intro node orphan member
    obtain ⟨parent, listed⟩ := mem_owned_iff.mp member
    rw [(parent_iff node parent).mpr listed] at orphan
    cases orphan
  refine
    { child_lt_size := fun node child listed => forest.child_lt_size listed
      children_nodup := ?_
      parent_unique := ?_
      parent_iff
      root_last := last
      root_program := program
      root_orphan := ?_
      orphan := ?_
      rising := ?_ }
  · intro node
    change (kindAt nodes node).children.Nodup
    rw [kindAt]
    cases found : nodes[node]? with
    | none => exact List.nodup_nil
    | some entry =>
        have member : entry ∈ nodes.toList := Array.mem_toList_iff.mpr (Array.mem_of_getElem? found)
        exact (List.nodup_flatMap.mp once.1).1 entry member
  · intro left right child listedLeft listedRight
    have parentLeft := (parent_iff child left).mpr listedLeft
    rw [(parent_iff child right).mpr listedRight] at parentLeft
    exact (Option.some.inj parentLeft).symm
  · cases found : (Tree.ofNodes nodes root).parent? root with
    | none => exact found
    | some parent =>
        have member := mem_owned_iff.mpr ⟨parent, (parent_iff root parent).mp found⟩
        exact absurd rfl (once.2.2 root member root (by simp))
  · intro node inside other orphan
    refine (forest.covered node inside fun member => ?_).1
    rcases List.mem_append.mp member with member | member
    · exact orphan_unowned node orphan member
    · exact other (List.mem_singleton.mp member)
  · intro node child listed
    have listed : child ∈ (kindAt nodes node).children := listed
    rcases forest.rising node child listed with below | named
    · exact .inl below
    · have fits := forest.fits node
      change _ ∨ (∃ name, kindAt nodes node = .identifier name (some child)) ∧
        (kindAt nodes child).isAscription = true
      cases kindEq : kindAt nodes node with
      | identifier name ascription =>
          rw [kindEq] at listed fits
          obtain rfl := Option.mem_toList.mp listed
          exact .inr ⟨⟨name, rfl⟩, fits ⟨child, .ascription⟩ (by simp [NodeKind.slots])⟩
      | _ => simp [kindEq, NodeKind.isIdentifier] at named

/-- Every node stands in a place that admits it. -/
def Fits (tree : Tree) : Prop := ∀ node, ∀ slot ∈ (tree.kind node).slots, slot.Admitted tree.nodes

theorem fits_of_parse {source : String} {tree : Tree} (parsed : Tree.parse source = .ok tree) :
    tree.Fits := by
  obtain ⟨nodes, root, rfl, forest, -, -⟩ := exists_forest_of_parse parsed
  exact forest.fits

theorem wellFormed_of_parse {source : String} {tree : Tree} (parsed : Tree.parse source = .ok tree) :
    tree.WellFormed := by
  obtain ⟨nodes, root, rfl, forest, last, program⟩ := exists_forest_of_parse parsed
  exact wellFormed_of_forest forest last program

namespace WellFormed

variable {tree : Tree} (formed : tree.WellFormed)

include formed

theorem not_isAscription_of_parent {node parent : Nat} (found : tree.parent? node = some parent) :
    (tree.kind parent).isAscription = false := by
  have listed := (formed.parent_iff node parent).mp found
  rw [children] at listed
  cases kindEq : tree.kind parent with
  | typeAscription type => simp [kindEq, NodeKind.children] at listed
  | _ => rfl

theorem lt_parent {node parent : Nat} (found : tree.parent? node = some parent)
    (unascribed : (tree.kind node).isAscription = false) : node < parent := by
  rcases formed.rising parent node ((formed.parent_iff node parent).mp found) with below | exempt
  · exact below
  · rw [unascribed] at exempt
    cases exempt.2

theorem parent_lt_size {node parent : Nat} (found : tree.parent? node = some parent) :
    parent < tree.size := by
  have listed := (formed.parent_iff node parent).mp found
  rcases Nat.lt_or_ge parent tree.size with inside | outside
  · exact inside
  · rw [children, kind_eq_kindAt, kindAt_of_size_le outside] at listed
    simp [NodeKind.children] at listed

/-- What holds of the nodes without a parent, and of each node whose parent has it, holds of all. -/
theorem climb {motive : Nat → Prop}
    (top : ∀ node, tree.parent? node = none → motive node)
    (step : ∀ node parent, tree.parent? node = some parent → motive parent → motive node)
    (node : Nat) : motive node := by
  -- Above the first parent the numbers rise up to the size of the tree.
  have rise : ∀ room node, tree.size - node ≤ room → (tree.kind node).isAscription = false →
      motive node := by
    intro room
    induction room with
    | zero =>
        intro node short _
        cases found : tree.parent? node with
        | none => exact top node found
        | some parent =>
            have inside := formed.child_lt_size parent node ((formed.parent_iff node parent).mp found)
            omega
    | succ room ih =>
        intro node short unascribed
        cases found : tree.parent? node with
        | none => exact top node found
        | some parent =>
            have below := formed.lt_parent found unascribed
            have inside := formed.parent_lt_size found
            exact step node parent found
              (ih parent (by omega) (formed.not_isAscription_of_parent found))
  cases found : tree.parent? node with
  | none => exact top node found
  | some parent =>
      exact step node parent found
        (rise _ parent (Nat.le_refl _) (formed.not_isAscription_of_parent found))

theorem ancestors_eq_cons {node parent : Nat} (found : tree.parent? node = some parent) :
    tree.ancestors node = parent :: tree.ancestors parent := by
  have above_eq : tree.above parent = tree.ancestors parent := by
    rw [above, ancestors]
    cases onwards : tree.parent? parent with
    | none => rfl
    | some next =>
        have below := formed.lt_parent onwards (formed.not_isAscription_of_parent found)
        exact if_pos ⟨below, formed.parent_lt_size onwards⟩
  rw [ancestors, found]
  exact congrArg (parent :: ·) above_eq

omit formed in
theorem ancestors_eq_nil {node : Nat} (orphan : tree.parent? node = none) : tree.ancestors node = [] := by
  rw [ancestors, orphan]

/-- The way up from a node goes from parent to parent. -/
theorem isChain_ancestors (node : Nat) :
    List.IsChain (fun lower upper => tree.parent? lower = some upper) (node :: tree.ancestors node) := by
  induction node using formed.climb with
  | top node orphan =>
      rw [ancestors_eq_nil orphan]
      exact .singleton node
  | step node parent found ih =>
      rw [formed.ancestors_eq_cons found]
      exact List.isChain_cons_cons.mpr ⟨found, ih⟩

/-- The way up ends at a node without a parent. -/
theorem exists_top (node : Nat) : ∃ top, (node :: tree.ancestors node).getLast? = some top ∧
    tree.parent? top = none ∧ (node < tree.size → top < tree.size) := by
  induction node using formed.climb with
  | top node orphan =>
      rw [ancestors_eq_nil orphan]
      exact ⟨node, rfl, orphan, fun inside => inside⟩
  | step node parent found ih =>
      obtain ⟨top, last, orphan, inside⟩ := ih
      rw [formed.ancestors_eq_cons found]
      exact ⟨top, by rw [List.getLast?_cons_cons, last], orphan, fun _ => inside (formed.parent_lt_size found)⟩

/-- The way up from a node on the way is the rest of the way. -/
theorem suffix_of_mem_ancestors {node outer : Nat} (member : outer ∈ tree.ancestors node) :
    (outer :: tree.ancestors outer) <:+ tree.ancestors node := by
  induction node using formed.climb with
  | top node orphan =>
      rw [ancestors_eq_nil orphan] at member
      cases member
  | step node parent found ih =>
      rw [formed.ancestors_eq_cons found] at member ⊢
      rcases List.mem_cons.mp member with rfl | member
      · exact List.suffix_refl _
      · exact (ih member).trans (List.suffix_cons _ _)

theorem length_lt_of_mem_ancestors {node outer : Nat} (member : outer ∈ tree.ancestors node) :
    (tree.ancestors outer).length < (tree.ancestors node).length := by
  have shorter := (formed.suffix_of_mem_ancestors member).length_le
  rw [List.length_cons] at shorter
  omega

theorem nodup_ancestors (node : Nat) : (node :: tree.ancestors node).Nodup := by
  induction node using formed.climb with
  | top node orphan =>
      rw [ancestors_eq_nil orphan]
      exact List.nodup_singleton node
  | step node parent found ih =>
      rw [List.nodup_cons, formed.ancestors_eq_cons found]
      refine ⟨fun member => ?_, ih⟩
      rw [← formed.ancestors_eq_cons found] at member
      exact Nat.lt_irrefl _ (formed.length_lt_of_mem_ancestors member)

omit formed in
theorem isWithin_iff {node outer : Nat} :
    tree.isWithin node outer = true ↔ node = outer ∨ outer ∈ tree.ancestors node := by
  rw [isWithin, Bool.or_eq_true, beq_iff_eq, List.contains_iff_mem]

theorem isWithin_antisymm {left right : Nat} (inner : tree.isWithin left right = true)
    (outer : tree.isWithin right left = true) : left = right := by
  rcases isWithin_iff.mp inner with same | below
  · exact same
  rcases isWithin_iff.mp outer with same | above
  · exact same.symm
  have shorter := formed.length_lt_of_mem_ancestors below
  have longer := formed.length_lt_of_mem_ancestors above
  omega

theorem isWithin_trans {inner middle outer : Nat} (lower : tree.isWithin inner middle = true)
    (upper : tree.isWithin middle outer = true) : tree.isWithin inner outer = true := by
  rw [isWithin_iff] at lower upper ⊢
  rcases lower with rfl | below
  · exact upper
  have rest := formed.suffix_of_mem_ancestors below
  rcases upper with rfl | above
  · exact .inr below
  · exact .inr (rest.subset (List.mem_cons_of_mem _ above))

end WellFormed

/-- The tree of a source is well formed. The way up from a node goes from parent to parent, does not come
back and ends at the root or at an ascription that hangs nowhere. Lying inside one another is a partial
order. -/
theorem parse_wellFormed (source : String) (tree : Tree) (parsed : Tree.parse source = .ok tree) :
    tree.WellFormed ∧
      (∀ node < tree.size,
        List.IsChain (fun lower upper => tree.parent? lower = some upper)
            (node :: tree.ancestors node) ∧
          (node :: tree.ancestors node).Nodup ∧
          ∃ top, (node :: tree.ancestors node).getLast? = some top ∧ tree.parent? top = none ∧
            (top = tree.root ∨ (tree.kind top).isAscription = true)) ∧
      (∀ node, tree.isWithin node node = true) ∧
      (∀ left right, tree.isWithin left right = true → tree.isWithin right left = true → left = right) ∧
      ∀ inner middle outer, tree.isWithin inner middle = true → tree.isWithin middle outer = true →
        tree.isWithin inner outer = true := by
  have formed := wellFormed_of_parse parsed
  refine ⟨formed, fun node inside => ?_, fun node => ?_, fun _ _ => formed.isWithin_antisymm,
    fun _ _ _ => formed.isWithin_trans⟩
  · refine ⟨formed.isChain_ancestors node, formed.nodup_ancestors node, ?_⟩
    obtain ⟨top, last, orphan, inside_of_inside⟩ := formed.exists_top node
    refine ⟨top, last, orphan, ?_⟩
    by_cases isRoot : top = tree.root
    · exact .inl isRoot
    · exact .inr (formed.orphan top (inside_of_inside inside) isRoot orphan)
  · exact WellFormed.isWithin_iff.mpr (.inl rfl)

/-- A check of the tree of a source that can be computed. -/
theorem exists_of_checks {source : String} {check : Tree → Bool}
    (checks : (Tree.parse source).toOption.any check = true) :
    ∃ tree, Tree.parse source = .ok tree ∧ check tree = true := by
  cases parsed : Tree.parse source with
  | error error =>
      rw [parsed] at checks
      cases checks
  | ok tree =>
      rw [parsed] at checks
      exact ⟨tree, rfl, checks⟩

/-- The pattern has an ascription, which hangs nowhere. -/
theorem parse_wellFormed_of_ascribed_pattern :
    ∃ tree, Tree.parse "const { a }: T = f(b as U)" = .ok tree ∧ tree.WellFormed ∧
      tree.parent? 3 = none ∧ (tree.kind 3).isAscription = true := by
  have checks : (Tree.parse "const { a }: T = f(b as U)").toOption.any (fun tree =>
      decide (tree.parent? 3 = none ∧ (tree.kind 3).isAscription = true)) = true := by
    decide +kernel
  obtain ⟨tree, parsed, checks⟩ := exists_of_checks checks
  obtain ⟨orphan, ascription⟩ := of_decide_eq_true checks
  exact ⟨tree, parsed, (parse_wellFormed _ tree parsed).1, orphan, ascription⟩

end Tree

end Heed
