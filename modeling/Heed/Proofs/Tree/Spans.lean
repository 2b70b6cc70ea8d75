import Heed.Proofs.Grammar.StatementLayout
import Heed.Proofs.Tree.Outline

/-!
# Spans of a parsed tree

The span of every node of a parsed tree lies in the source, between whole characters, and is not empty but
for the program. A node spans its children; only the ascription of an identifier stands behind it. So a walk
over the tree meets the identifiers in the order of the source, and the `return` statements, too.
-/

set_option autoImplicit false

namespace Heed

namespace Tree

theorem settled_of_parse {source : String} {tree : Tree} (parsed : Tree.parse source = .ok tree) :
    Settled (IsBoundary source) tree.nodes := by
  rw [Tree.parse] at parsed
  split at parsed
  case h_2 => cases parsed
  case h_1 tokens scanned =>
      rw [Tree.ofTokens] at parsed
      split at parsed
      case h_2 => cases parsed
      case h_1 root draft built =>
          obtain rfl := Except.ok.inj parsed
          have laid := Token.laid_scan scanned
          have edge_zero : IsBoundary source 0 := String.Pos.Raw.isValid_zero
          have edge_length : IsBoundary source source.utf8ByteSize := String.Pos.Raw.isValid_rawEndPos
          refine Grammar.settled_program (Grammar.placeNodes_productions _ _) built ?_ edge_zero
            edge_length fun _ => IsBoundary.le_size
          refine ⟨laid.filter _, edge_zero, ?_⟩
          intro id node found
          simp at found

theorem sits_of_parse {source : String} {tree : Tree} (parsed : Tree.parse source = .ok tree)
    {node : Nat} (inside : node < tree.size) :
    Sits (IsBoundary source) tree.nodes ⟨tree.kind node, tree.span node⟩ := by
  have stored := Array.getElem?_eq_getElem inside
  have same : (⟨tree.kind node, tree.span node⟩ : Node) = tree.nodes[node] := by
    rw [Tree.kind, Tree.span, stored]
  rw [same]
  exact settled_of_parse parsed node _ stored

/-- Where a node stands in a source and with its children. -/
structure SpansWell (source : String) (tree : Tree) (node : Nat) : Prop where
  start_le_stop : (tree.span node).start ≤ (tree.span node).stop
  stop_le_size : (tree.span node).stop ≤ source.utf8ByteSize
  start_boundary : IsBoundary source (tree.span node).start
  stop_boundary : IsBoundary source (tree.span node).stop
  nonempty : (∀ body, tree.kind node ≠ .program body) → (tree.span node).start < (tree.span node).stop
  child_inside : (tree.kind node).isIdentifier = false → ∀ child ∈ tree.children node,
    (tree.span node).start ≤ (tree.span child).start ∧ (tree.span child).stop ≤ (tree.span node).stop
  ascription_behind : (tree.kind node).isIdentifier = true → ∀ child ∈ tree.children node,
    (tree.span node).stop ≤ (tree.span child).start

theorem spansWell_of_parse {source : String} {tree : Tree} (parsed : Tree.parse source = .ok tree)
    {node : Nat} (inside : node < tree.size) : tree.SpansWell source node := by
  have sits := sits_of_parse parsed inside
  exact
    { start_le_stop := sits.start_le
      stop_le_size := sits.edge_stop.le_size
      start_boundary := sits.edge_start
      stop_boundary := sits.edge_stop
      nonempty := sits.nonempty
      child_inside := sits.inside
      ascription_behind := sits.behind }

/-- The text has a character of two bytes, and the method starts with its key. -/
theorem spansWell_of_ascribed_method :
    ∃ tree, Tree.parse "f('é'); let x: T = { m() { } }" = .ok tree ∧ tree.span 1 = ⟨2, 6⟩ ∧
      tree.children 4 = [5] ∧ tree.span 4 = ⟨13, 14⟩ ∧ tree.span 5 = ⟨16, 17⟩ ∧
      ∀ node < tree.size, tree.SpansWell "f('é'); let x: T = { m() { } }" node := by
  have checks : (Tree.parse "f('é'); let x: T = { m() { } }").toOption.any (fun tree =>
      decide (tree.span 1 = ⟨2, 6⟩ ∧ tree.children 4 = [5] ∧ tree.span 4 = ⟨13, 14⟩ ∧
        tree.span 5 = ⟨16, 17⟩)) = true := by
    decide +kernel
  obtain ⟨tree, parsed, checks⟩ := exists_of_checks checks
  obtain ⟨text, ascribed, name, ascription⟩ := of_decide_eq_true checks
  exact ⟨tree, parsed, text, ascribed, name, ascription, fun node inside => spansWell_of_parse parsed inside⟩

/-! ## Identifiers and `return` statements in source order -/

section Order

variable {source : String} {tree : Tree} (parsed : Tree.parse source = .ok tree)

include parsed

theorem nonempty_of_isAhead {node : Nat} (isAhead : (tree.kind node).isAhead = true) :
    (tree.span node).start < (tree.span node).stop := by
  rcases Nat.lt_or_ge node tree.size with inside | outside
  · exact (sits_of_parse parsed inside).nonempty (NodeKind.other_of_isAhead isAhead).2.2
  · rw [kind_eq_kindAt, kindAt_of_size_le outside] at isAhead
    cases isAhead

theorem preorder_of_identifier {node child : Nat} (named : (tree.kind node).isIdentifier = true)
    (listed : child ∈ tree.children node) :
    (tree.outline child).preorder = [child] ∧ (tree.kind child).isAscription = true := by
  have ascription : (tree.kind child).isAscription = true := by
    cases kindEq : tree.kind node with
    | identifier name ascription =>
        rw [children, kindEq] at listed
        have fits := fits_of_parse parsed node ⟨child, .ascription⟩
        rw [kindEq] at fits
        obtain rfl := Option.mem_toList.mp listed
        exact fits (by simp [NodeKind.slots])
    | _ => simp [kindEq, NodeKind.isIdentifier] at named
  have formed := wellFormed_of_parse parsed
  cases kindEq : tree.kind child with
  | typeAscription type =>
      rw [formed.preorder_outline, children, kindEq]
      exact ⟨rfl, rfl⟩
  | _ => simp [kindEq, NodeKind.isAscription] at ascription

/-- What hangs below a node stands inside it, but for ascriptions. -/
theorem span_of_unascribed {node inner : Nat} (inside : node < tree.size)
    (below : inner ∈ (tree.outline node).preorder) (unascribed : (tree.kind inner).isAscription = false) :
    (tree.span node).start ≤ (tree.span inner).start ∧ (tree.span inner).stop ≤ (tree.span node).stop := by
  have formed := wellFormed_of_parse parsed
  induction node using formed.descend with
  | step node ih =>
      rw [formed.preorder_outline, List.mem_cons, List.mem_flatMap] at below
      rcases below with rfl | ⟨child, listed, below⟩
      · exact ⟨Nat.le_refl _, Nat.le_refl _⟩
      · cases unnamed : (tree.kind node).isIdentifier with
        | true =>
            obtain ⟨preorder_eq, isAscription⟩ := preorder_of_identifier parsed unnamed listed
            rw [preorder_eq] at below
            rw [List.mem_singleton.mp below, isAscription] at unascribed
            cases unascribed
        | false =>
            have nested := (sits_of_parse parsed inside).inside unnamed child listed
            have deeper := ih child listed (formed.child_lt_size node child listed) below
            simp only [← span_eq_spanAt] at nested
            omega

theorem le_start_of_standsBehind {low node inner : Nat} (inside : node < tree.size)
    (stands : StandsBehind tree.nodes low node) (below : inner ∈ (tree.outline node).preorder)
    (isAhead : (tree.kind inner).isAhead = true) : low ≤ (tree.span inner).start := by
  have formed := wellFormed_of_parse parsed
  obtain ⟨unascribed, uncalled, -⟩ := NodeKind.other_of_isAhead isAhead
  rcases stands with starts | ⟨called, children⟩
  · exact Nat.le_trans starts (span_of_unascribed parsed inside below unascribed).1
  · rw [formed.preorder_outline, List.mem_cons, List.mem_flatMap] at below
    rcases below with rfl | ⟨child, listed, below⟩
    · rw [← kind_eq_kindAt, uncalled] at called
      cases called
    · obtain ⟨child_lt, starts⟩ := children child listed
      exact Nat.le_trans starts (span_of_unascribed parsed child_lt below unascribed).1

theorem ahead_in_order {node : Nat} (inside : node < tree.size) :
    (tree.outline node).preorder.Pairwise fun left right =>
      (tree.kind left).isAhead = true → (tree.kind right).isAhead = true →
        (tree.span left).start < (tree.span right).start := by
  have formed := wellFormed_of_parse parsed
  induction node using formed.descend with
  | step node ih =>
      have child_lt := formed.child_lt_size node
      rw [formed.preorder_outline, List.pairwise_cons, List.pairwise_flatMap]
      refine ⟨?_, fun child listed => ih child listed (child_lt child listed), ?_⟩
      · intro below member isAhead belowAhead
        obtain ⟨child, listed, member⟩ := List.mem_flatMap.mp member
        have unascribed := (NodeKind.other_of_isAhead belowAhead).1
        calc (tree.span node).start
          _ < (tree.span child).start := (sits_of_parse parsed inside).start_lt_child isAhead listed
          _ ≤ (tree.span below).start := (span_of_unascribed parsed (child_lt child listed) member unascribed).1
      · refine (sits_of_parse parsed inside).ordered.imp_of_mem ?_
        intro left right leftListed rightListed stands first inLeft second inRight firstAhead secondAhead
        have unascribed := (NodeKind.other_of_isAhead firstAhead).1
        calc (tree.span first).start
          _ < (tree.span first).stop := nonempty_of_isAhead parsed firstAhead
          _ ≤ (tree.span left).stop := (span_of_unascribed parsed (child_lt left leftListed) inLeft unascribed).2
          _ ≤ (tree.span second).start :=
              le_start_of_standsBehind parsed (child_lt right rightListed) stands inRight secondAhead

theorem identifiers_in_order {node : Nat} (inside : node < tree.size) :
    (tree.outline node).preorder.Pairwise fun left right =>
      (tree.kind left).isIdentifier = true → (tree.kind right).isIdentifier = true →
        (tree.span left).start < (tree.span right).start := by
  apply (ahead_in_order parsed inside).imp
  intro left right ordered leftNamed rightNamed
  exact ordered (NodeKind.isAhead_of_isIdentifier leftNamed) (NodeKind.isAhead_of_isIdentifier rightNamed)

end Order

end Tree

end Heed
