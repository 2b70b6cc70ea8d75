import Heed.Proofs.Tree.Forest
import Mathlib.Logic.Relation

/-!
# Where nodes stand

A node of a table sits well if its span is not empty and holds the spans of its children, one behind the
other. Only a program may be empty, and the ascription of an identifier stands behind it instead. A method of
an object is one node that starts where its key starts, so that what stands behind the key are only the children
of the method. Nothing that hangs below a child, ascriptions included, starts behind the start of the next child.
A `return` statement starts before what it returns.

A table that grows keeps the spans of its nodes, and their kinds up to the ascriptions of identifiers that
have no parent yet, so that nodes that sit well go on to do so.
-/

set_option autoImplicit false

namespace Heed

variable {edge : Nat → Prop}

def spanAt (nodes : Array Node) (id : Nat) : Span :=
  match nodes[id]? with
  | some entry => entry.span
  | none => .empty

theorem Tree.span_eq_spanAt (tree : Tree) (node : Nat) : tree.span node = spanAt tree.nodes node := rfl

theorem spanAt_push_of_lt {nodes : Array Node} {id : Nat} (node : Node) (inside : id < nodes.size) :
    spanAt (nodes.push node) id = spanAt nodes id := by
  rw [spanAt, spanAt, Array.getElem?_push_lt inside, Array.getElem?_eq_getElem inside]

theorem spanAt_push_size (nodes : Array Node) (node : Node) :
    spanAt (nodes.push node) nodes.size = node.span := by
  rw [spanAt, Array.getElem?_push_size]

theorem spanAt_modify_ascribed (nodes : Array Node) (target ascription id : Nat) :
    spanAt (nodes.modify target (ascribed ascription)) id = spanAt nodes id := by
  rw [spanAt, spanAt, Array.getElem?_modify]
  by_cases same : target = id
  · rw [if_pos same]
    cases nodes[id]? with
    | none => rfl
    | some node =>
        rcases node with ⟨kind, span⟩
        cases kind <;> rfl
  · rw [if_neg same]

namespace NodeKind

theorem isIdentifier_bare (kind : NodeKind) : kind.bare.isIdentifier = kind.isIdentifier := by
  cases kind <;> rfl

theorem bare_of_not_identifier {kind : NodeKind} (unnamed : kind.isIdentifier = false) :
    kind.bare = kind := by
  cases kind <;> first | rfl | simp [isIdentifier] at unnamed

theorem not_isIdentifier_of_isFunctionLike {kind : NodeKind} (called : kind.isFunctionLike = true) :
    kind.isIdentifier = false := by
  cases kind <;> first | rfl | cases called

def isReturn : NodeKind → Bool
  | .returnStatement _ => true
  | _ => false

theorem not_isReturn_of_pair {kind : NodeKind} {first second : Nat} (lists : kind.children = [first, second]) :
    kind.isReturn = false := by
  cases kind with
  | returnStatement argument => cases argument <;> simp [children] at lists
  | _ => rfl

/-- Identifiers and `return` statements: none of their children starts where they do. -/
def isAhead (kind : NodeKind) : Bool := kind.isIdentifier || kind.isReturn

theorem isAhead_eq_false_iff {kind : NodeKind} :
    kind.isAhead = false ↔ kind.isIdentifier = false ∧ kind.isReturn = false := Bool.or_eq_false_iff

theorem isAhead_of_isIdentifier {kind : NodeKind} (named : kind.isIdentifier = true) : kind.isAhead = true := by
  simp [isAhead, named]

theorem isAhead_of_isReturn {kind : NodeKind} (returns : kind.isReturn = true) : kind.isAhead = true := by
  simp [isAhead, returns]

theorem other_of_isAhead {kind : NodeKind} (isAhead : kind.isAhead = true) :
    kind.isAscription = false ∧ kind.isFunctionLike = false ∧ ∀ body, kind ≠ .program body := by
  cases kind with
  | identifier name ascription => exact ⟨rfl, rfl, by simp⟩
  | returnStatement argument => exact ⟨rfl, rfl, by simp⟩
  | _ => cases isAhead

end NodeKind

/-! ## Tables that grow -/

structure Keeps (before after : Array Node) : Prop where
  size_le : before.size ≤ after.size
  span_eq : ∀ id < before.size, spanAt after id = spanAt before id
  bare_eq : ∀ id < before.size, (kindAt after id).bare = (kindAt before id).bare

namespace Keeps

variable {first second third : Array Node}

theorem refl (nodes : Array Node) : Keeps nodes nodes :=
  ⟨Nat.le_refl _, fun _ _ => rfl, fun _ _ => rfl⟩

theorem trans (left : Keeps first second) (right : Keeps second third) : Keeps first third := by
  refine ⟨Nat.le_trans left.size_le right.size_le, ?_, ?_⟩
  · intro id inside
    rw [right.span_eq id (Nat.lt_of_lt_of_le inside left.size_le), left.span_eq id inside]
  · intro id inside
    rw [right.bare_eq id (Nat.lt_of_lt_of_le inside left.size_le), left.bare_eq id inside]

theorem push (nodes : Array Node) (node : Node) : Keeps nodes (nodes.push node) := by
  refine ⟨by simp, ?_, ?_⟩
  · intro id inside
    exact spanAt_push_of_lt node inside
  · intro id inside
    rw [kindAt_push_of_lt node inside]

theorem ascribe (nodes : Array Node) (target ascription : Nat) :
    Keeps nodes (nodes.modify target (ascribed ascription)) := by
  refine ⟨by simp, ?_, ?_⟩
  · intro id _
    exact spanAt_modify_ascribed nodes target ascription id
  · intro id _
    exact bare_kindAt_ascribed nodes target ascription id

theorem isIdentifier_eq (keeps : Keeps first second) {id : Nat} (inside : id < first.size) :
    (kindAt second id).isIdentifier = (kindAt first id).isIdentifier := by
  rw [← NodeKind.isIdentifier_bare, keeps.bare_eq id inside, NodeKind.isIdentifier_bare]

theorem kind_eq (keeps : Keeps first second) {id : Nat} (inside : id < first.size)
    (unnamed : (kindAt first id).isIdentifier = false) : kindAt second id = kindAt first id := by
  have unnamed' := (keeps.isIdentifier_eq inside).trans unnamed
  rw [← NodeKind.bare_of_not_identifier unnamed', keeps.bare_eq id inside,
    NodeKind.bare_of_not_identifier unnamed]

end Keeps

/-! ## What hangs below a node -/

theorem mem_children_ascribed {nodes : Array Node} {target ascription parent child : Nat}
    (listed : child ∈ (kindAt (nodes.modify target (ascribed ascription)) parent).children) :
    child ∈ (kindAt nodes parent).children ∨ child = ascription := by
  by_cases same : parent = target
  · subst same
    cases kindEq : kindAt nodes parent with
    | identifier name old =>
        rw [kindAt_modify_ascribed ascription kindEq] at listed
        exact .inr (List.mem_singleton.mp listed)
    | _ =>
        rw [modify_ascribed_of_not_identifier ascription (by rw [kindEq]; rfl), kindEq] at listed
        exact .inl listed
  · rw [kindAt_modify_of_ne _ same] at listed
    exact .inl listed

theorem mem_owned_ascribed {nodes : Array Node} {target ascription id : Nat}
    (isOwned : id ∈ owned (nodes.modify target (ascribed ascription))) : id ∈ owned nodes ∨ id = ascription := by
  obtain ⟨parent, listed⟩ := mem_owned_iff.mp isOwned
  rcases mem_children_ascribed listed with listed | same
  · exact .inl (mem_owned_iff.mpr ⟨parent, listed⟩)
  · exact .inr same

def Below (nodes : Array Node) : Nat → Nat → Prop :=
  Relation.ReflTransGen fun parent child => child ∈ (kindAt nodes parent).children

namespace Below

variable {nodes before after : Array Node} {outer inner : Nat}

/-- Where the kinds stay, nothing new hangs below a node. -/
theorem of_kept (kinds : ∀ id, Below before outer id → kindAt after id = kindAt before id)
    (below : Below after outer inner) : Below before outer inner := by
  induction below with
  | refl => exact .refl
  | tail _ listed ih =>
      rw [kinds _ ih] at listed
      exact ih.tail listed

theorem eq_of_childless (below : Below nodes outer inner) (childless : (kindAt nodes outer).children = []) :
    inner = outer := by
  rcases below.cases_head with same | ⟨child, listed, -⟩
  · exact same.symm
  · rw [childless] at listed
    cases listed

theorem eq_or_mem_owned (below : Below nodes outer inner) : inner = outer ∨ inner ∈ owned nodes := by
  rcases below.cases_tail with same | ⟨parent, -, listed⟩
  · exact .inl same
  · exact .inr (mem_owned_iff.mpr ⟨parent, listed⟩)

/-- An ascription hangs below what it is given to. -/
theorem of_ascribed {target ascription : Nat}
    (below : Below (nodes.modify target (ascribed ascription)) outer inner) :
    Below nodes outer inner ∨ Below nodes ascription inner := by
  induction below with
  | refl => exact .inl .refl
  | tail _ listed ih =>
      rcases mem_children_ascribed listed with listed | rfl
      · rcases ih with below | below
        · exact .inl (below.tail listed)
        · exact .inr (below.tail listed)
      · exact .inr .refl

end Below

/-! ## Nodes that sit well -/

/-- A node starts at or behind an offset; or it is a function all of whose children do. -/
def StandsBehind (nodes : Array Node) (low id : Nat) : Prop :=
  low ≤ (spanAt nodes id).start ∨
    (kindAt nodes id).isFunctionLike = true ∧
      ∀ child ∈ (kindAt nodes id).children, child < nodes.size ∧ low ≤ (spanAt nodes child).start

structure Sits (edge : Nat → Prop) (nodes : Array Node) (node : Node) : Prop where
  start_le : node.span.start ≤ node.span.stop
  nonempty : (∀ body, node.kind ≠ .program body) → node.span.start < node.span.stop
  edge_start : edge node.span.start
  edge_stop : edge node.span.stop
  child_lt : ∀ child ∈ node.kind.children, child < nodes.size
  inside : node.kind.isIdentifier = false → ∀ child ∈ node.kind.children,
    node.span.start ≤ (spanAt nodes child).start ∧ (spanAt nodes child).stop ≤ node.span.stop
  behind : node.kind.isIdentifier = true → ∀ child ∈ node.kind.children,
    node.span.stop ≤ (spanAt nodes child).start
  ahead : node.kind.isReturn = true → ∀ child ∈ node.kind.children,
    node.span.start < (spanAt nodes child).start
  ordered : node.kind.children.Pairwise fun left right =>
    StandsBehind nodes (spanAt nodes left).stop right
  follows : node.kind.children.Pairwise fun left right =>
    ∀ inner, Below nodes left inner → (spanAt nodes inner).start ≤ (spanAt nodes right).start

theorem Sits.start_lt_child {nodes : Array Node} {node : Node} (sits : Sits edge nodes node)
    (isAhead : node.kind.isAhead = true) {child : Nat} (listed : child ∈ node.kind.children) :
    node.span.start < (spanAt nodes child).start := by
  rcases Bool.or_eq_true_iff.mp isAhead with named | returns
  · have nonempty := sits.nonempty (NodeKind.other_of_isAhead isAhead).2.2
    exact Nat.lt_of_lt_of_le nonempty (sits.behind named child listed)
  · exact sits.ahead returns child listed

/-- A table in which every node sits well. -/
def Settled (edge : Nat → Prop) (nodes : Array Node) : Prop :=
  ∀ (id : Nat) (node : Node), nodes[id]? = some node → Sits edge nodes node

namespace Settled

variable {nodes : Array Node} (settled : Settled edge nodes)

include settled

theorem start_le (id : Nat) : (spanAt nodes id).start ≤ (spanAt nodes id).stop := by
  rw [spanAt]
  cases found : nodes[id]? with
  | none => exact Nat.le_refl _
  | some node => exact (settled id node found).start_le

theorem child_lt {id child : Nat} (listed : child ∈ (kindAt nodes id).children) : child < nodes.size := by
  rw [kindAt] at listed
  cases found : nodes[id]? with
  | none => simp [found, NodeKind.children] at listed
  | some node =>
      rw [found] at listed
      exact (settled id node found).child_lt child listed

theorem below_lt {outer inner : Nat} (outer_lt : outer < nodes.size) (below : Below nodes outer inner) :
    inner < nodes.size := by
  rcases below.cases_tail with rfl | ⟨parent, -, listed⟩
  · exact outer_lt
  · exact settled.child_lt listed

/-- What hangs below nodes that there are does not change when another one is added. -/
theorem below_of_push {node : Node} {outer inner : Nat} (outer_lt : outer < nodes.size)
    (below : Below (nodes.push node) outer inner) : Below nodes outer inner :=
  below.of_kept fun _ inside => kindAt_push_of_lt node (settled.below_lt outer_lt inside)

theorem below_push_size {node : Node} (children_lt : ∀ child ∈ node.kind.children, child < nodes.size) {inner : Nat}
    (below : Below (nodes.push node) nodes.size inner) :
    inner = nodes.size ∨ ∃ child ∈ node.kind.children, Below nodes child inner := by
  rcases below.cases_head with same | ⟨child, listed, below⟩
  · exact .inl same.symm
  · rw [kindAt_push_size] at listed
    exact .inr ⟨child, listed, settled.below_of_push (children_lt child listed) below⟩

end Settled

theorem StandsBehind.kept {before after : Array Node} (keeps : Keeps before after) {low id : Nat}
    (inside : id < before.size) (stands : StandsBehind before low id) : StandsBehind after low id := by
  rcases stands with starts | ⟨called, children⟩
  · left
    rwa [keeps.span_eq id inside]
  · right
    rw [keeps.kind_eq inside (NodeKind.not_isIdentifier_of_isFunctionLike called)]
    refine ⟨called, ?_⟩
    intro child listed
    obtain ⟨child_lt, starts⟩ := children child listed
    rw [keeps.span_eq child child_lt]
    exact ⟨Nat.lt_of_lt_of_le child_lt keeps.size_le, starts⟩

theorem Sits.kept {before after : Array Node} (keeps : Keeps before after) (settled : Settled edge before) {node : Node}
    (kinds : ∀ child ∈ node.kind.children, ∀ id, Below before child id → kindAt after id = kindAt before id)
    (sits : Sits edge before node) : Sits edge after node := by
  refine ⟨sits.start_le, sits.nonempty, sits.edge_start, sits.edge_stop, ?_, ?_, ?_, ?_, ?_, ?_⟩
  · intro child listed
    exact Nat.lt_of_lt_of_le (sits.child_lt child listed) keeps.size_le
  · intro unnamed child listed
    rw [keeps.span_eq child (sits.child_lt child listed)]
    exact sits.inside unnamed child listed
  · intro named child listed
    rw [keeps.span_eq child (sits.child_lt child listed)]
    exact sits.behind named child listed
  · intro returns child listed
    rw [keeps.span_eq child (sits.child_lt child listed)]
    exact sits.ahead returns child listed
  · refine sits.ordered.imp_of_mem ?_
    intro left right leftListed rightListed stands
    rw [keeps.span_eq left (sits.child_lt left leftListed)]
    exact stands.kept keeps (sits.child_lt right rightListed)
  · refine sits.follows.imp_of_mem ?_
    intro left right leftListed rightListed starts inner below
    have below := below.of_kept (kinds left leftListed)
    rw [keeps.span_eq right (sits.child_lt right rightListed),
      keeps.span_eq inner (settled.below_lt (sits.child_lt left leftListed) below)]
    exact starts inner below

/-- A node over a key and a function that starts with the key and holds only what stands behind it. -/
theorem Sits.around {nodes : Array Node} {kind outer : NodeKind} {span : Span} {key : Nat}
    (inner : Sits edge nodes ⟨kind, span⟩) (nonempty : span.start < span.stop)
    (called : kind.isFunctionLike = true) (key_lt : key < nodes.size)
    (childless : (kindAt nodes key).children = [])
    (starts : (spanAt nodes key).start = span.start) (stop_le : (spanAt nodes key).stop ≤ span.stop)
    (behind : ∀ child ∈ kind.children, (spanAt nodes key).stop ≤ (spanAt nodes child).start)
    (lists : outer.children = [key, nodes.size]) (outer_unnamed : outer.isIdentifier = false) :
    Sits edge (nodes.push ⟨kind, span⟩) ⟨outer, span⟩ := by
  have keeps := Keeps.push nodes ⟨kind, span⟩
  have inner_span := spanAt_push_size nodes ⟨kind, span⟩
  have key_span := keeps.span_eq key key_lt
  refine ⟨inner.start_le, fun _ => nonempty, inner.edge_start, inner.edge_stop, ?_, ?_, ?_, ?_, ?_, ?_⟩
  · intro child listed
    rw [Array.size_push]
    rcases List.mem_pair.mp (lists ▸ listed) with rfl | rfl
    · omega
    · omega
  · intro _ child listed
    rcases List.mem_pair.mp (lists ▸ listed) with rfl | rfl
    · rw [key_span]
      exact ⟨Nat.le_of_eq starts.symm, stop_le⟩
    · rw [inner_span]
      exact ⟨Nat.le_refl _, Nat.le_refl _⟩
  · intro named
    simp [outer_unnamed] at named
  · intro returns
    rw [NodeKind.not_isReturn_of_pair lists] at returns
    cases returns
  · simp only [lists, List.pairwise_pair]
    right
    rw [kindAt_push_size, key_span]
    refine ⟨called, ?_⟩
    intro child listed
    have child_lt := inner.child_lt child listed
    rw [keeps.span_eq child child_lt]
    exact ⟨Nat.lt_of_lt_of_le child_lt keeps.size_le, behind child listed⟩
  · simp only [lists, List.pairwise_pair]
    intro other below
    rw [below.eq_of_childless (by rw [kindAt_push_of_lt _ key_lt, childless]), inner_span, key_span]
    exact Nat.le_of_eq starts

theorem Settled.push {nodes : Array Node} (settled : Settled edge nodes) {node : Node}
    (sits : Sits edge nodes node) : Settled edge (nodes.push node) := by
  have kept : ∀ other, Sits edge nodes other → Sits edge (nodes.push node) other := by
    intro other sits
    refine sits.kept (.push nodes node) settled ?_
    intro child listed id below
    exact kindAt_push_of_lt node (settled.below_lt (sits.child_lt child listed) below)
  intro id other found
  rw [Array.getElem?_push] at found
  split at found
  · cases Option.some.inj found
    exact kept node sits
  · exact kept other (settled id other found)

theorem Settled.ascribe {nodes : Array Node} (settled : Settled edge nodes) {target ascription : Nat}
    (unowned : target ∉ owned nodes) (ascription_lt : ascription < nodes.size)
    (apart : (spanAt nodes target).stop ≤ (spanAt nodes ascription).start) :
    Settled edge (nodes.modify target (ascribed ascription)) := by
  have keeps := Keeps.ascribe nodes target ascription
  -- The target hangs below no node, so nothing that does changes its kind.
  have kept : ∀ (id : Nat) (other : Node), nodes[id]? = some other →
      Sits edge (nodes.modify target (ascribed ascription)) other := by
    intro id other stored
    refine (settled id other stored).kept keeps settled ?_
    intro child listed inner below
    have kindEq : kindAt nodes id = other.kind := by rw [kindAt, stored]
    have childOwned : child ∈ owned nodes := mem_owned_iff.mpr ⟨id, kindEq ▸ listed⟩
    have isOwned : inner ∈ owned nodes := by
      rcases below.eq_or_mem_owned with rfl | isOwned
      · exact childOwned
      · exact isOwned
    refine kindAt_modify_of_ne _ ?_
    rintro rfl
    exact unowned isOwned
  intro id other found
  rw [Array.getElem?_modify] at found
  split at found
  case isFalse => exact kept id other found
  case isTrue same =>
      subst same
      obtain ⟨node, stored, rfl⟩ := Option.map_eq_some_iff.mp found
      have sits := settled target node stored
      have span_eq : spanAt nodes target = node.span := by rw [spanAt, stored]
      rcases node with ⟨kind, span⟩
      cases kind with
      | identifier name old =>
          -- The identifier lists the ascription alone, which stands behind it.
          have nonempty := sits.nonempty (by simp)
          refine ⟨sits.start_le, fun _ => nonempty, sits.edge_start, sits.edge_stop, ?_, ?_, ?_, ?_, ?_, ?_⟩
          · intro child listed
            cases List.mem_singleton.mp listed
            exact Nat.lt_of_lt_of_le ascription_lt keeps.size_le
          · intro unnamed
            simp [ascribed, NodeKind.isIdentifier] at unnamed
          · intro _ child listed
            cases List.mem_singleton.mp listed
            rw [keeps.span_eq ascription ascription_lt]
            exact span_eq ▸ apart
          · intro returns
            cases returns
          · exact List.pairwise_singleton _ _
          · exact List.pairwise_singleton _ _
      | _ => exact kept target _ stored

/-! ## Nodes that are left alone -/

/-- What ends at or before an offset stays as it is, and gets no parent. -/
structure Spares (low : Nat) (before after : Array Node) : Prop where
  kind_eq : ∀ id < before.size, (spanAt before id).stop ≤ low → kindAt after id = kindAt before id
  unowned : ∀ id < before.size, (spanAt before id).stop ≤ low → id ∉ owned before → id ∉ owned after

namespace Spares

variable {low : Nat} {nodes first second third : Array Node}

theorem refl (low : Nat) (nodes : Array Node) : Spares low nodes nodes :=
  ⟨fun _ _ _ => rfl, fun _ _ _ unowned => unowned⟩

theorem trans (keeps : Keeps first second) (left : Spares low first second) (right : Spares low second third) :
    Spares low first third := by
  have later : ∀ id < first.size, (spanAt first id).stop ≤ low →
      id < second.size ∧ (spanAt second id).stop ≤ low := by
    intro id inside ends
    rw [keeps.span_eq id inside]
    exact ⟨Nat.lt_of_lt_of_le inside keeps.size_le, ends⟩
  constructor
  · intro id inside ends
    obtain ⟨inside', ends'⟩ := later id inside ends
    rw [right.kind_eq id inside' ends', left.kind_eq id inside ends]
  · intro id inside ends unowned
    obtain ⟨inside', ends'⟩ := later id inside ends
    exact right.unowned id inside' ends' (left.unowned id inside ends unowned)

theorem lower {bound : Nat} (le : bound ≤ low) (spares : Spares low first second) : Spares bound first second :=
  ⟨fun id inside ends => spares.kind_eq id inside (Nat.le_trans ends le),
    fun id inside ends => spares.unowned id inside (Nat.le_trans ends le)⟩

/-- A new node leaves alone what is not among its children. -/
theorem push {node : Node} (behind : ∀ child ∈ node.kind.children, low < (spanAt nodes child).stop) :
    Spares low nodes (nodes.push node) := by
  constructor
  · intro id inside _
    exact kindAt_push_of_lt node inside
  · intro id _ ends unowned
    rw [owned_push, List.mem_append]
    rintro (isOwned | listed)
    · exact unowned isOwned
    · exact Nat.lt_irrefl _ (Nat.lt_of_lt_of_le (behind id listed) ends)

theorem ascribe {target ascription : Nat} (targetBehind : low < (spanAt nodes target).stop)
    (ascriptionBehind : low < (spanAt nodes ascription).stop) :
    Spares low nodes (nodes.modify target (ascribed ascription)) := by
  constructor
  · intro id _ ends
    refine kindAt_modify_of_ne _ ?_
    rintro rfl
    exact Nat.lt_irrefl _ (Nat.lt_of_lt_of_le targetBehind ends)
  · intro id _ ends unowned isOwned
    rcases mem_owned_ascribed isOwned with isOwned | rfl
    · exact unowned isOwned
    · exact Nat.lt_irrefl _ (Nat.lt_of_lt_of_le ascriptionBehind ends)

end Spares

end Heed
