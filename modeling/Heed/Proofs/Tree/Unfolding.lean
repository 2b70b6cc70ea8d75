import Heed.Proofs.Tree.Forest

/-!
# Trees apart from the numbers of their nodes

Unfolding a node gives its kind and the unfoldings of its children, without any numbers. A table of nodes
that is put behind others is renumbered: every number in it grows by as many nodes as stand in front. Its
nodes unfold to what they did before.
-/

set_option autoImplicit false

namespace Heed

/-! ## Other numbers -/

namespace NodeKind

def renumber (change : Nat → Nat) : NodeKind → NodeKind
  | .program body => .program (body.map change)
  | .block body => .block (body.map change)
  | .expressionStatement expression => .expressionStatement (change expression)
  | .emptyStatement => .emptyStatement
  | .variableDeclaration word declarators ambient =>
      .variableDeclaration word (declarators.map change) ambient
  | .declarator target init => .declarator (change target) (init.map change)
  | .functionDeclaration name params returnType body isAsync =>
      .functionDeclaration (change name) (params.map change) (returnType.map change) (body.map change) isAsync
  | .classDeclaration name typeParams heritage body ambient =>
      .classDeclaration (change name) typeParams heritage (body.map change) ambient
  | .methodDefinition key params returnType body isAsync isStatic =>
      .methodDefinition (change key) (params.map change) (returnType.map change) (body.map change)
        isAsync isStatic
  | .propertyDefinition key ascription value isStatic =>
      .propertyDefinition (change key) (ascription.map change) (value.map change) isStatic
  | .returnStatement argument => .returnStatement (argument.map change)
  | .ifStatement test consequent alternate =>
      .ifStatement (change test) (change consequent) (alternate.map change)
  | .whileStatement test body => .whileStatement (change test) (change body)
  | .doWhileStatement body test => .doWhileStatement (change body) (change test)
  | .forStatement init test next body =>
      .forStatement (init.map change) (test.map change) (next.map change) (change body)
  | .forOfStatement left right body => .forOfStatement (change left) (change right) (change body)
  | .forInStatement left right body => .forInStatement (change left) (change right) (change body)
  | .switchStatement discriminant cases => .switchStatement (change discriminant) (cases.map change)
  | .switchCase test consequent => .switchCase (test.map change) (consequent.map change)
  | .labeledStatement label body => .labeledStatement label (change body)
  | .breakStatement label => .breakStatement label
  | .continueStatement label => .continueStatement label
  | .tryStatement body handler finalizer =>
      .tryStatement (change body) (handler.map change) (finalizer.map change)
  | .catchClause param body => .catchClause (param.map change) (change body)
  | .throwStatement argument => .throwStatement (change argument)
  | .typeAlias name typeParams ascription => .typeAlias (change name) typeParams (change ascription)
  | .interfaceDeclaration name typeParams bases members =>
      .interfaceDeclaration (change name) typeParams bases members
  | .identifier name ascription => .identifier name (ascription.map change)
  | .literal value => .literal value
  | .this => .this
  | .call callee arguments => .call (change callee) (arguments.map change)
  | .new callee arguments => .new (change callee) (arguments.map change)
  | .await argument => .await (change argument)
  | .member base key computed optional => .member (change base) (change key) computed optional
  | .arrowFunction params returnType body isAsync =>
      .arrowFunction (params.map change) (returnType.map change) (change body) isAsync
  | .functionExpression name params returnType body isAsync =>
      .functionExpression (name.map change) (params.map change) (returnType.map change) (change body) isAsync
  | .assignment operator left right => .assignment operator (change left) (change right)
  | .binary operator left right => .binary operator (change left) (change right)
  | .logical operator left right => .logical operator (change left) (change right)
  | .unary operator argument => .unary operator (change argument)
  | .update argument increment signFirst => .update (change argument) increment signFirst
  | .conditional test consequent alternate =>
      .conditional (change test) (change consequent) (change alternate)
  | .object properties => .object (properties.map change)
  | .property key value shorthand => .property (change key) (change value) shorthand
  | .array elements => .array (elements.map change)
  | .spread argument => .spread (change argument)
  | .rest argument => .rest (change argument)
  | .objectPattern properties => .objectPattern (properties.map change)
  | .arrayPattern elements => .arrayPattern (elements.map change)
  | .asExpression expression ascription => .asExpression (change expression) (change ascription)
  | .satisfiesExpression expression ascription => .satisfiesExpression (change expression) (change ascription)
  | .nonNull expression => .nonNull (change expression)
  | .typeAscription type => .typeAscription type

theorem children_renumber (change : Nat → Nat) (kind : NodeKind) :
    (kind.renumber change).children = kind.children.map change := by
  cases kind with
  | property key value shorthand => cases shorthand <;> rfl
  | _ => simp [renumber, children, Option.toList_map]

theorem renumber_renumber (first second : Nat → Nat) (kind : NodeKind) :
    (kind.renumber first).renumber second = kind.renumber (second ∘ first) := by
  cases kind <;> simp [renumber]

/-- A kind without the numbers of the nodes that it refers to. -/
def label (kind : NodeKind) : NodeKind := kind.renumber fun _ => 0

theorem label_renumber (change : Nat → Nat) (kind : NodeKind) : (kind.renumber change).label = kind.label :=
  renumber_renumber change _ kind

end NodeKind

/-! ## Unfolding -/

/-- A tree without numbers. -/
inductive Unfolding where
  | node (kind : NodeKind) (children : List Unfolding)

/-- What the nodes of a table unfold to. A child that is numbered after its parent is an ascription and has
no children of its own. -/
def unfoldAt (kindOf : Nat → NodeKind) (node : Nat) : Unfolding :=
  .node (kindOf node).label ((kindOf node).children.map fun child =>
    if child < node then unfoldAt kindOf child else .node (kindOf child).label [])
termination_by node

def Tree.unfold (tree : Tree) (node : Nat) : Unfolding := unfoldAt tree.kind node

/-- A part of a table that refers to nothing outside unfolds the same wherever it stands. -/
theorem unfoldAt_add {kindOf kindOf' : Nat → NodeKind} {size offset : Nat}
    (closed : ∀ id < size, ∀ child ∈ (kindOf id).children, child < size)
    (moved : ∀ id < size, kindOf' (id + offset) = (kindOf id).renumber (· + offset)) {id : Nat}
    (inside : id < size) : unfoldAt kindOf' (id + offset) = unfoldAt kindOf id := by
  induction id using Nat.strongRecOn with
  | ind id ih =>
      rw [unfoldAt, unfoldAt, moved id inside, NodeKind.label_renumber, NodeKind.children_renumber, List.map_map]
      refine congrArg (Unfolding.node _) (List.map_congr_left fun child listed => ?_)
      have childInside := closed id inside child listed
      simp only [Function.comp_apply, Nat.add_lt_add_iff_right]
      split
      case isTrue below => exact ih child below childInside
      case isFalse => rw [moved child childInside, NodeKind.label_renumber]

/-! ## A table behind another one -/

def shifted (front : Array Node) (id : Nat) : Nat := id + front.size

def Node.renumber (change : Nat → Nat) (node : Node) : Node := { node with kind := node.kind.renumber change }

/-- A table of nodes put behind another one. -/
def placedBehind (front nodes : Array Node) : Array Node := front ++ nodes.map (Node.renumber (shifted front))

section

variable (front nodes : Array Node)

theorem size_placedBehind : (placedBehind front nodes).size = shifted front nodes.size := by
  rw [placedBehind, Array.size_append, Array.size_map, shifted, Nat.add_comm]

theorem placedBehind_empty : placedBehind front #[] = front := by
  rw [placedBehind, Array.map_empty, Array.append_empty]

theorem placedBehind_push (node : Node) : placedBehind front (nodes.push node) =
    (placedBehind front nodes).push (node.renumber (shifted front)) := by
  rw [placedBehind, placedBehind, Array.map_push, Array.append_push]

theorem getElem?_placedBehind (id : Nat) :
    (placedBehind front nodes)[shifted front id]? = nodes[id]?.map (Node.renumber (shifted front)) := by
  rw [placedBehind, shifted, Array.getElem?_append_right (Nat.le_add_left _ _), Nat.add_sub_cancel,
    Array.getElem?_map]

theorem getElem?_placedBehind_of_lt {id : Nat} (inside : id < front.size) :
    (placedBehind front nodes)[id]? = front[id]? := by
  rw [placedBehind, Array.getElem?_append_left inside]

theorem take_placedBehind (count : Nat) : (placedBehind front nodes).take (shifted front count) =
    placedBehind front (nodes.take count) := by
  have whole : front.extract 0 (count + front.size) = front := Array.extract_eq_self_of_le (Nat.le_add_left _ _)
  rw [placedBehind, placedBehind, shifted, Array.take_eq_extract, Array.take_eq_extract, Array.extract_append, whole,
    Nat.zero_sub, Nat.add_sub_cancel, Array.map_extract]

theorem kindAt_placedBehind {id : Nat} (inside : id < nodes.size) :
    kindAt (placedBehind front nodes) (shifted front id) = (kindAt nodes id).renumber (shifted front) := by
  rw [kindAt, kindAt, getElem?_placedBehind, Array.getElem?_eq_getElem inside]
  rfl

theorem ascribed_renumber (change : Nat → Nat) (ascription : Nat) (node : Node) :
    ascribed (change ascription) (node.renumber change) = (ascribed ascription node).renumber change := by
  obtain ⟨kind, span⟩ := node
  cases kind <;> rfl

theorem placedBehind_ascribed (target ascription : Nat) :
    (placedBehind front nodes).modify (shifted front target) (ascribed (shifted front ascription)) =
      placedBehind front (nodes.modify target (ascribed ascription)) := by
  apply Array.ext_getElem?
  intro id
  rw [Array.getElem?_modify]
  rcases Nat.lt_or_ge id front.size with inFront | behind
  · have other : shifted front target ≠ id := by
      rw [shifted]
      omega
    rw [if_neg other, getElem?_placedBehind_of_lt _ _ inFront, getElem?_placedBehind_of_lt _ _ inFront]
  · obtain ⟨own, rfl⟩ : ∃ own, shifted front own = id := ⟨id - front.size, Nat.sub_add_cancel behind⟩
    have sameTarget : shifted front target = shifted front own ↔ target = own := Nat.add_right_cancel_iff
    rw [getElem?_placedBehind, getElem?_placedBehind, Array.getElem?_modify]
    simp only [sameTarget]
    split
    · simp only [Option.map_map]
      exact congrArg (Option.map · nodes[own]?) (funext fun node => ascribed_renumber _ ascription node)
    · rfl

end

end Heed
