import Heed.Tree.Basic
import Mathlib.Data.List.Nodup
import Mathlib.Data.List.Perm.Basic

/-!
# Tables of nodes as forests

While a table of nodes is being built, some of its nodes have no parent yet: the roots. In a forest every
node is listed once, by its parent or among the roots. The one exception is the ascription of a pattern,
which hangs nowhere.

A slot is a place for a node together with the role of the node in it. Roles tell binding positions from
the others: patterns and rest elements stand in binding positions only, declarators in declarations, and
properties in objects and patterns.
-/

set_option autoImplicit false

namespace Heed

namespace NodeKind

def isAscription : NodeKind → Bool
  | .typeAscription _ => true
  | _ => false

def isRest : NodeKind → Bool
  | .rest _ => true
  | _ => false

def isBinding : NodeKind → Bool
  | .identifier .. | .objectPattern _ | .arrayPattern _ => true
  | _ => false

def isPattern : NodeKind → Bool
  | .objectPattern _ | .arrayPattern _ => true
  | _ => false

def isDeclarator : NodeKind → Bool
  | .declarator .. => true
  | _ => false

/-- Statements and expressions, and the parts of them that are no bindings. -/
def isPlain : NodeKind → Bool
  | .objectPattern _ | .arrayPattern _ | .rest _ | .typeAscription _ | .property .. | .declarator .. => false
  | _ => true

def bare : NodeKind → NodeKind
  | .identifier name _ => .identifier name none
  | kind => kind

theorem isPlain_bare (kind : NodeKind) : kind.bare.isPlain = kind.isPlain := by cases kind <;> rfl

theorem isBinding_bare (kind : NodeKind) : kind.bare.isBinding = kind.isBinding := by
  cases kind <;> rfl

theorem isPattern_bare (kind : NodeKind) : kind.bare.isPattern = kind.isPattern := by
  cases kind <;> rfl

theorem isAscription_bare (kind : NodeKind) : kind.bare.isAscription = kind.isAscription := by
  cases kind <;> rfl

theorem isPattern_of_isBinding {kind : NodeKind} (isBinding : kind.isBinding = true)
    (unnamed : kind.isIdentifier = false) : kind.isPattern = true := by
  cases kind <;> first | rfl | simp [NodeKind.isBinding, isIdentifier] at isBinding unnamed

theorem isBinding_of_isIdentifier {kind : NodeKind} (named : kind.isIdentifier = true) :
    kind.isBinding = true := by
  cases kind <;> first | rfl | simp [isIdentifier] at named

theorem isPlain_of_isIdentifier {kind : NodeKind} (named : kind.isIdentifier = true) :
    kind.isPlain = true := by
  cases kind <;> first | rfl | simp [isIdentifier] at named

end NodeKind

inductive Role where
  | any
  | plain
  | declarator
  /-- A property of an object, or an expression that is spread into it. -/
  | member
  | name
  | binding
  /-- A binding or a rest element. -/
  | parameter
  /-- A property of an object pattern, or a rest element. -/
  | bindingProperty
  | ascription
deriving DecidableEq, Repr

/-- Whether a role accepts a node of some kind. A property is judged by its value. -/
def Role.accepts (kindOf : Nat → NodeKind) : Role → NodeKind → Bool
  | .any, _ => true
  | .plain, kind => kind.isPlain
  | .declarator, kind => kind.isDeclarator
  | .member, .property _ value _ => (kindOf value).isPlain
  | .member, kind => kind.isPlain
  | .name, kind => kind.isIdentifier
  | .binding, kind => kind.isBinding
  | .parameter, kind => kind.isBinding || kind.isRest
  | .bindingProperty, .property _ value _ => (kindOf value).isBinding
  | .bindingProperty, kind => kind.isRest
  | .ascription, kind => kind.isAscription

theorem Role.parameter_of_binding (kindOf : Nat → NodeKind) (kind : NodeKind)
    (accepted : Role.binding.accepts kindOf kind = true) :
    Role.parameter.accepts kindOf kind = true := by
  have isBinding : kind.isBinding = true := accepted
  change (kind.isBinding || kind.isRest) = true
  rw [isBinding, Bool.true_or]

theorem Role.member_of_plain (kindOf : Nat → NodeKind) (kind : NodeKind)
    (accepted : Role.plain.accepts kindOf kind = true) : Role.member.accepts kindOf kind = true := by
  have isPlain : kind.isPlain = true := accepted
  cases kind with
  | property key value shorthand => simp [NodeKind.isPlain] at isPlain
  | _ => exact isPlain

/-- Roles do not look at the ascriptions of identifiers. -/
theorem Role.accepts_bare {kindOf other : Nat → NodeKind} (role : Role) (kind : NodeKind)
    (values : ∀ value ∈ kind.children, (other value).bare = (kindOf value).bare) :
    role.accepts other kind.bare = role.accepts kindOf kind := by
  have isPlain_eq : ∀ value ∈ kind.children, (other value).isPlain = (kindOf value).isPlain :=
    fun value listed => by
      rw [← NodeKind.isPlain_bare, values value listed, NodeKind.isPlain_bare]
  have isBinding_eq : ∀ value ∈ kind.children, (other value).isBinding = (kindOf value).isBinding :=
    fun value listed => by
      rw [← NodeKind.isBinding_bare, values value listed, NodeKind.isBinding_bare]
  cases kind with
  | property key value shorthand =>
      have listed : value ∈ (NodeKind.property key value shorthand).children := by
        cases shorthand <;> simp [NodeKind.children]
      cases role with
      | member => exact isPlain_eq value listed
      | bindingProperty => exact isBinding_eq value listed
      | _ => rfl
  | _ => cases role <;> rfl

structure Slot where
  node : Nat
  role : Role
deriving DecidableEq, Repr

namespace Slot

def row (role : Role) (nodes : List Nat) : List Slot := nodes.flatMap fun node => [⟨node, role⟩]

@[simp] theorem row_nil (role : Role) : row role [] = [] := rfl

@[simp] theorem row_cons (role : Role) (node : Nat) (rest : List Nat) :
    row role (node :: rest) = ⟨node, role⟩ :: row role rest := rfl

@[simp] theorem map_node_row (role : Role) (nodes : List Nat) : (row role nodes).map node = nodes := by
  induction nodes with
  | nil => rfl
  | cons node rest ih => rw [row_cons, List.map_cons, ih]

end Slot

namespace NodeKind

open Slot (row)

/-- The places for the nodes directly below a node. -/
def slots : NodeKind → List Slot
  | .program body => row .plain body
  | .block body => row .plain body
  | .expressionStatement expression => [⟨expression, .plain⟩]
  | .emptyStatement => []
  | .variableDeclaration _ declarators _ => row .declarator declarators
  | .declarator target init => ⟨target, .binding⟩ :: row .plain init.toList
  | .functionDeclaration name params returnType body _ =>
      ⟨name, .name⟩ :: (row .parameter params ++ row .ascription returnType.toList ++
        row .plain body.toList)
  | .classDeclaration name _ _ body _ => ⟨name, .name⟩ :: row .plain body
  | .methodDefinition key params returnType body _ _ =>
      ⟨key, .name⟩ :: (row .parameter params ++ row .ascription returnType.toList ++
        row .plain body.toList)
  | .propertyDefinition key ascription value _ =>
      ⟨key, .name⟩ :: (row .ascription ascription.toList ++ row .plain value.toList)
  | .returnStatement argument => row .plain argument.toList
  | .ifStatement test consequent alternate =>
      ⟨test, .plain⟩ :: ⟨consequent, .plain⟩ :: row .plain alternate.toList
  | .whileStatement test body => [⟨test, .plain⟩, ⟨body, .plain⟩]
  | .doWhileStatement body test => [⟨body, .plain⟩, ⟨test, .plain⟩]
  | .forStatement init test next body =>
      row .plain init.toList ++ row .plain test.toList ++ row .plain next.toList ++ [⟨body, .plain⟩]
  | .forOfStatement left right body => [⟨left, .plain⟩, ⟨right, .plain⟩, ⟨body, .plain⟩]
  | .forInStatement left right body => [⟨left, .plain⟩, ⟨right, .plain⟩, ⟨body, .plain⟩]
  | .switchStatement discriminant cases => ⟨discriminant, .plain⟩ :: row .plain cases
  | .switchCase test consequent => row .plain test.toList ++ row .plain consequent
  | .labeledStatement _ body => [⟨body, .plain⟩]
  | .breakStatement _ => []
  | .continueStatement _ => []
  | .tryStatement body handler finalizer =>
      ⟨body, .plain⟩ :: (row .plain handler.toList ++ row .plain finalizer.toList)
  | .catchClause param body => row .binding param.toList ++ [⟨body, .plain⟩]
  | .throwStatement argument => [⟨argument, .plain⟩]
  | .typeAlias name _ ascription => [⟨name, .name⟩, ⟨ascription, .ascription⟩]
  | .interfaceDeclaration name _ _ _ => [⟨name, .name⟩]
  | .identifier _ ascription => row .ascription ascription.toList
  | .literal _ => []
  | .this => []
  | .call callee arguments => ⟨callee, .plain⟩ :: row .plain arguments
  | .new callee arguments => ⟨callee, .plain⟩ :: row .plain arguments
  | .await argument => [⟨argument, .plain⟩]
  | .member base key computed _ => [⟨base, .plain⟩, ⟨key, if computed then .plain else .name⟩]
  | .arrowFunction params returnType body _ =>
      row .parameter params ++ row .ascription returnType.toList ++ [⟨body, .plain⟩]
  | .functionExpression name params returnType body _ =>
      row .name name.toList ++ row .parameter params ++ row .ascription returnType.toList ++
        [⟨body, .plain⟩]
  | .assignment _ left right => [⟨left, .plain⟩, ⟨right, .plain⟩]
  | .binary _ left right => [⟨left, .plain⟩, ⟨right, .plain⟩]
  | .logical _ left right => [⟨left, .plain⟩, ⟨right, .plain⟩]
  | .unary _ argument => [⟨argument, .plain⟩]
  | .update argument _ _ => [⟨argument, .plain⟩]
  | .conditional test consequent alternate =>
      [⟨test, .plain⟩, ⟨consequent, .plain⟩, ⟨alternate, .plain⟩]
  | .object properties => row .member properties
  -- The value of a property is plain in an object and a binding in a pattern.
  | .property key value shorthand =>
      if shorthand then [⟨value, .any⟩] else [⟨key, .name⟩, ⟨value, .any⟩]
  | .array elements => row .plain elements
  | .spread argument => [⟨argument, .plain⟩]
  | .rest argument => [⟨argument, .binding⟩]
  | .objectPattern properties => row .bindingProperty properties
  | .arrayPattern elements => row .parameter elements
  | .asExpression expression ascription => [⟨expression, .plain⟩, ⟨ascription, .ascription⟩]
  | .satisfiesExpression expression ascription => [⟨expression, .plain⟩, ⟨ascription, .ascription⟩]
  | .nonNull expression => [⟨expression, .plain⟩]
  | .typeAscription _ => []

theorem map_node_slots (kind : NodeKind) : kind.slots.map Slot.node = kind.children := by
  cases kind <;> simp [slots, children]
  case property key value shorthand => cases shorthand <;> rfl

theorem node_mem_children {kind : NodeKind} {slot : Slot} (listed : slot ∈ kind.slots) :
    slot.node ∈ kind.children := by
  rw [← map_node_slots]
  exact List.mem_map_of_mem listed

end NodeKind

/-- The kind of a node in a table. A number outside the table reads as an empty statement. -/
def kindAt (nodes : Array Node) (id : Nat) : NodeKind :=
  match nodes[id]? with
  | some entry => entry.kind
  | none => .emptyStatement

theorem Tree.kind_eq_kindAt (tree : Tree) (node : Nat) : tree.kind node = kindAt tree.nodes node := rfl

theorem kindAt_of_size_le {nodes : Array Node} {id : Nat} (outside : nodes.size ≤ id) :
    kindAt nodes id = .emptyStatement := by
  rw [kindAt, Array.getElem?_eq_none outside]

theorem kindAt_push_of_lt {nodes : Array Node} {id : Nat} (node : Node) (inside : id < nodes.size) :
    kindAt (nodes.push node) id = kindAt nodes id := by
  rw [kindAt, kindAt, Array.getElem?_push_lt inside, Array.getElem?_eq_getElem inside]

theorem size_lt_push (nodes : Array Node) (node : Node) : nodes.size < (nodes.push node).size :=
  Nat.lt_of_lt_of_eq (Nat.lt_succ_self _) (Array.size_push _).symm

theorem kindAt_push_size (nodes : Array Node) (node : Node) :
    kindAt (nodes.push node) nodes.size = node.kind := by
  rw [kindAt, Array.getElem?_push_size]

/-- The nodes that are listed as children, in the order of their parents. -/
def owned (nodes : Array Node) : List Nat := nodes.toList.flatMap fun node => node.kind.children

theorem mem_owned_iff {nodes : Array Node} {child : Nat} :
    child ∈ owned nodes ↔ ∃ id, child ∈ (kindAt nodes id).children := by
  rw [owned, List.mem_flatMap]
  constructor
  · rintro ⟨node, member, listed⟩
    obtain ⟨id, found⟩ := List.mem_iff_getElem?.mp member
    rw [Array.getElem?_toList] at found
    exact ⟨id, by rw [kindAt, found]; exact listed⟩
  · rintro ⟨id, listed⟩
    rw [kindAt] at listed
    cases found : nodes[id]? with
    | none => simp [found, NodeKind.children] at listed
    | some node =>
        rw [found] at listed
        exact ⟨node, Array.mem_toList_iff.mpr (Array.mem_of_getElem? found), listed⟩

theorem owned_push (nodes : Array Node) (node : Node) :
    owned (nodes.push node) = owned nodes ++ node.kind.children := by
  simp [owned]

def Slot.Admitted (nodes : Array Node) (slot : Slot) : Prop :=
  slot.role.accepts (kindAt nodes) (kindAt nodes slot.node) = true

/-- The ascription of a pattern is numbered right behind the pattern. -/
def AscribesPattern (nodes : Array Node) (id : Nat) : Prop :=
  (kindAt nodes id).isAscription = true ∧ ∃ pattern, pattern + 1 = id ∧ (kindAt nodes pattern).isPattern = true

theorem AscribesPattern.kept {nodes other : Array Node} {id : Nat} (ascribes : AscribesPattern nodes id)
    (inside : id < nodes.size) (same : ∀ id < nodes.size, (kindAt other id).bare = (kindAt nodes id).bare) :
    AscribesPattern other id := by
  obtain ⟨isAscription, pattern, rfl, isPattern⟩ := ascribes
  refine ⟨?_, pattern, rfl, ?_⟩
  · rw [← NodeKind.isAscription_bare, same _ inside, NodeKind.isAscription_bare, isAscription]
  · rw [← NodeKind.isPattern_bare, same _ (Nat.lt_of_succ_lt inside), NodeKind.isPattern_bare, isPattern]

/-- A table in which every node is listed once, by its parent or among the roots, and stands in a place
that admits it. Parents come after their children, except that the ascription of an identifier comes after
the identifier. -/
structure Forest (nodes : Array Node) (roots : List Slot) : Prop where
  once : (owned nodes ++ roots.map Slot.node).Nodup
  inside : ∀ id ∈ owned nodes ++ roots.map Slot.node, id < nodes.size
  covered : ∀ id < nodes.size, id ∉ owned nodes ++ roots.map Slot.node → AscribesPattern nodes id
  rising : ∀ id, ∀ child ∈ (kindAt nodes id).children,
    child < id ∨ (kindAt nodes id).isIdentifier = true
  fits : ∀ id, ∀ slot ∈ (kindAt nodes id).slots, slot.Admitted nodes
  stands : ∀ slot ∈ roots, slot.Admitted nodes

namespace Forest

variable {nodes : Array Node} {roots below ins : List Slot}

theorem empty : Forest #[] [] := by
  have nothing : ∀ id, kindAt #[] id = .emptyStatement := fun id => kindAt_of_size_le (Nat.zero_le id)
  refine ⟨List.nodup_nil, ?_, ?_, ?_, ?_, ?_⟩
  · intro id member; simp [owned] at member
  · intro id inside; simp at inside
  · intro id child listed; simp [nothing, NodeKind.children] at listed
  · intro id slot listed; simp [nothing, NodeKind.slots] at listed
  · intro slot listed; simp at listed

theorem root_lt_size (forest : Forest nodes roots) {slot : Slot} (member : slot ∈ roots) :
    slot.node < nodes.size :=
  forest.inside _ (List.mem_append_right _ (List.mem_map_of_mem member))

theorem child_lt_size (forest : Forest nodes roots) {id child : Nat}
    (listed : child ∈ (kindAt nodes id).children) : child < nodes.size :=
  forest.inside _ (List.mem_append_left _ (mem_owned_iff.mpr ⟨id, listed⟩))

/-- A node stays admitted while other nodes are added and identifiers get ascriptions. -/
theorem admitted_of_bare_eq {other : Array Node} {slot : Slot}
    (same : ∀ id < nodes.size, (kindAt other id).bare = (kindAt nodes id).bare)
    (node_lt : slot.node < nodes.size)
    (children_lt : ∀ child ∈ (kindAt nodes slot.node).children, child < nodes.size)
    (admitted : slot.Admitted nodes) : slot.Admitted other := by
  have values : ∀ value ∈ (kindAt nodes slot.node).children,
      (kindAt other value).bare = (kindAt nodes value).bare :=
    fun value listed => same value (children_lt value listed)
  have unascribed : ∀ kind : NodeKind,
      slot.role.accepts (kindAt other) kind.bare = slot.role.accepts (kindAt other) kind :=
    fun kind => Role.accepts_bare slot.role kind fun _ _ => rfl
  rw [Slot.Admitted, ← unascribed, same slot.node node_lt, Role.accepts_bare slot.role _ values]
  exact admitted

/-- Adding a node above the roots that it lists. -/
theorem push (forest : Forest nodes (below ++ ins)) {node : Node} {role : Role}
    (lists : node.kind.children = ins.map Slot.node)
    (places : ∀ slot ∈ node.kind.slots, slot.Admitted nodes)
    (accepted : role.accepts (kindAt nodes) node.kind = true) :
    Forest (nodes.push node) (below ++ [⟨nodes.size, role⟩]) := by
  have kept : ∀ id < nodes.size, (kindAt (nodes.push node) id).bare = (kindAt nodes id).bare :=
    fun id inside => by rw [kindAt_push_of_lt node inside]
  have listed_lt : ∀ child ∈ node.kind.children, child < nodes.size := by
    intro child listed
    rw [lists] at listed
    refine forest.inside child (List.mem_append_right _ ?_)
    rw [List.map_append]
    exact List.mem_append_right _ listed
  have kind_cases : ∀ id, (id = nodes.size ∧ kindAt (nodes.push node) id = node.kind) ∨
      (id < nodes.size ∧ kindAt (nodes.push node) id = kindAt nodes id) ∨
      kindAt (nodes.push node) id = .emptyStatement := by
    intro id
    rcases Nat.lt_trichotomy id nodes.size with inside | rfl | outside
    · exact .inr (.inl ⟨inside, kindAt_push_of_lt node inside⟩)
    · exact .inl ⟨rfl, kindAt_push_size nodes node⟩
    · exact .inr (.inr (kindAt_of_size_le (by rw [Array.size_push]; omega)))
  -- The listed nodes move from the roots to the children; only the new node is added.
  have rearranged : (owned (nodes.push node) ++ (below ++ [Slot.mk nodes.size role]).map Slot.node).Perm
      (nodes.size :: (owned nodes ++ (below ++ ins).map Slot.node)) := by
    rw [owned_push, lists, List.perm_iff_count]
    intro id
    simp only [List.map_append, List.map_cons, List.map_nil, List.count_append, List.count_cons,
      List.count_nil]
    omega
  have admitted : ∀ slot : Slot, slot.node < nodes.size → slot.Admitted nodes →
      slot.Admitted (nodes.push node) := fun slot inside admitted =>
    admitted_of_bare_eq kept inside (fun child listed => forest.child_lt_size listed) admitted
  refine ⟨?_, ?_, ?_, ?_, ?_, ?_⟩
  · rw [rearranged.nodup_iff, List.nodup_cons]
    exact ⟨fun member => Nat.lt_irrefl _ (forest.inside _ member), forest.once⟩
  · intro id member
    rw [rearranged.mem_iff, List.mem_cons] at member
    rw [Array.size_push]
    rcases member with rfl | member
    · omega
    · exact Nat.lt_succ_of_lt (forest.inside id member)
  · intro id inside unlisted
    rw [rearranged.mem_iff, List.mem_cons, not_or] at unlisted
    have id_lt : id < nodes.size := by
      rw [Array.size_push] at inside
      omega
    exact (forest.covered id id_lt unlisted.2).kept id_lt kept
  · intro id child listed
    rcases kind_cases id with ⟨rfl, kindEq⟩ | ⟨inside, kindEq⟩ | kindEq <;> rw [kindEq] at listed ⊢
    · exact .inl (listed_lt child listed)
    · exact forest.rising id child listed
    · simp [NodeKind.children] at listed
  · intro id slot listed
    rcases kind_cases id with ⟨rfl, kindEq⟩ | ⟨inside, kindEq⟩ | kindEq <;> rw [kindEq] at listed
    · exact admitted slot (listed_lt slot.node (NodeKind.node_mem_children listed)) (places slot listed)
    · exact admitted slot (forest.child_lt_size (NodeKind.node_mem_children listed))
        (forest.fits id slot listed)
    · simp [NodeKind.slots] at listed
  · intro slot member
    rcases List.mem_append.mp member with member | member
    · have member := List.mem_append_left ins member
      exact admitted slot (forest.root_lt_size member) (forest.stands slot member)
    · obtain rfl := List.mem_singleton.mp member
      have values : ∀ value ∈ node.kind.children,
          (kindAt (nodes.push node) value).bare = (kindAt nodes value).bare :=
        fun value listed => kept value (listed_lt value listed)
      have unascribed : role.accepts (kindAt (nodes.push node)) node.kind.bare =
          role.accepts (kindAt (nodes.push node)) node.kind :=
        Role.accepts_bare role node.kind fun _ _ => rfl
      rw [Slot.Admitted, kindAt_push_size, ← unascribed, Role.accepts_bare role _ values]
      exact accepted

/-- Weakening the roles of the roots. -/
theorem relax (forest : Forest nodes roots) {others : List Slot}
    (same : others.map Slot.node = roots.map Slot.node)
    (admitted : ∀ slot ∈ others, slot.Admitted nodes) : Forest nodes others :=
  ⟨same ▸ forest.once, same ▸ forest.inside, same ▸ forest.covered, forest.rising, forest.fits, admitted⟩

/-- The ascription of a pattern may be left hanging. -/
theorem dropAscription {ascription : Nat} (ascribes : AscribesPattern nodes ascription)
    (forest : Forest nodes (below ++ [⟨ascription, .ascription⟩])) : Forest nodes below := by
  have shorter : (owned nodes ++ below.map Slot.node).Sublist
      (owned nodes ++ (below ++ [Slot.mk ascription .ascription]).map Slot.node) := by
    rw [List.map_append]
    exact List.Sublist.append_left (List.sublist_append_left _ _) _
  refine ⟨forest.once.sublist shorter, fun id member => forest.inside id (shorter.subset member), ?_,
    forest.rising, forest.fits, fun slot member => forest.stands slot (List.mem_append_left _ member)⟩
  intro id inside unlisted
  by_cases same : id = ascription
  · rw [same]
    exact ascribes
  · refine forest.covered id inside ?_
    simp only [List.map_append, List.map_cons, List.map_nil, List.mem_append, List.mem_singleton,
      not_or] at unlisted ⊢
    exact ⟨unlisted.1, unlisted.2, same⟩

end Forest

def ascribed (ascription : Nat) (node : Node) : Node :=
  match node.kind with
  | .identifier name _ => { node with kind := .identifier name (some ascription) }
  | _ => node

theorem kindAt_modify_of_ne {nodes : Array Node} {target id : Nat} (change : Node → Node)
    (other : id ≠ target) : kindAt (nodes.modify target change) id = kindAt nodes id := by
  rw [kindAt, kindAt, Array.getElem?_modify, if_neg (Ne.symm other)]

theorem bare_kind_ascribed (ascription : Nat) (node : Node) :
    (ascribed ascription node).kind.bare = node.kind.bare := by
  rcases node with ⟨kind, span⟩
  cases kind <;> rfl

theorem bare_kindAt_ascribed (nodes : Array Node) (target ascription id : Nat) :
    (kindAt (nodes.modify target (ascribed ascription)) id).bare = (kindAt nodes id).bare := by
  by_cases same : id = target
  · rw [same, kindAt, kindAt, Array.getElem?_modify, if_pos rfl]
    cases nodes[target]? with
    | none => rfl
    | some node => exact bare_kind_ascribed ascription node
  · rw [kindAt_modify_of_ne _ same]

theorem modify_ascribed_of_not_identifier {nodes : Array Node} {target : Nat} (ascription : Nat)
    (unnamed : (kindAt nodes target).isIdentifier = false) :
    nodes.modify target (ascribed ascription) = nodes := by
  refine Array.ext_getElem? fun id => ?_
  rw [Array.getElem?_modify]
  split
  case isTrue same =>
      subst same
      rw [kindAt] at unnamed
      cases found : nodes[target]? with
      | none => rfl
      | some node =>
          rw [found] at unnamed
          rcases node with ⟨kind, span⟩
          cases kind with
          | identifier name old => simp [NodeKind.isIdentifier] at unnamed
          | _ => rfl
  case isFalse => rfl

theorem kindAt_modify_ascribed {nodes : Array Node} {target : Nat} (ascription : Nat) {name : String}
    {old : Option Nat} (named : kindAt nodes target = .identifier name old) :
    kindAt (nodes.modify target (ascribed ascription)) target = .identifier name (some ascription) := by
  rw [kindAt] at named
  rw [kindAt, Array.getElem?_modify, if_pos rfl]
  cases found : nodes[target]? with
  | none => simp [found] at named
  | some node =>
      rw [found] at named
      have kindEq : node.kind = .identifier name old := named
      simp only [Option.map_some, ascribed, kindEq]

/-- The ascription of an identifier takes the place of the one before. -/
theorem owned_modify_ascribed {nodes : Array Node} {target : Nat} (ascription : Nat) {name : String}
    {old : Option Nat} (named : kindAt nodes target = .identifier name old) :
    (ascription :: owned nodes).Perm
      (old.toList ++ owned (nodes.modify target (ascribed ascription))) := by
  have inside : target < nodes.toList.length := by
    rcases Nat.lt_or_ge target nodes.size with inside | outside
    · simpa using inside
    · simp [kindAt_of_size_le outside] at named
  obtain ⟨before, node, after, parted, length_eq, changed⟩ :=
    List.exists_of_modify (ascribed ascription) inside
  have kindEq : node.kind = .identifier name old := by
    have found : nodes.toList[target]? = some node := by
      rw [parted, ← length_eq]
      simp
    rw [Array.getElem?_toList] at found
    rw [← named, kindAt, found]
  have ascribedKind : (ascribed ascription node).kind = .identifier name (some ascription) := by
    simp [ascribed, kindEq]
  rw [owned, owned, Array.toList_modify, changed, parted, List.perm_iff_count]
  intro id
  simp only [List.flatMap_append, List.flatMap_cons, kindEq, ascribedKind, NodeKind.children,
    List.count_append, List.count_cons, Option.toList_some, List.count_nil]
  omega

namespace Forest

variable {nodes : Array Node} {below : List Slot} {target ascription : Nat}

/-- Giving a binding, which has none yet, the ascription that was built behind it. -/
theorem ascribe (next : target + 1 = ascription)
    (unascribed : ∀ name old, kindAt nodes target = .identifier name old → old = none)
    (forest : Forest nodes (below ++ [⟨target, .binding⟩, ⟨ascription, .ascription⟩])) :
    Forest (nodes.modify target (ascribed ascription)) (below ++ [⟨target, .binding⟩]) := by
  have targetStands := forest.stands ⟨target, .binding⟩ (by simp)
  have ascriptionStands := forest.stands ⟨ascription, .ascription⟩ (by simp)
  cases kindEq : kindAt nodes target with
  | identifier name old =>
      have targetRoot : Slot.mk target .binding ∈
          below ++ [⟨target, .binding⟩, ⟨ascription, .ascription⟩] := by simp
      have ascriptionRoot : Slot.mk ascription .ascription ∈
          below ++ [⟨target, .binding⟩, ⟨ascription, .ascription⟩] := by simp
      have kept : ∀ id < nodes.size, (kindAt (nodes.modify target (ascribed ascription)) id).bare =
          (kindAt nodes id).bare := fun id _ => bare_kindAt_ascribed nodes target ascription id
      have admitted : ∀ slot : Slot, slot.node < nodes.size → slot.Admitted nodes →
          slot.Admitted (nodes.modify target (ascribed ascription)) := fun slot inside admitted =>
        admitted_of_bare_eq kept inside (fun child listed => forest.child_lt_size listed) admitted
      have targetKind : kindAt (nodes.modify target (ascribed ascription)) target =
          .identifier name (some ascription) := kindAt_modify_ascribed ascription kindEq
      have rearranged : (owned nodes ++
          (below ++ [Slot.mk target .binding, Slot.mk ascription .ascription]).map Slot.node).Perm
            (old.toList ++ (owned (nodes.modify target (ascribed ascription)) ++
              (below ++ [Slot.mk target .binding]).map Slot.node)) := by
        have moved := owned_modify_ascribed ascription kindEq
        rw [List.perm_iff_count] at moved ⊢
        intro id
        have := moved id
        simp only [List.map_append, List.map_cons, List.map_nil, List.count_append, List.count_cons,
          List.count_nil] at this ⊢
        omega
      have once := (rearranged.nodup_iff).mp forest.once
      refine ⟨(List.nodup_append.mp once).2.1, ?_, ?_, ?_, ?_, ?_⟩
      · intro id member
        rw [Array.size_modify]
        exact forest.inside id (rearranged.mem_iff.mpr (List.mem_append_right _ member))
      · intro id inside unlisted
        rw [Array.size_modify] at inside
        obtain rfl := unascribed name old kindEq
        refine (forest.covered id inside fun member => ?_).kept inside kept
        exact unlisted (rearranged.mem_iff.mp member)
      · intro id child listed
        by_cases same : id = target
        · rw [same, targetKind]
          exact .inr rfl
        · rw [kindAt_modify_of_ne _ same] at listed ⊢
          exact forest.rising id child listed
      · intro id slot listed
        by_cases same : id = target
        · rw [same, targetKind] at listed
          obtain rfl := List.mem_singleton.mp listed
          exact admitted _ (forest.root_lt_size ascriptionRoot) (forest.stands _ ascriptionRoot)
        · rw [kindAt_modify_of_ne _ same] at listed
          exact admitted slot (forest.child_lt_size (NodeKind.node_mem_children listed))
            (forest.fits id slot listed)
      · intro slot member
        have member : slot ∈ below ++ [⟨target, .binding⟩, ⟨ascription, .ascription⟩] := by
          rcases List.mem_append.mp member with member | member
          · exact List.mem_append_left _ member
          · rw [List.mem_singleton.mp member]
            exact targetRoot
        exact admitted slot (forest.root_lt_size member) (forest.stands slot member)
  | _ =>
      have unnamed : (kindAt nodes target).isIdentifier = false := by
        rw [kindEq]
        rfl
      rw [modify_ascribed_of_not_identifier ascription unnamed]
      have hanging : Forest nodes ((below ++ [⟨target, .binding⟩]) ++ [⟨ascription, .ascription⟩]) := by
        rw [List.append_assoc]
        exact forest
      have isPattern := NodeKind.isPattern_of_isBinding targetStands unnamed
      exact hanging.dropAscription ⟨ascriptionStands, target, next, isPattern⟩

end Forest

end Heed
