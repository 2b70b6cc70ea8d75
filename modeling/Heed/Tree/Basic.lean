import Heed.Source.Span
import Heed.Tree.Kind

/-!
# Syntax trees

A tree is a table of nodes together with the parent of each node. Children are numbered before their
parent; only the ascription of an identifier is numbered after it.
-/

set_option autoImplicit false

namespace Heed

structure Node where
  kind : NodeKind
  span : Span
deriving Repr, Inhabited

structure Tree where
  nodes : Array Node
  parents : Array (Option Nat)
  root : Nat
deriving Repr

namespace Tree

def adopt (parents : Array (Option Nat)) (parent : Nat) (node : Node) :
    Array (Option Nat) :=
  node.kind.children.foldl (fun parents child => parents.setIfInBounds child (some parent)) parents

def parentsOf (nodes : Array Node) : Array (Option Nat) :=
  nodes.zipIdx.foldl (fun parents (node, id) => adopt parents id node)
    (Array.replicate nodes.size none)

def ofNodes (nodes : Array Node) (root : Nat) : Tree :=
  { nodes, parents := parentsOf nodes, root }

def size (tree : Tree) : Nat := tree.nodes.size

/-- The kind of a node. A number outside the tree reads as an empty statement. -/
def kind (tree : Tree) (node : Nat) : NodeKind :=
  match tree.nodes[node]? with
  | some entry => entry.kind
  | none => .emptyStatement

def span (tree : Tree) (node : Nat) : Span :=
  match tree.nodes[node]? with
  | some entry => entry.span
  | none => .empty

def parent? (tree : Tree) (node : Nat) : Option Nat := (tree.parents[node]?).join

def parentKind? (tree : Tree) (node : Nat) : Option NodeKind :=
  (tree.parent? node).map tree.kind

def children (tree : Tree) (node : Nat) : List Nat := (tree.kind node).children

/-- The nodes above a node that is itself numbered below its parent, innermost first. -/
def above (tree : Tree) (node : Nat) : List Nat :=
  match tree.parent? node with
  | some parent =>
      if node < parent ∧ parent < tree.size then parent :: above tree parent else []
  | none => []
termination_by tree.size - node
decreasing_by omega

def ancestors (tree : Tree) (node : Nat) : List Nat :=
  match tree.parent? node with
  | some parent => parent :: tree.above parent
  | none => []

/-- Whether `node` is `outer` or lies inside it. -/
def isWithin (tree : Tree) (node outer : Nat) : Bool :=
  node == outer || (tree.ancestors node).contains outer

def identifierName? (tree : Tree) (node : Nat) : Option String :=
  (tree.kind node).identifierName?

/-- The name by which a member is accessed, when its key is not computed. -/
def memberName? (tree : Tree) (node : Nat) : Option String :=
  match tree.kind node with
  | .member _ key false _ => tree.identifierName? key
  | _ => none

end Tree

end Heed
