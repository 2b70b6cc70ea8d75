import Heed.Tree.Basic

/-!
# Outlines

An outline is a tree of node numbers: a node with the outlines of its children. Walks over a syntax tree
are recursions over its outline. A child that is numbered after its parent is an ascription and has no
children of its own.
-/

set_option autoImplicit false

namespace Heed

inductive Outline where
  | node (id : Nat) (children : List Outline)
deriving Repr, Inhabited

namespace Outline

def id : Outline → Nat
  | .node id _ => id

mutual

/-- The nodes of an outline, each before its children, with their depth below the start. The children of
nodes that `pruned` accepts are left out. -/
def visit (pruned : Nat → Bool) (depth : Nat) : Outline → List (Nat × Nat)
  | .node id children =>
      (id, depth) :: (if pruned id then [] else visitAll pruned (depth + 1) children)

def visitAll (pruned : Nat → Bool) (depth : Nat) : List Outline → List (Nat × Nat)
  | [] => []
  | outline :: rest => visit pruned depth outline ++ visitAll pruned depth rest

end

mutual

def preorder : Outline → List Nat
  | .node id children => id :: preorderAll children

def preorderAll : List Outline → List Nat
  | [] => []
  | outline :: rest => outline.preorder ++ preorderAll rest

end

end Outline

namespace Tree

def outline (tree : Tree) (node : Nat) : Outline :=
  .node node ((tree.children node).map fun child =>
    if child < node then tree.outline child else .node child [])
termination_by node

def preorder (tree : Tree) : List Nat := (tree.outline tree.root).preorder

end Tree

end Heed
