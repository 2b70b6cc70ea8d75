import Heed.Tree.Outline

/-!
# Scopes, bindings and variables

Scopes and variables are numbered in the order in which they appear. A scope refers to the scope around
it, which has a smaller number. A variable belongs to one scope and may be bound by several identifiers.
-/

set_option autoImplicit false

namespace Heed

inductive ScopeKind where
  | program
  | function
  | block
  /-- The head of a `for` loop. -/
  | loop
deriving DecidableEq, Repr

structure Scope where
  kind : ScopeKind
  node : Nat
  parent : Option Nat
deriving DecidableEq, Repr

/-- An identifier that declares a name in a scope, and the node that makes it do so. -/
structure Binding where
  scope : Nat
  owner : Nat
  identifier : Nat
  name : String
deriving DecidableEq, Repr

abbrev VariableKey := Nat × String

def Binding.key (binding : Binding) : VariableKey := (binding.scope, binding.name)

inductive Access where
  | read | write | readWrite
deriving DecidableEq, Repr

namespace Access

def isRead : Access → Bool
  | .read | .readWrite => true
  | .write => false

def isWrite : Access → Bool
  | .write | .readWrite => true
  | .read => false

end Access

structure Reference where
  identifier : Nat
  access : Access
  /-- Whether this is the write of an initialised declaration. -/
  init : Bool
deriving DecidableEq, Repr

structure Variable where
  name : String
  scope : Nat
  /-- The identifiers that bind the variable. -/
  identifiers : List Nat
  references : List Reference
deriving DecidableEq, Repr

namespace Tree

def boundBy (tree : Tree) (node : Nat) : List Nat :=
  match tree.kind node with
  | .identifier .. => [node]
  | .objectPattern properties =>
      properties.flatMap fun property =>
        match tree.kind property with
        | .property _ value _ => if value < node then tree.boundBy value else []
        | .rest argument => if argument < node then tree.boundBy argument else []
        | _ => []
  | .arrayPattern elements =>
      elements.flatMap fun element => if element < node then tree.boundBy element else []
  | .rest argument => if argument < node then tree.boundBy argument else []
  | _ => []
termination_by node

end Tree

/-- A table that gives some of the numbers below `size` a number. Later entries win. -/
def tabulate (size : Nat) (entries : List (Nat × Nat)) : Array (Option Nat) :=
  entries.foldl (fun table (index, value) => table.setIfInBounds index (some value))
    (Array.replicate size none)

end Heed
