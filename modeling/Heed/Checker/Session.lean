import Heed.Checker.Infer

/-!
# Checker sessions

A session remembers the type of each expression once it is inferred. An expression whose type is asked
for while it is being inferred has an unknown type at that place.
-/

set_option autoImplicit false

namespace Heed

abbrev Memo := Array (Option Ty)

abbrev Session := StateM Memo

namespace Checker

variable (checker : Checker)

def fresh : Memo := Array.replicate checker.tree.size none

/-- The type of a node while the nodes in `path` are being inferred. Each inference that starts inside
another takes one from the budget. -/
def typeWithin : (budget : Nat) → (path : List Nat) → (node : Nat) → Session Ty
  | 0, _, _ => return .unknown
  | budget + 1, path, node => do
      match ((← get)[node]?).join with
      | some type => return type
      | none =>
          if path.contains node then
            return .unknown
          else
            let type ← checker.infer (typeWithin budget (node :: path)) node
            modify (·.setIfInBounds node (some type))
            return type

/-- The type of a node. No node is inferred inside itself, so the budget is never used up. -/
def typeOf (node : Nat) : Session Ty := checker.typeWithin (checker.tree.size + 1) [] node

def returnType (node : Nat) : Session Ty := checker.functionResult checker.typeOf node

def memberType (type : Ty) (name : String) : Session (Option Ty) :=
  checker.member checker.typeOf type name

/-- Whether a type declares a member. Of `any` and `unknown` no members are declared. -/
def hasMember (type : Ty) (name : String) : Session Bool :=
  match checker.declarations.expand type with
  | .any | .unknown => return false
  | _ => return (← checker.memberType type name).isSome

end Checker

end Heed
