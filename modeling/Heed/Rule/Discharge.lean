import Heed.Oracle
import Heed.Rule.Options

/-!
# What becomes of a value

Whether the surroundings of an expression handle its value, check it or return it. Each question climbs
from the expression through the nodes above it, innermost first.
-/

set_option autoImplicit false

namespace Heed

structure Inspection (m : Type → Type) (τ : Type) where
  tree : Tree
  scopes : ScopeAnalysis
  oracle : Oracle m τ
  options : RuleOptions

namespace Tree

def isCallOf (tree : Tree) (call callee : Nat) : Bool :=
  match tree.kind call with
  | .call called _ => called == callee
  | _ => false

def isMemberOf (tree : Tree) (member value : Nat) : Bool :=
  match tree.kind member with
  | .member base _ _ _ => base == value
  | _ => false

def hasMemberName (tree : Tree) (member : Nat) (accepts : String → Bool) : Bool :=
  (tree.memberName? member).any accepts

/-- Whether a chain of member accesses, calls and awaits that starts with `value` ends in the call of a
handler. The nodes above `value` are given innermost first. `accessed` says that the last link of the
chain is a member access, which is what a call can continue. -/
def isHandledBelow (tree : Tree) (isHandler : String → Bool) (value : Nat) (accessed : Bool) :
    List Nat → Bool
  | [] => false
  | parent :: above =>
      match tree.kind parent with
      | .await _ => tree.isHandledBelow isHandler parent false above
      | .member base _ _ _ => base == value && tree.isHandledBelow isHandler parent true above
      | .call callee _ =>
          accessed && callee == value &&
            (tree.hasMemberName value isHandler || tree.isHandledBelow isHandler parent false above)
      | _ => false

/-- Whether a value decides a branch, possibly through `!`, `&&` and `||`. -/
def controlsBranchBelow (tree : Tree) (value : Nat) : List Nat → Bool
  | [] => false
  | parent :: above =>
      match tree.kind parent with
      | .unary .not _ => tree.controlsBranchBelow parent above
      | .logical .and _ _ => tree.controlsBranchBelow parent above
      | .logical .or _ _ => tree.controlsBranchBelow parent above
      | .ifStatement test _ _ => test == value
      | .whileStatement test _ => test == value
      | .doWhileStatement _ test => test == value
      | .conditional test _ _ => test == value
      | .forStatement _ test _ _ => test == some value
      | _ => false

/-- Whether a value flows out of its function, as the argument of a `return` or as the body of an arrow
function, before any block is met. -/
def isReturnedBelow (tree : Tree) : List Nat → Bool
  | [] => false
  | parent :: above =>
      match tree.kind parent with
      | .arrowFunction .. => true
      | .returnStatement _ => true
      | kind =>
          if kind.isBlockBoundary || kind.isDeclarationBoundary then false
          else tree.isReturnedBelow above

end Tree

namespace Inspection

variable {m : Type → Type} {τ : Type} (inspection : Inspection m τ)

def isHandled (node : Nat) : Bool :=
  inspection.tree.isHandledBelow inspection.options.isHandler node false
    (inspection.tree.ancestors node)

/-- Whether a node is a variable whose guard is called, in a place that the policy accepts. -/
def isChecked (node : Nat) : Bool :=
  let tree := inspection.tree
  (tree.kind node).isIdentifier &&
    match tree.ancestors node with
    | member :: call :: above =>
        tree.isMemberOf member node && tree.isCallOf call member &&
          tree.hasMemberName member inspection.options.isGuard &&
          match inspection.options.guardPolicy with
          | .anywhere => true
          | .controlling => tree.controlsBranchBelow call above
    | _ => false

def isReturned (node : Nat) : Bool :=
  inspection.tree.isReturnedBelow (inspection.tree.ancestors node)

/-- Whether a node stands where values are not used: in a type or as the name of a declaration. -/
def isDeclarative (node : Nat) : Bool :=
  (inspection.tree.parentKind? node).any fun kind =>
    kind.isTypeLevel || kind.isDeclarationBoundary

/-- Whether the value of a node may be a result: some part of its type has all required members. The
value of an `await` is what awaiting its operand gives. -/
def isResult [Monad m] (node : Nat) : m Bool := do
  let oracle := inspection.oracle
  let type ← match inspection.tree.kind node with
    | .await argument => oracle.typeOf argument >>= oracle.awaited
    | _ => oracle.typeOf node
  (← oracle.parts type).anyM fun part =>
    inspection.options.requiredMembers.allM (oracle.hasMember part)

end Inspection

end Heed
