import Heed.Rule.Discharge

/-!
# Transfers to variables

A result that is bound to a variable is handled if some other use of the variable handles it. The
identifier that takes the result answers for it.
-/

set_option autoImplicit false

namespace Heed

inductive Deferral where
  /-- As the initial value of the variable that a declarator declares with an identifier. -/
  | declaration (declarator identifier : Nat)
  /-- In a variable, by a plain assignment. -/
  | assignment (target : Nat)
deriving DecidableEq, Repr

structure Transfer where
  variable_ : Variable
  /-- The identifier through which the variable took the result. -/
  binding : Nat
  /-- The identifier that is reported if no use handles the result. -/
  blamed : Nat
deriving DecidableEq, Repr

def Transfer.uses (transfer : Transfer) : List Nat :=
  (transfer.variable_.references.map (·.identifier)).filter (· != transfer.binding)

def Tree.storedBy? (tree : Tree) (node child : Nat) : Option Deferral :=
  match tree.kind node with
  | .declarator target (some init) =>
      if init == child && (tree.kind target).isIdentifier then some (.declaration node target)
      else none
  | .assignment .assign left right =>
      if right == child && (tree.kind left).isIdentifier then some (.assignment left) else none
  | _ => none

namespace Inspection

variable {m : Type → Type} {τ : Type} (inspection : Inspection m τ)

/-- Where the value of `child` is stored by one of the nodes above it, before any block is met. Only a
result is stored. -/
def deferralBelow [Monad m] (child : Nat) : List Nat → m (Option Deferral)
  | [] => return none
  | parent :: above =>
      match inspection.tree.storedBy? parent child with
      | some deferral => do
          if ← inspection.isResult child then return some deferral
          else deferralBelow parent above
      | none =>
          if (inspection.tree.kind parent).isBlockBoundary then return none
          else deferralBelow parent above

def deferral [Monad m] (node : Nat) : m (Option Deferral) :=
  inspection.deferralBelow node (inspection.tree.ancestors node)

/-- The variable that a deferral names. A declaration is blamed at the first reference of its variable. -/
def transferOf? : Deferral → Option Transfer
  | .declaration declarator identifier =>
      ((inspection.scopes.variablesBy declarator).find? (·.identifiers.contains identifier)).map
        fun owner =>
          { variable_ := owner
            binding := identifier
            blamed := (owner.references.head?.map (·.identifier)).getD identifier }
  | .assignment target =>
      (inspection.scopes.meaning? target).map fun owner =>
        { variable_ := owner, binding := target, blamed := target }

def transfer [Monad m] (node : Nat) : m (Option Transfer) :=
  return (← inspection.deferral node).bind inspection.transferOf?

end Inspection

end Heed
