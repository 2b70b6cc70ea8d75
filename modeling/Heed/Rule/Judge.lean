import Heed.Rule.Transfer

/-!
# Verdicts and findings

Every result must reach the call of a handler, be checked, be returned, or be stored in a variable one of
whose other uses does so. Producers of results are calls, `new` expressions and awaits; a call that is
awaited is judged through its `await`. Each lost result is reported once, at the node that answers for
it.
-/

set_option autoImplicit false

namespace Heed

inductive Verdict where
  /-- The node is not a use of a value, or its value is no result. -/
  | notApplicable
  | handled
  | checked
  | returned
  /-- Some use of the variable that took the result discharges the obligation. -/
  | deferred
  | unhandled
deriving DecidableEq, Repr

def Verdict.discharges (verdict : Verdict) : Bool := verdict != .unhandled

structure Judgement where
  verdict : Verdict
  blamed : Nat
deriving DecidableEq, Repr

namespace Inspection

variable {m : Type → Type} {τ : Type} [Monad m] (inspection : Inspection m τ)

/-- The verdict on a node that does not depend on where its value is stored. Only uses of variables can
be checked. -/
def localVerdict? (node : Nat) (isUse : Bool) : m (Option Verdict) := do
  if inspection.isDeclarative node then return some .notApplicable
  if !(← inspection.isResult node) then return some .notApplicable
  if inspection.isHandled node then return some .handled
  if isUse && inspection.isChecked node then return some .checked
  if inspection.isReturned node then return some .returned
  return none

/-- Judges a node while the uses in `path` are being judged. Uses in `path` are passed over, which ends
the search where variables are stored in each other. Each use that is judged takes one from the
budget. -/
def judgeWithin : (budget : Nat) → (path : List Nat) → (node : Nat) → (isUse : Bool) → m Judgement
  | 0, _, node, _ => return { verdict := .unhandled, blamed := node }
  | budget + 1, path, node, isUse => do
      match ← inspection.localVerdict? node isUse with
      | some verdict => return { verdict, blamed := node }
      | none =>
          match ← inspection.transfer node with
          | none => return { verdict := .unhandled, blamed := node }
          | some transfer => do
              let discharged ← transfer.uses.anyM fun use =>
                if path.contains use then return false
                else return (← judgeWithin budget (use :: path) use true).verdict.discharges
              return { verdict := if discharged then .deferred else .unhandled
                       blamed := transfer.blamed }

/-- Judges a producer. No use is judged inside itself, so the budget is never used up. -/
def judge (producer : Nat) : m Judgement :=
  inspection.judgeWithin (inspection.tree.size + 1) [] producer false

def blame? (producer : Nat) : m (Option Nat) := do
  let judgement ← inspection.judge producer
  return if judgement.verdict.discharges then none else some judgement.blamed

end Inspection

def Tree.isAwaited (tree : Tree) (node : Nat) : Bool :=
  match tree.parentKind? node with
  | some (.await argument) => argument == node
  | _ => false

def Tree.isProducer (tree : Tree) (node : Nat) : Bool :=
  match tree.kind node with
  | .call .. => !tree.isAwaited node
  | .new .. | .await _ => true
  | _ => false

def Tree.producers (tree : Tree) : List Nat := tree.preorder.filter tree.isProducer

namespace Inspection

variable {m : Type → Type} {τ : Type} [Monad m] (inspection : Inspection m τ)

def findings : m (List Nat) := do
  if inspection.options.enabled then
    -- one node may answer for several producers
    let blamed ← inspection.tree.producers.mapM inspection.blame?
    return (blamed.filterMap id).eraseDups
  else
    return []

end Inspection

end Heed
