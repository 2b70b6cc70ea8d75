import Heed.Grammar.Program
import Heed.Rule.Judge

/-!
# Findings in a source

A source is parsed, its scopes and declared types are collected, and the rule is run with the checker as
its oracle. Findings are sorted by where they stand.
-/

set_option autoImplicit false

namespace Heed

structure Finding where
  node : Nat
  span : Span
deriving DecidableEq, Repr

namespace Finding

def messageId : String := "mustUseResult"

def message : String := "Result must be handled with either of match, unwrapOr or _unsafeUnwrap."

def atNode (tree : Tree) (node : Nat) : Finding := { node, span := tree.span node }

/-- Whether a finding may stand before another: it starts earlier, or starts together with it and ends
no later. -/
def precedes (first second : Finding) : Bool :=
  first.span.start < second.span.start ||
    first.span.start == second.span.start && first.span.stop ≤ second.span.stop

end Finding

inductive RuleError where
  /-- There is no type oracle. -/
  | typesUnavailable
deriving DecidableEq, Repr

def RuleError.message : RuleError → String
  | .typesUnavailable =>
      "Type information not available: the rule needs a type oracle for the analyzed unit"

/-- Readies the rule for a tree. It does not run without an oracle. -/
def Inspection.prepare {m : Type → Type} {τ : Type} (tree : Tree) (scopes : ScopeAnalysis)
    (options : RuleOptions) : Option (Oracle m τ) → Except RuleError (Inspection m τ)
  | some oracle => .ok { tree, scopes, oracle, options }
  | none => .error .typesUnavailable

/-- What the rule finds in a tree with a checker as its oracle, in the order of the producers. -/
def Checker.findings (checker : Checker) (options : RuleOptions) : List Finding :=
  let inspection : Inspection Session Ty :=
    { tree := checker.tree, scopes := checker.scopes, oracle := Oracle.ofChecker checker, options }
  (inspection.findings.run checker.fresh).run.1.map (Finding.atNode checker.tree)

def lint (options : RuleOptions) (source : String) : Except SyntaxError (List Finding) :=
  (Tree.parse source).map fun tree =>
    ((Checker.ofTree tree).findings options).mergeSort Finding.precedes

end Heed
