import Heed.Scope.Use

/-!
# Scope analysis

The analysis of a tree: its scopes, its variables with their references in source order, the variable
that each identifier means, and the identifiers that mean none.
-/

set_option autoImplicit false

namespace Heed

structure ScopeAnalysis where
  declared : Declared
  bindings : List Binding
  allVariables : Array Variable
  resolved : Array (Option Nat)
  unresolved : List Nat

namespace ScopeAnalysis

def describe (bindings : List Binding) (uses : List Use) (id : Nat) (key : VariableKey) :
    Variable :=
  { name := key.2
    scope := key.1
    identifiers := (bindings.filter (·.key == key)).map (·.identifier)
    references := (uses.filter (·.target == some id)).map (·.reference) }

def ofTree (tree : Tree) : ScopeAnalysis :=
  let survey := Survey.ofTree tree
  let bindings := survey.bindings.toList
  let declared := Declared.ofSurvey tree.size survey
  let uses := Use.visit tree declared 0 (tree.outline tree.root)
  let allVariables := declared.keys.zipIdx.map fun (key, id) => describe bindings uses id key
  let bound := bindings.map fun binding => (binding.identifier, declared.keys.idxOf binding.key)
  let used := uses.filterMap fun use =>
    use.target.map fun id => (use.reference.identifier, id)
  { declared
    bindings
    allVariables := allVariables.toArray
    resolved := tabulate tree.size (bound ++ used)
    unresolved := (uses.filter (·.target.isNone)).map (·.reference.identifier) }

def scopes (analysis : ScopeAnalysis) : Array Scope := analysis.declared.scopes

def variableId? (analysis : ScopeAnalysis) (identifier : Nat) : Option Nat :=
  (analysis.resolved[identifier]?).join

def meaning? (analysis : ScopeAnalysis) (identifier : Nat) : Option Variable :=
  (analysis.variableId? identifier).bind fun id => analysis.allVariables[id]?

def lookup (analysis : ScopeAnalysis) (scope : Nat) (name : String) : Option Nat :=
  analysis.declared.lookup scope name

/-- The numbers of the variables that a node declares, once for each binding. -/
def declaredBy (analysis : ScopeAnalysis) (owner : Nat) : List Nat :=
  (analysis.bindings.filter (·.owner == owner)).map fun binding =>
    analysis.declared.keys.idxOf binding.key

def variablesBy (analysis : ScopeAnalysis) (owner : Nat) : List Variable :=
  (analysis.declaredBy owner).filterMap fun id => analysis.allVariables[id]?

end ScopeAnalysis

end Heed
