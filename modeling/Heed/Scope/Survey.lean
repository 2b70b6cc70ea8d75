import Heed.Scope.Basic

/-!
# Where names are declared

A survey walks a tree once and notes the scopes that it opens and the bindings that it declares.
Functions, loops, blocks, switches and catch clauses open scopes; the body of a function shares the
scope of the function. A `var` declares in the nearest function or program scope, any other declaration
in the scope where it stands.
-/

set_option autoImplicit false

namespace Heed

structure Survey where
  scopes : Array Scope
  bindings : Array Binding

namespace Survey

def opens? (tree : Tree) (node : Nat) : Option ScopeKind :=
  match tree.kind node with
  | .functionDeclaration .. | .functionExpression .. | .arrowFunction ..
  | .methodDefinition .. => some .function
  | .forStatement .. | .forOfStatement .. | .forInStatement .. => some .loop
  | .switchStatement .. | .catchClause .. => some .block
  | .block .. =>
      -- the body of a function shares the scope of the function
      if (tree.parentKind? node).any NodeKind.isFunctionLike then none else some .block
  | _ => none

/-- The nearest function or program scope, from a scope outwards. -/
def functionScope (scopes : Array Scope) (scope : Nat) : Nat :=
  match scopes[scope]? with
  | some { kind := .block, parent := some parent, .. } =>
      if parent < scope then functionScope scopes parent else scope
  | some { kind := .loop, parent := some parent, .. } =>
      if parent < scope then functionScope scopes parent else scope
  | _ => scope
termination_by scope

def declare (survey : Survey) (tree : Tree) (scope owner : Nat) (identifiers : List Nat) : Survey :=
  let bindings := identifiers.filterMap fun identifier =>
    (tree.identifierName? identifier).map fun name => { scope, owner, identifier, name }
  { survey with bindings := survey.bindings ++ bindings.toArray }

def declareOutside (survey : Survey) (tree : Tree) (scope node : Nat) : Survey :=
  match tree.kind node with
  | .variableDeclaration word declarators _ =>
      let target := if word = .var_ then functionScope survey.scopes scope else scope
      declarators.foldl (fun survey declarator =>
        match tree.kind declarator with
        | .declarator pattern _ => survey.declare tree target declarator (tree.boundBy pattern)
        | _ => survey) survey
  | .functionDeclaration name _ _ _ _ => survey.declare tree scope node [name]
  | .classDeclaration name _ _ _ _ => survey.declare tree scope node [name]
  | _ => survey

/-- The identifiers that a node declares in the scope that it opens: a function expression its own name,
a catch clause its parameter, and each function its parameters. -/
def boundInside (tree : Tree) (node : Nat) : List Nat :=
  let own := match tree.kind node with
    | .functionExpression (some name) _ _ _ _ => [name]
    | .catchClause (some param) _ => tree.boundBy param
    | _ => []
  own ++ (tree.kind node).params.flatMap tree.boundBy

def push (survey : Survey) (scope : Scope) : Survey :=
  { survey with scopes := survey.scopes.push scope }

mutual

def visit (tree : Tree) (scope : Nat) : Outline → Survey → Survey
  | .node node children, survey =>
      let survey := survey.declareOutside tree scope node
      match opens? tree node with
      | none => visitAll tree scope children survey
      | some kind =>
          let inner := survey.scopes.size
          let survey := survey.push { kind, node, parent := some scope }
          visitAll tree inner children (survey.declare tree inner node (boundInside tree node))

def visitAll (tree : Tree) (scope : Nat) : List Outline → Survey → Survey
  | [], survey => survey
  | outline :: rest, survey => visitAll tree scope rest (visit tree scope outline survey)

end

def ofTree (tree : Tree) : Survey :=
  visit tree 0 (tree.outline tree.root)
    { scopes := #[{ kind := .program, node := tree.root, parent := none }], bindings := #[] }

end Survey

end Heed
