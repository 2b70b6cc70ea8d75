import Heed.Scope.Survey

/-!
# Where names are used

An identifier that names no member and declares nothing uses a variable: the one of its name in the
innermost scope around it that declares one, wherever in that scope the declaration stands. The write of
an initialised declaration is a use by the declaring identifier itself.
-/

set_option autoImplicit false

namespace Heed

structure Use where
  reference : Reference
  target : Option Nat
deriving DecidableEq, Repr

/-- Everything that is declared: the scopes, the variables by scope and name, and two tables that give a
node the scope it opens and the variable it binds. -/
structure Declared where
  scopes : Array Scope
  keys : List VariableKey
  scopeOf : Array (Option Nat)
  binderOf : Array (Option Nat)

namespace Declared

def ofSurvey (size : Nat) (survey : Survey) : Declared :=
  let bindings := survey.bindings.toList
  let keys := (bindings.map Binding.key).eraseDups
  { scopes := survey.scopes
    keys
    scopeOf := tabulate size (survey.scopes.toList.zipIdx.map fun (scope, id) => (scope.node, id))
    binderOf := tabulate size
      (bindings.map fun binding => (binding.identifier, keys.idxOf binding.key)) }

def lookup (declared : Declared) (scope : Nat) (name : String) : Option Nat :=
  match declared.keys.findIdx? (· == (scope, name)) with
  | some id => some id
  | none =>
      match declared.scopes[scope]? with
      | some { parent := some parent, .. } =>
          if parent < scope then declared.lookup parent name else none
      | _ => none
termination_by scope

def openedBy? (declared : Declared) (node : Nat) : Option Nat := (declared.scopeOf[node]?).join

def binder? (declared : Declared) (identifier : Nat) : Option Nat :=
  (declared.binderOf[identifier]?).join

end Declared

namespace Use

variable (tree : Tree) (declared : Declared)

def ofName (scope identifier : Nat) (access : Access) : Option Use :=
  (tree.identifierName? identifier).map fun name =>
    { reference := { identifier, access, init := false }
      target := declared.lookup scope name }

def ofBinder (identifier : Nat) : Option Use :=
  (declared.binder? identifier).map fun id =>
    { reference := { identifier, access := .write, init := true }
      target := some id }

def isLoopBinding (declarator : Nat) : Bool :=
  match tree.parent? declarator with
  | some declaration =>
      match tree.parentKind? declaration with
      | some (.forOfStatement left _ _) => left == declaration
      | some (.forInStatement left _ _) => left == declaration
      | _ => false
  | none => false

def isPattern : NodeKind → Bool
  | .objectPattern .. | .arrayPattern .. => true
  | _ => false

/-- The uses that a node makes by itself. -/
def own (scope node : Nat) : List Use :=
  match tree.kind node with
  | .identifier .. =>
      -- an identifier that is bound is counted with its declarator, if at all
      if (declared.binder? node).isSome then []
      else (ofName tree declared scope node .read).toList
  | .declarator target init =>
      if init.isSome || isLoopBinding tree node then
        (tree.boundBy target).filterMap (ofBinder declared)
      else []
  | .update argument _ _ =>
      if (tree.kind argument).isIdentifier then
        (ofName tree declared scope argument .readWrite).toList
      else []
  | .assignment operator left _ =>
      if (tree.kind left).isIdentifier then
        let access := if operator = .assign then Access.write else .readWrite
        (ofName tree declared scope left access).toList
      else if isPattern (tree.kind left) then
        (tree.boundBy left).filterMap fun identifier => ofName tree declared scope identifier .write
      else []
  | _ => []

/-- Whether a child of a node names something rather than uses it. -/
def isNaming (node child : Nat) : Bool :=
  match tree.kind node with
  | .member _ key computed _ => !computed && key == child
  | .property key _ shorthand => !shorthand && key == child
  | .methodDefinition key params _ _ _ _ => key == child || params.contains child
  | .propertyDefinition key _ _ _ => key == child
  | .functionDeclaration name params _ _ _ => name == child || params.contains child
  | .functionExpression name params _ _ _ => name == some child || params.contains child
  | .arrowFunction params _ _ _ => params.contains child
  | .catchClause param _ => param == some child
  | .classDeclaration name _ _ _ _ => name == child
  | .typeAlias name _ _ => name == child
  | .interfaceDeclaration name _ _ _ => name == child
  | _ => false

/-- Whether the uses of a child are not looked for: it names something, or its node has used it. -/
def skips (node child : Nat) : Bool :=
  match tree.kind node with
  | .identifier .. => true
  | .declarator _ init => init != some child
  | .update argument _ _ => (tree.kind argument).isIdentifier
  | .assignment _ left _ =>
      left == child && ((tree.kind left).isIdentifier || isPattern (tree.kind left))
  | _ => isNaming tree node child

mutual

def visit (scope : Nat) : Outline → List Use
  | .node node children =>
      let inner := (declared.openedBy? node).getD scope
      own tree declared inner node ++ visitAll inner node children

def visitAll (scope parent : Nat) : List Outline → List Use
  | [] => []
  | outline :: rest =>
      (if skips tree parent outline.id then [] else visit scope outline) ++
        visitAll scope parent rest

end

end Use

end Heed
