import Heed.Checker.Member

/-!
# The types of expressions

One step of inference: the type of an expression from the types of the expressions it depends on, which
are asked for as they are needed.
-/

set_option autoImplicit false

namespace Heed.Checker

variable (checker : Checker) {m : Type → Type} [Monad m] (ask : Nat → m Ty)

def literalType : LiteralValue → Ty
  | .number _ => .primitive .number
  | .string _ => .primitive .string
  | .boolean _ => .primitive .boolean
  | .null => .null

/-- The type that a name has when nothing in the tree binds it. -/
def globalType (name : String) : Ty :=
  match name with
  | "undefined" => .undefined
  | "NaN" | "Infinity" => .primitive .number
  | _ => if (checker.declarations.class? name).isSome then .classValue name else .unknown

/-- What a loop over values or keys gives to the variable it declares. -/
def loopElement (declarator : Nat) : m Ty :=
  match (checker.tree.parent? declarator).bind checker.tree.parentKind? with
  | some (.forOfStatement _ right _) => return checker.declarations.element (← ask right)
  | some (.forInStatement _ _ _) => return .primitive .string
  | _ => return .unknown

def destructured (property key : Nat) : m Ty :=
  let tree := checker.tree
  match (tree.parent? property).bind tree.parentKind?, tree.identifierName? key with
  | some (.declarator _ (some init)), some name => do
      return (← checker.member ask (← ask init) name).getD .unknown
  | _, _ => return .unknown

def bindingType (binding : Nat) : m Ty :=
  let tree := checker.tree
  let ascription := match tree.kind binding with
    | .identifier _ ascription => ascription
    | _ => none
  match checker.ascribed? ascription, tree.parent? binding with
  | some type, _ => return type
  | none, none => return .unknown
  | none, some parent =>
      -- a parameter without an ascription takes anything
      let parameter : Ty := if (tree.kind parent).isFunctionLike then .any else .unknown
      match tree.kind parent with
      | .declarator target init =>
          if target = binding then
            match init with
            | some init => ask init
            | none => checker.loopElement ask parent
          else return .unknown
      | .functionDeclaration name _ _ _ _ =>
          if name = binding then return .function (← checker.functionResult ask parent)
          else return parameter
      | .functionExpression name _ _ _ _ =>
          if name = some binding then return .function (← checker.functionResult ask parent)
          else return parameter
      | .classDeclaration name _ _ _ _ =>
          if name = binding then return ((tree.identifierName? binding).map Ty.classValue).getD .unknown
          else return .unknown
      | .property key _ _ => checker.destructured ask parent key
      | _ => return parameter

def identifierType (node : Nat) (name : String) : m Ty :=
  -- of several declarations of a variable the first one gives the type
  match (checker.scopes.meaning? node).bind (·.identifiers.head?) with
  | some binding => checker.bindingType ask binding
  | none => return checker.globalType name

def thisType (node : Nat) : Ty :=
  let tree := checker.tree
  let class? := (tree.ancestors node).findSome? fun ancestor =>
    match tree.kind ancestor with
    | .classDeclaration id typeParams _ _ _ =>
        (tree.identifierName? id).map fun name => Ty.named name (typeParams.map (.named · []))
    | _ => none
  class?.getD .unknown

def accessType (base key : Nat) (computed optional : Bool) : m Ty := do
  let baseType ← ask base
  let baseType := if optional then baseType.withoutNullish else baseType
  if computed then
    return checker.declarations.element baseType
  match checker.tree.identifierName? key with
  | some name => return (← checker.member ask baseType name).getD .unknown
  | none => return .unknown

/-- The type of a binary expression. The right side of `+` is asked for only if it matters. -/
def binaryType (operator : BinaryOperator) (left right : Nat) : m Ty :=
  match operator with
  | .add => do
      if (← ask left) = .primitive .string then return .primitive .string
      if (← ask right) = .primitive .string then return .primitive .string
      return .primitive .number
  | .sub | .mul | .div | .mod => return .primitive .number
  | _ => return .primitive .boolean

def elementType (element : Nat) : m Ty :=
  match checker.tree.kind element with
  | .spread argument => return checker.declarations.element (← ask argument)
  | _ => ask element

/-- The type of an expression. A node that is not an expression has an unknown type. -/
def infer (node : Nat) : m Ty :=
  match checker.tree.kind node with
  | .identifier name _ => checker.identifierType ask node name
  | .literal value => return literalType value
  | .this => return checker.thisType node
  | .call callee _ => return checker.declarations.result (← ask callee)
  | .new callee _ => return checker.declarations.instantiate (← ask callee)
  | .await argument => return checker.declarations.awaited (← ask argument)
  | .member base key computed optional => checker.accessType ask base key computed optional
  | .arrowFunction .. | .functionExpression .. =>
      return .function (← checker.functionResult ask node)
  | .assignment _ _ right => ask right
  | .logical .and _ right => ask right
  | .logical _ left right => do
      let leftType ← ask left
      return Ty.unionOf [leftType.withoutNullish, ← ask right]
  | .binary operator left right => binaryType ask operator left right
  | .unary .not _ => return .primitive .boolean
  | .unary _ _ => return .primitive .number
  | .update .. => return .primitive .number
  | .conditional _ consequent alternate => do
      let consequentType ← ask consequent
      return Ty.unionOf [consequentType, ← ask alternate]
  | .object _ => return .objectLiteral node
  | .array elements => return .array (Ty.unionOf (← elements.mapM (checker.elementType ask)))
  | .spread argument => ask argument
  | .asExpression expression ascription =>
      match checker.tree.kind ascription with
      | .typeAscription .unmodelled => ask expression
      | .typeAscription type => return type.resolve []
      | _ => return .unknown
  | .satisfiesExpression expression _ => ask expression
  | .nonNull expression => return (← ask expression).withoutNullish
  | _ => return .unknown

end Heed.Checker
