import Heed.Number.Binary64
import Heed.TypeSyntax.Basic

/-!
# Kinds of syntax nodes

A node refers to other nodes by their numbers, which are natural numbers. `NodeKind.children` lists the numbers that a node holds,
in source order; a key that is also the value of its property is listed once.
-/

set_option autoImplicit false

namespace Heed

inductive DeclarationWord where
  | const_ | let_ | var_
deriving DecidableEq, Repr

inductive BinaryOperator where
  | add | sub | mul | div | mod | eq | ne | strictEq | strictNe | less | greater | atMost | atLeast
deriving DecidableEq, Repr

inductive LogicalOperator where
  | and | or | nullish
deriving DecidableEq, Repr

inductive UnaryOperator where
  | not | negate | plus
deriving DecidableEq, Repr

inductive AssignOperator where
  | assign | addAssign | subAssign
deriving DecidableEq, Repr

inductive LiteralValue where
  | number (value : Binary64)
  | string (value : String)
  | boolean (value : Bool)
  | null
deriving DecidableEq, Repr

inductive NodeKind where
  -- statements
  | program (body : List Nat)
  | block (body : List Nat)
  | expressionStatement (expression : Nat)
  | emptyStatement
  | variableDeclaration (word : DeclarationWord) (declarators : List Nat) (ambient : Bool)
  | declarator (target : Nat) (init : Option Nat)
  | functionDeclaration (name : Nat) (params : List Nat) (returnType : Option Nat)
      (body : Option Nat) (isAsync : Bool)
  | classDeclaration (name : Nat) (typeParams : List String) (heritage : List TypeExpr)
      (body : List Nat) (ambient : Bool)
  | methodDefinition (key : Nat) (params : List Nat) (returnType : Option Nat)
      (body : Option Nat) (isAsync isStatic : Bool)
  | propertyDefinition (key : Nat) (ascription : Option Nat) (value : Option Nat)
      (isStatic : Bool)
  | returnStatement (argument : Option Nat)
  | ifStatement (test consequent : Nat) (alternate : Option Nat)
  | whileStatement (test body : Nat)
  | doWhileStatement (body test : Nat)
  | forStatement (init test next : Option Nat) (body : Nat)
  | forOfStatement (left right body : Nat)
  | forInStatement (left right body : Nat)
  | switchStatement (discriminant : Nat) (cases : List Nat)
  /-- A case with its test, or the default case. -/
  | switchCase (test : Option Nat) (consequent : List Nat)
  | labeledStatement (label : String) (body : Nat)
  | breakStatement (label : Option String)
  | continueStatement (label : Option String)
  | tryStatement (body : Nat) (handler finalizer : Option Nat)
  | catchClause (param : Option Nat) (body : Nat)
  | throwStatement (argument : Nat)
  | typeAlias (name : Nat) (typeParams : List String) (ascription : Nat)
  | interfaceDeclaration (name : Nat) (typeParams : List String) (bases : List TypeExpr)
      (members : List TypeMember)
  -- expressions
  | identifier (name : String) (ascription : Option Nat)
  | literal (value : LiteralValue)
  | this
  | call (callee : Nat) (arguments : List Nat)
  | new (callee : Nat) (arguments : List Nat)
  | await (argument : Nat)
  /-- Access by name, or by a computed key in brackets; an optional one is written with `?.`. -/
  | member (base key : Nat) (computed optional : Bool)
  | arrowFunction (params : List Nat) (returnType : Option Nat) (body : Nat)
      (isAsync : Bool)
  | functionExpression (name : Option Nat) (params : List Nat) (returnType : Option Nat)
      (body : Nat) (isAsync : Bool)
  | assignment (operator : AssignOperator) (left right : Nat)
  | binary (operator : BinaryOperator) (left right : Nat)
  | logical (operator : LogicalOperator) (left right : Nat)
  | unary (operator : UnaryOperator) (argument : Nat)
  /-- An increment or decrement, with its sign before or behind the argument. -/
  | update (argument : Nat) (increment signFirst : Bool)
  | conditional (test consequent alternate : Nat)
  | object (properties : List Nat)
  | property (key value : Nat) (shorthand : Bool)
  /-- An array; holes leave no element. -/
  | array (elements : List Nat)
  | spread (argument : Nat)
  | rest (argument : Nat)
  | objectPattern (properties : List Nat)
  | arrayPattern (elements : List Nat)
  -- type level
  | asExpression (expression ascription : Nat)
  | satisfiesExpression (expression ascription : Nat)
  | nonNull (expression : Nat)
  | typeAscription (type : TypeExpr)
deriving Repr, Inhabited

namespace NodeKind

def isTypeLevel : NodeKind → Bool
  | .asExpression .. | .satisfiesExpression .. | .nonNull .. | .typeAscription .. | .typeAlias ..
  | .interfaceDeclaration .. => true
  | _ => false

/-- Declarations, inside which a value is not used by a statement. -/
def isDeclarationBoundary : NodeKind → Bool
  | .classDeclaration .. | .functionDeclaration .. | .methodDefinition ..
  | .propertyDefinition .. => true
  | _ => false

def isBlockBoundary : NodeKind → Bool
  | .block .. | .program .. | .switchCase .. => true
  | _ => false

def isFunctionLike : NodeKind → Bool
  | .functionDeclaration .. | .functionExpression .. | .arrowFunction ..
  | .methodDefinition .. => true
  | _ => false

def isClass : NodeKind → Bool
  | .classDeclaration .. => true
  | _ => false

def isIdentifier : NodeKind → Bool
  | .identifier .. => true
  | _ => false

def identifierName? : NodeKind → Option String
  | .identifier name _ => some name
  | _ => none

def params : NodeKind → List Nat
  | .functionDeclaration _ params _ _ _ => params
  | .functionExpression _ params _ _ _ => params
  | .arrowFunction params _ _ _ => params
  | .methodDefinition _ params _ _ _ _ => params
  | _ => []

def children : NodeKind → List Nat
  | .program body => body
  | .block body => body
  | .expressionStatement expression => [expression]
  | .emptyStatement => []
  | .variableDeclaration _ declarators _ => declarators
  | .declarator target init => target :: init.toList
  | .functionDeclaration name params returnType body _ =>
      name :: (params ++ returnType.toList ++ body.toList)
  | .classDeclaration name _ _ body _ => name :: body
  | .methodDefinition key params returnType body _ _ =>
      key :: (params ++ returnType.toList ++ body.toList)
  | .propertyDefinition key ascription value _ => key :: (ascription.toList ++ value.toList)
  | .returnStatement argument => argument.toList
  | .ifStatement test consequent alternate => test :: consequent :: alternate.toList
  | .whileStatement test body => [test, body]
  | .doWhileStatement body test => [body, test]
  | .forStatement init test next body => init.toList ++ test.toList ++ next.toList ++ [body]
  | .forOfStatement left right body => [left, right, body]
  | .forInStatement left right body => [left, right, body]
  | .switchStatement discriminant cases => discriminant :: cases
  | .switchCase test consequent => test.toList ++ consequent
  | .labeledStatement _ body => [body]
  | .breakStatement _ => []
  | .continueStatement _ => []
  | .tryStatement body handler finalizer => body :: (handler.toList ++ finalizer.toList)
  | .catchClause param body => param.toList ++ [body]
  | .throwStatement argument => [argument]
  | .typeAlias name _ ascription => [name, ascription]
  | .interfaceDeclaration name _ _ _ => [name]
  | .identifier _ ascription => ascription.toList
  | .literal _ => []
  | .this => []
  | .call callee arguments => callee :: arguments
  | .new callee arguments => callee :: arguments
  | .await argument => [argument]
  | .member base key _ _ => [base, key]
  | .arrowFunction params returnType body _ => params ++ returnType.toList ++ [body]
  | .functionExpression name params returnType body _ =>
      name.toList ++ params ++ returnType.toList ++ [body]
  | .assignment _ left right => [left, right]
  | .binary _ left right => [left, right]
  | .logical _ left right => [left, right]
  | .unary _ argument => [argument]
  | .update argument _ _ => [argument]
  | .conditional test consequent alternate => [test, consequent, alternate]
  | .object properties => properties
  | .property key value shorthand => if shorthand then [value] else [key, value]
  | .array elements => elements
  | .spread argument => [argument]
  | .rest argument => [argument]
  | .objectPattern properties => properties
  | .arrayPattern elements => elements
  | .asExpression expression ascription => [expression, ascription]
  | .satisfiesExpression expression ascription => [expression, ascription]
  | .nonNull expression => [expression]
  | .typeAscription _ => []

end NodeKind

end Heed
