import Heed.Tree.Kind

/-!
# Names of node kinds

The names that tools for the language share. Nodes that only the typed dialect has start with `TS`.
-/

set_option autoImplicit false

namespace Heed.NodeKind

def name : NodeKind → String
  | .program .. => "Program"
  | .block .. => "BlockStatement"
  | .expressionStatement .. => "ExpressionStatement"
  | .emptyStatement => "EmptyStatement"
  | .variableDeclaration .. => "VariableDeclaration"
  | .declarator .. => "VariableDeclarator"
  | .functionDeclaration .. => "FunctionDeclaration"
  | .classDeclaration .. => "ClassDeclaration"
  | .methodDefinition .. => "MethodDefinition"
  | .propertyDefinition .. => "PropertyDefinition"
  | .returnStatement .. => "ReturnStatement"
  | .ifStatement .. => "IfStatement"
  | .whileStatement .. => "WhileStatement"
  | .doWhileStatement .. => "DoWhileStatement"
  | .forStatement .. => "ForStatement"
  | .forOfStatement .. => "ForOfStatement"
  | .forInStatement .. => "ForInStatement"
  | .switchStatement .. => "SwitchStatement"
  | .switchCase .. => "SwitchCase"
  | .labeledStatement .. => "LabeledStatement"
  | .breakStatement .. => "BreakStatement"
  | .continueStatement .. => "ContinueStatement"
  | .tryStatement .. => "TryStatement"
  | .catchClause .. => "CatchClause"
  | .throwStatement .. => "ThrowStatement"
  | .typeAlias .. => "TSTypeAliasDeclaration"
  | .interfaceDeclaration .. => "TSInterfaceDeclaration"
  | .identifier .. => "Identifier"
  | .literal .. => "Literal"
  | .this => "ThisExpression"
  | .call .. => "CallExpression"
  | .new .. => "NewExpression"
  | .await .. => "AwaitExpression"
  | .member .. => "MemberExpression"
  | .arrowFunction .. => "ArrowFunctionExpression"
  | .functionExpression .. => "FunctionExpression"
  | .assignment .. => "AssignmentExpression"
  | .binary .. => "BinaryExpression"
  | .logical .. => "LogicalExpression"
  | .unary .. => "UnaryExpression"
  | .update .. => "UpdateExpression"
  | .conditional .. => "ConditionalExpression"
  | .object .. => "ObjectExpression"
  | .property .. => "Property"
  | .array .. => "ArrayExpression"
  | .spread .. => "SpreadElement"
  | .rest .. => "RestElement"
  | .objectPattern .. => "ObjectPattern"
  | .arrayPattern .. => "ArrayPattern"
  | .asExpression .. => "TSAsExpression"
  | .satisfiesExpression .. => "TSSatisfiesExpression"
  | .nonNull .. => "TSNonNullExpression"
  | .typeAscription .. => "TSTypeAnnotation"

end Heed.NodeKind
