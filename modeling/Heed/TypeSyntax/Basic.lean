/-!
# Type syntax

Types as they are written in ascriptions and declarations. Of a function type only the result is kept.
Forms that say nothing to the checker, such as conditional types, are `unmodelled`.
-/

set_option autoImplicit false

namespace Heed

mutual

inductive TypeExpr where
  /-- A name, possibly dotted, with type arguments. -/
  | named (name : String) (args : List TypeExpr)
  | union (parts : List TypeExpr)
  | intersection (parts : List TypeExpr)
  | function (result : TypeExpr)
  | object (members : List TypeMember)
  | array (item : TypeExpr)
  | tuple (items : List TypeExpr)
  /-- A string, number or boolean literal, as it is spelled. -/
  | literal (text : String)
  | unmodelled

inductive TypeMember where
  | property (name : String) (type : TypeExpr)
  | method (name : String) (result : TypeExpr)
  /-- The member named `constructor`, when it is a method. -/
  | initializer

end

deriving instance Inhabited, Repr for TypeExpr, TypeMember

namespace TypeExpr

def plain (name : String) : TypeExpr := .named name []

end TypeExpr

namespace TypeMember

def initializerName : String := "constructor"

def name : TypeMember → String
  | .property name _ => name
  | .method name _ => name
  | .initializer => initializerName

end TypeMember

end Heed
