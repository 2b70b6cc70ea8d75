import Heed.Ty.Basic

/-!
# The text of types
-/

set_option autoImplicit false

namespace Heed

def Primitive.text : Primitive → String
  | .string => "string"
  | .number => "number"
  | .boolean => "boolean"
  | .bigint => "bigint"
  | .symbol => "symbol"
  | .object => "object"

namespace Ty

mutual

def text : Ty → String
  | .any => "any"
  | .unknown => "unknown"
  | .never => "never"
  | .void => "void"
  | .null => "null"
  | .undefined => "undefined"
  | .primitive kind => kind.text
  | .literal spelling => spelling
  | .named name [] => name
  | .named name (arg :: args) => name ++ "<" ++ text arg ++ textAll ", " args ++ ">"
  | .object members => "\x7b " ++ textMembers members ++ "\x7d"
  | .objectLiteral _ => "\x7b ... \x7d"
  | .function result => "(...) => " ++ text result
  | .classValue name => "typeof " ++ name
  | .promise inner => "Promise<" ++ text inner ++ ">"
  | .array item => text item ++ "[]"
  | .tuple items => "[" ++ textList ", " items ++ "]"
  | .union parts => textList " | " parts
  | .intersection parts => textList " & " parts

def textList (separator : String) : List Ty → String
  | [] => ""
  | type :: rest => text type ++ textAll separator rest

def textAll (separator : String) : List Ty → String
  | [] => ""
  | type :: rest => separator ++ text type ++ textAll separator rest

def textMembers : List (String × Ty) → String
  | [] => ""
  | (name, type) :: rest => name ++ ": " ++ text type ++ "; " ++ textMembers rest

end

end Ty

end Heed
