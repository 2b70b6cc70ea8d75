import Heed.Grammar.Cursor
import Heed.TypeSyntax.Basic

/-!
# The grammar of type syntax

Reading a type takes tokens and builds no nodes. `TypeProductions` holds the two productions that the
others refer back to. They do so only behind a token that they have taken, so a budget of one more than
the number of tokens ahead is never used up.
-/

set_option autoImplicit false

namespace Heed

structure TypeProductions where
  /-- Any type. -/
  type : Reader TypeExpr
  /-- A type that binds tighter than unions and intersections. -/
  operand : Reader TypeExpr

namespace Grammar

open Reader

variable (types : TypeProductions)

/-- `<T, U extends X = Y>`, of which only the names are kept. -/
def typeParams : Reader (List String) := do
  if ← check .less then
    bump
    let names ← commaList .greater do
      let _ ← grow (fun (_ : Unit) => do
        if (← checkText "in") || (← checkText "out") then
          if ← nthIs 1 Token.isName then
            bump
            return some ()
          else
            return none
        else
          return none) ()
      let _ ← eatWord .const_
      let (name, _) ← expectName
      if ← checkText "extends" then
        bump
        let _ ← types.type
      if ← eat .assign then
        let _ ← types.type
      return name
    let _ ← expect .greater
    return names
  else
    return []

def typeArgs : Reader (List TypeExpr) := do
  if ← rawIs (·.isSymbol .less) then
    bump
    let args ← commaList .greater types.type
    let _ ← expect .greater
    return args
  else
    return []

def typeReference : Reader TypeExpr := do
  let (first, _) ← expectName
  let name ← grow (fun (name : String) => do
    if ← eat .dot then
      let (part, _) ← expectPropertyName
      return some (name ++ "." ++ part)
    else
      return none) first
  return .named name (← typeArgs types)

def isNameOrThis (token : Token) : Bool := token.isName || token.isKeyword .this_

/-- The type behind a function's parameters, which may be a predicate or an assertion. -/
def returnType : Reader TypeExpr := do
  if (← checkText "asserts") && (← nthIs 1 isNameOrThis) then
    bump
    bump
    if ← checkText "is" then
      bump
      let _ ← types.type
    return .plain "void"
  else if (← nextIs isNameOrThis) && (← nthIs 1 (·.isWord "is")) then
    bump
    bump
    let _ ← types.type
    return .plain "boolean"
  else
    types.type

/-- `<T>(a: A) => R`, of which only the result is kept. -/
def functionType : Reader TypeExpr := do
  let _ ← typeParams types
  skipBalanced .parenOpen .parenClose
  let _ ← expect .arrow
  return .function (← returnType types)

def atTupleLabel : Reader Bool := do
  if ← checkName then
    if ← nthIs 1 (·.isSymbol .colon) then
      return true
    else if ← nthIs 1 (·.isSymbol .question) then
      nthIs 2 (·.isSymbol .colon)
    else
      return false
  else
    return false

def tupleType : Reader TypeExpr := do
  let _ ← expect .bracketOpen
  let items ← commaList .bracketClose do
    let _ ← eat .spread
    if ← atTupleLabel then
      bump
      let _ ← eat .question
      let _ ← expect .colon
    let item ← types.type
    let _ ← eat .question
    return item
  let _ ← expect .bracketClose
  return .tuple items

def nameEndsAt (n : Nat) : Reader Bool :=
  nthIs n fun token =>
    [Symbol.colon, .question, .parenOpen, .less, .semicolon, .comma, .braceClose].any token.isSymbol

def skipSignature : Reader Unit := do
  let _ ← typeParams types
  skipBalanced .parenOpen .parenClose
  if ← eat .colon then
    let _ ← returnType types

def methodMember (name : String) (accessor : Bool) : Reader TypeMember := do
  let _ ← typeParams types
  skipBalanced .parenOpen .parenClose
  let result ← if ← eat .colon then returnType types else pure .unmodelled
  if name = TypeMember.initializerName then
    return .initializer
  else if accessor then
    return .property name result
  else
    return .method name result

/-- Whether the next word marks an accessor and is not itself the name of the member. -/
def atAccessor : Reader Bool := do
  if (← checkText "get") || (← checkText "set") then
    return !(← nameEndsAt 1)
  else
    return false

def namedMember : Reader TypeMember := do
  let isAccessor ← atAccessor
  if isAccessor then
    bump
  let (name, _) ← expectPropertyName
  let _ ← eat .question
  if (← check .less) || (← check .parenOpen) then
    methodMember types name isAccessor
  else
    let type ← if ← eat .colon then types.type else pure .unmodelled
    return .property name type

/-- A member of an object type; index, call and construct signatures leave none. -/
def typeMember : Reader (Option TypeMember) := do
  if ← checkText "readonly" then
    if !(← nameEndsAt 1) then
      bump
  if ← check .bracketOpen then
    skipBalanced .bracketOpen .bracketClose
    let _ ← eat .question
    if ← eat .colon then
      let _ ← types.type
    return none
  else if (← check .parenOpen) || (← check .less) then
    skipSignature types
    return none
  else if ← checkWord .new_ then
    bump
    skipSignature types
    return none
  else
    return some (← namedMember types)

def typeMembers : Reader (List TypeMember) := do
  let _ ← expect .braceOpen
  collect do
    if ← eat .semicolon then
      return .more none
    else if ← eat .comma then
      return .more none
    else if ← eat .braceClose then
      return .stop
    else if ← atEnd then
      unexpected .closingBrace
    else
      return .more (← typeMember types)

def parenType : Reader TypeExpr := do
  if (← behindParens (← get).significant).any (·.isSymbol .arrow) then
    functionType types
  else
    bump
    let inner ← types.type
    let _ ← expect .parenClose
    return inner

def wordType (word : String) : Reader TypeExpr := do
  if word = "typeof" then
    bump
    let _ ← expectPropertyName
    let _ ← grow (fun (_ : Unit) => do
      if ← eat .dot then
        let _ ← expectPropertyName
        return some ()
      else
        return none) ()
    return .unmodelled
  else if word = "keyof" ∨ word = "unique" then
    bump
    let _ ← types.operand
    return .unmodelled
  else if word = "readonly" then
    bump
    types.operand
  else if word = "infer" then
    bump
    let _ ← expectName
    return .unmodelled
  else
    typeReference types

def primaryType : Reader TypeExpr := do
  match ← peek with
  | none => unexpected .typeSyntax
  | some token =>
      match token.kind with
      | .symbol .parenOpen => parenType types
      | .symbol .less => functionType types
      | .keyword .new_ =>
          bump
          let _ ← functionType types
          return .unmodelled
      | .symbol .braceOpen => return .object (← typeMembers types)
      | .symbol .bracketOpen => tupleType types
      | .string _ | .number _ | .keyword .true_ | .keyword .false_ =>
          bump
          return .literal token.text
      | .symbol .minus =>
          bump
          let number ← expectThat .number fun token =>
            match token.kind with
            | .number _ => true
            | _ => false
          return .literal ("-" ++ number.text)
      | .keyword .null_ =>
          bump
          return .plain "null"
      | .keyword .this_ =>
          bump
          return .plain "this"
      | .name word => wordType types word
      | _ => unexpected .typeSyntax

def operandType : Reader TypeExpr := do
  grow (fun (type : TypeExpr) => do
    if ← rawIs (·.isSymbol .bracketOpen) then
      bump
      if ← eat .bracketClose then
        return some (.array type)
      else
        let _ ← types.type
        let _ ← expect .bracketClose
        return some .unmodelled
    else
      return none) (← primaryType types)

/-- One or more parts with a sign between them; a sign before the first is ignored. -/
def partsOf (sign : Symbol) (part : Reader TypeExpr) (join : List TypeExpr → TypeExpr) :
    Reader TypeExpr := do
  let _ ← eat sign
  let first ← part
  let others ← collect do
    if ← eat sign then return .more (some (← part)) else return .stop
  return if others.isEmpty then first else join (first :: others)

def intersectionType : Reader TypeExpr := partsOf .amp (operandType types) .intersection

def unionType : Reader TypeExpr := partsOf .pipe (intersectionType types) .union

/-- A type, or a conditional type, of which nothing is kept. -/
def anyType : Reader TypeExpr := do
  let type ← unionType types
  if ← checkText "extends" then
    bump
    let _ ← unionType types
    let _ ← expect .question
    let _ ← types.type
    let _ ← expect .colon
    let _ ← types.type
    return .unmodelled
  else
    return type

def typeProductions : Nat → TypeProductions
  | 0 => { type := exhausted, operand := exhausted }
  | budget + 1 =>
      { type := anyType (typeProductions budget)
        operand := operandType (typeProductions budget) }

/-- Reads with a budget that the tokens ahead cannot use up. -/
def withTypes {α : Type} (read : TypeProductions → Reader α) : Reader α := do
  read (typeProductions ((← remaining) + 1))

end Grammar

end Heed
