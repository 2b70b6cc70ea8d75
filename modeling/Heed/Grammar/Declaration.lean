import Heed.Grammar.Expression

/-!
# The grammar of declarations

Variables, functions, classes, type aliases and interfaces, and the two forms that are read without
leaving anything to analyse: imports and ambient modules.
-/

set_option autoImplicit false

namespace Heed.Grammar

open Reader Builder

variable (syn : Productions)

def declarationWord? : Token.Kind → Option DeclarationWord
  | .keyword .const_ => some .const_
  | .keyword .let_ => some .let_
  | .keyword .var_ => some .var_
  | _ => none

def declarator : Builder Nat := do
  let target ← bindingTarget syn
  let _ ← eat .bang
  attachAscription target
  if ← eat .assign then
    let init ← syn.expression
    alloc (.declarator target (some init)) ((← spanOf target).join (← spanOf init))
  else
    alloc (.declarator target none) (← spanOf target)

def variableDeclaration (word : DeclarationWord) (ambient : Bool) (start : Nat) : Builder Nat := do
  bump
  let declarators ← commaSeparated (declarator syn)
  allocFrom (.variableDeclaration word declarators ambient) start

def functionDeclaration (isAsync : Bool) (start : Nat) : Builder Nat := do
  let _ ← expectWord .function_
  let _ ← eat .star
  let (name, span) ← expectName
  let name ← identifier name span
  let _ ← withTypes typeParams
  let params ← params syn
  let returnType ← returnAscription
  let body ← optionalBlock syn
  allocFrom (.functionDeclaration name params returnType body isAsync) start

/-- Whether a modifier of a class member comes next, and not its name. -/
def atMemberModifier : Reader Bool := do
  let isModifier ← nextIs fun token =>
    ["public", "private", "protected", "readonly", "static", "abstract", "declare", "override",
      "async"].any token.isWord
  let isNameItself ← nthIs 1 fun token =>
    [Symbol.parenOpen, .colon, .assign, .semicolon, .question, .less, .braceClose].any
      token.isSymbol
  return isModifier && !isNameItself

structure Modifiers where
  isStatic : Bool
  isAsync : Bool

def memberModifiers : Reader Modifiers :=
  grow (fun (found : Modifiers) => do
    if ← atMemberModifier then
      let isStatic ← checkText "static"
      let isAsync ← checkText "async"
      bump
      return some ⟨found.isStatic || isStatic, found.isAsync || isAsync⟩
    else
      return none) ⟨false, false⟩

/-- An index signature of a class, which leaves an empty statement. -/
def indexSignature (start : Nat) : Builder Nat := do
  skipBalanced .bracketOpen .bracketClose
  if ← eat .colon then
    let _ ← withTypes (·.type)
  endStatement
  allocFrom .emptyStatement start

def methodDefinition (key : Nat) (modifiers : Modifiers) (start : Nat) : Builder Nat := do
  let _ ← withTypes typeParams
  let params ← params syn
  let returnType ← returnAscription
  let body ← optionalBlock syn
  allocFrom (.methodDefinition key params returnType body modifiers.isAsync modifiers.isStatic) start

def propertyDefinition (key : Nat) (modifiers : Modifiers) (start : Nat) : Builder Nat := do
  let ascription ← if ← eat .colon then pure (some (← typeAscription)) else pure none
  let value ← if ← eat .assign then pure (some (← syn.expression)) else pure none
  if !(← eat .semicolon) then
    let _ ← eat .comma
  allocFrom (.propertyDefinition key ascription value modifiers.isStatic) start

def classMember : Builder Nat := do
  let start ← nextStart
  let modifiers ← memberModifiers
  if ← check .bracketOpen then
    indexSignature start
  else
    let (name, span) ← expectPropertyName
    let key ← identifier name span
    if !(← eat .question) then
      let _ ← eat .bang
    if (← check .less) || (← check .parenOpen) then
      methodDefinition syn key modifiers start
    else
      propertyDefinition syn key modifiers start

def classMember? : Builder (Option Nat) := do
  if ← eat .semicolon then return none else return some (← classMember syn)

def heritage : Reader (List TypeExpr) := do
  let clauses ← collect do
    if (← checkText "extends") || (← checkText "implements") then
      bump
      return .more (some (← commaSeparated (withTypes (·.type))))
    else
      return .stop
  return clauses.flatten

def classDeclaration (ambient : Bool) (start : Nat) : Builder Nat := do
  let _ ← expectWord .class_
  let (name, span) ← expectName
  let name ← identifier name span
  let typeParams ← withTypes typeParams
  let heritage ← heritage
  let _ ← expect .braceOpen
  let body ← bracedItems (classMember? syn)
  let _ ← expect .braceClose
  allocFrom (.classDeclaration name typeParams heritage body ambient) start

def typeAlias (start : Nat) : Builder Nat := do
  bump
  let (name, span) ← expectName
  let name ← identifier name span
  let typeParams ← withTypes typeParams
  let _ ← expect .assign
  let ascription ← typeAscription
  endStatement
  allocFrom (.typeAlias name typeParams ascription) start

def interfaceDeclaration (start : Nat) : Builder Nat := do
  bump
  let (name, span) ← expectName
  let name ← identifier name span
  let typeParams ← withTypes typeParams
  let bases ←
    if ← checkText "extends" then
      bump
      commaSeparated (withTypes (·.type) : Reader TypeExpr)
    else
      pure []
  let members ← withTypes typeMembers
  allocFrom (.interfaceDeclaration name typeParams bases members) start

def ambientModule (start : Nat) : Builder Nat := do
  let _ ← grow (fun (_ : Unit) => do
    if (← atEnd) || (← check .braceOpen) then
      return none
    else
      bump
      return some ()) ()
  skipBalanced .braceOpen .braceClose
  allocFrom .emptyStatement start

def ambientDeclaration (start : Nat) : Builder Nat := do
  bump
  match ← peek with
  | none => liftM (unexpected .declaration : Reader Nat)
  | some token =>
      match declarationWord? token.kind with
      | some word =>
          let declaration ← variableDeclaration syn word true start
          endStatement
          return declaration
      | none =>
          if token.isKeyword .function_ then
            functionDeclaration syn false start
          else if token.isKeyword .class_ then
            classDeclaration syn true start
          else if token.isWord "async" then
            bump
            functionDeclaration syn true start
          else if token.isWord "abstract" then
            bump
            classDeclaration syn true start
          else if token.isWord "type" then
            typeAlias start
          else if token.isWord "interface" then
            interfaceDeclaration start
          else
            ambientModule start

def braceChange (token : Token) : Int :=
  if token.isSymbol .braceOpen then 1 else if token.isSymbol .braceClose then -1 else 0

/-- The cursor behind an import: behind its semicolon, or before a newline outside of braces. -/
def importEnd (openBraces : Int) : List Token → Cursor → Cursor
  | [], cursor => cursor
  | token :: rest, cursor =>
      if token.isSymbol .semicolon then cursor.advanceRaw
      else if token.isNewline && openBraces ≤ 0 then cursor
      else importEnd (openBraces + braceChange token) rest cursor.advanceRaw

def importDeclaration (start : Nat) : Builder Nat := do
  bump
  (modify fun cursor => importEnd 0 cursor.rest cursor : Reader Unit)
  allocFrom .emptyStatement start

end Heed.Grammar
